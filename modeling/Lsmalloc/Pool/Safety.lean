import Mathlib.Data.List.Nodup
import Lsmalloc.Pool.Growth

/-!
# The pool over whole runs

`PoolOk` is the invariant of a pool: its free queue and the chunks it has handed
out are, together, the chunks of its mappings. `pmempool_create` establishes it,
and every `pmempool_chunk_alloc` and every `pmempool_free` of an outstanding
chunk keeps it (`PoolOk.chunkAlloc`, `PoolOk.chunkFree`).
-/

namespace Lsmalloc

open Execution (FailsOnly failsOnly_ok failsOnly_error)

/-! ## The chunks of the mappings -/

theorem mem_chunksOf {base a : Nat} :
    a ∈ chunksOf base ↔ ∃ i < freelistLen, base + i * chunksize = a := by
  simp [chunksOf]

/-- A chunk of a mapping is aligned, within the mapping, and not `NULL`. -/
theorem IsBase.of_mem {base a : Nat} (isBase : IsBase base pmempoolSize)
    (member : a ∈ chunksOf base) : IsBase a chunksize ∧
      (chunkSpan a).Within ⟨base, pmempoolSize⟩ := by
  obtain ⟨i, inside, rfl⟩ := mem_chunksOf.mp member
  have nonnull := isBase.nonnull
  have aligned := isBase.aligned
  have ends := isBase.ends
  rw [freelistLen_eq] at inside
  rw [pmempoolSize_eq] at ends
  rw [chunksize_eq] at aligned
  refine ⟨⟨by omega, ?_, ?_⟩, ?_⟩
  · rw [chunksize_eq]
    omega
  · rw [chunksize_eq]
    omega
  · rw [chunkSpan, Span.within_mk, chunksize_eq, pmempoolSize_eq]
    omega

theorem chunksOf_nodup (base : Nat) : (chunksOf base).Nodup := by
  refine List.Nodup.map_on ?_ List.nodup_range
  intro i _ j _ same
  rw [chunksize_eq] at same
  omega

/-- Chunks of mappings that are apart are different. -/
theorem chunksOf_disjoint {b c : Nat} (isBase : IsBase b pmempoolSize)
    (isBase' : IsBase c pmempoolSize)
    (apart : (Span.mk b pmempoolSize).Apart ⟨c, pmempoolSize⟩) :
    (chunksOf b).Disjoint (chunksOf c) := by
  intro a inB inC
  have within := (isBase.of_mem inB).2
  have within' := (isBase'.of_mem inC).2
  have apartSelf : (chunkSpan a).Apart (chunkSpan a) := apart.mono₂ within within'
  exact apartSelf.start_ne (by decide : 0 < chunksize) (by decide : 0 < chunksize) rfl

/-- Two different aligned chunks are apart. -/
theorem chunkSpan_apart {a b : Nat} (aligned : a % chunksize = 0) (aligned' : b % chunksize = 0)
    (different : a ≠ b) : (chunkSpan a).Apart (chunkSpan b) := by
  rw [chunkSpan, chunkSpan, Span.apart_mk]
  rw [chunksize_eq] at *
  omega

/-! ## The invariant -/

/-- The free queue and the outstanding chunks partition the chunks of the mappings,
which are mapped and apart, and the counters count them. -/
structure PoolOk (w : World) (pp : Pmempool) (free maps out : List Nat) : Prop where
  ring : FreeRing pp free
  files : FileRing pp maps
  partition : (free ++ out).Perm (maps.flatMap chunksOf)
  bases : ∀ base ∈ maps, IsBase base pmempoolSize
  mapped : ∀ base ∈ maps, Mapped w.maps ⟨base, pmempoolSize⟩
  apart : maps.Pairwise fun b c => (Span.mk b pmempoolSize).Apart ⟨c, pmempoolSize⟩
  chunkUsed : pp.chunkUsed = out.length
  chunkTot : pp.chunkTot = freelistLen * maps.length

section

variable {w w' : World} {pp pp' : Pmempool} {free maps out : List Nat} {a : Nat}

/-- No chunk is free twice, outstanding twice, or free and outstanding. -/
theorem PoolOk.nodup (ok : PoolOk w pp free maps out) : (free ++ out).Nodup := by
  rw [ok.partition.nodup_iff, List.nodup_flatMap]
  refine ⟨fun base _ => chunksOf_nodup base, ?_⟩
  refine ok.apart.imp_of_mem ?_
  intro b c inMaps inMaps' apart
  exact chunksOf_disjoint (ok.bases b inMaps) (ok.bases c inMaps') apart

/-- Every chunk of the pool, free or not, is an aligned chunk of one of its mappings. -/
theorem PoolOk.chunk (ok : PoolOk w pp free maps out) (member : a ∈ free ++ out) :
    IsBase a chunksize ∧ ∃ base ∈ maps, (chunkSpan a).Within ⟨base, pmempoolSize⟩ := by
  obtain ⟨base, inMaps, inChunks⟩ := List.mem_flatMap.mp (ok.partition.mem_iff.mp member)
  obtain ⟨isBase, within⟩ := (ok.bases base inMaps).of_mem inChunks
  exact ⟨isBase, base, inMaps, within⟩

/-- The bytes of every chunk of the pool are mapped. -/
theorem PoolOk.chunk_mapped (ok : PoolOk w pp free maps out) (member : a ∈ free ++ out) :
    Mapped w.maps (chunkSpan a) := by
  obtain ⟨_, base, inMaps, within⟩ := ok.chunk member
  obtain ⟨m, isMap, outer⟩ := ok.mapped base inMaps
  exact ⟨m, isMap, within.trans outer⟩

/-- The invariant needs of the process only that the mappings stay. -/
theorem PoolOk.of_maps (ok : PoolOk w pp free maps out) (same : w'.maps = w.maps) :
    PoolOk w' pp free maps out := by
  refine { ok with mapped := ?_ }
  rw [same]
  exact ok.mapped

/-- The invariant lasts as long as what is mapped stays mapped. -/
theorem PoolOk.mono (ok : PoolOk w pp free maps out)
    (kept : ∀ r : Span, 0 < r.len → Mapped w.maps r → Mapped w'.maps r) :
    PoolOk w' pp free maps out := by
  have positive : 0 < pmempoolSize := by decide
  refine { ok with mapped := ?_ }
  exact fun base member => kept ⟨base, pmempoolSize⟩ positive (ok.mapped base member)

/-- The order in which chunks were handed out does not matter. -/
theorem PoolOk.of_perm {out' : List Nat} (ok : PoolOk w pp free maps out) (perm : out.Perm out') :
    PoolOk w pp free maps out' where
  ring := ok.ring
  files := ok.files
  partition := (List.Perm.append_left free perm.symm).trans ok.partition
  bases := ok.bases
  mapped := ok.mapped
  apart := ok.apart
  chunkUsed := by rw [ok.chunkUsed, perm.length_eq]
  chunkTot := ok.chunkTot

/-- What the invariant says of the counters. -/
theorem PoolOk.counters (ok : PoolOk w pp free maps out) :
    0 ≤ pp.chunkUsed ∧ pp.chunkUsed ≤ pp.chunkTot := by
  have lengths := ok.partition.length_eq
  have each : ∀ l : List Nat, (l.flatMap chunksOf).length = freelistLen * l.length := by
    intro l
    induction l with
    | nil => rfl
    | cons base l ih =>
        have one : (chunksOf base).length = freelistLen := by simp [chunksOf]
        rw [List.flatMap_cons, List.length_append, one, ih, List.length_cons, Nat.mul_succ,
          Nat.add_comm]
  rw [each, List.length_append] at lengths
  rw [ok.chunkUsed, ok.chunkTot]
  constructor
  · exact Int.natCast_nonneg _
  · have bound : out.length ≤ freelistLen * maps.length := by omega
    exact_mod_cast bound

/-! ## The steps -/

/-- `pmempool_create` leaves one mapping, all of it free. -/
theorem PoolOk.create (created : pmempoolCreate w pp = .ok (w', pp')) :
    ∃ base, Grows w w' ⟨base, pmempoolSize⟩ ∧ PoolOk w' pp' (chunksOf base) [base] [] := by
  unfold pmempoolCreate at created
  obtain ⟨base, grown⟩ := pmempoolCreateOne_spec
    ⟨[], [], [], isRing_qrNew _ _, by simp, by simp, rfl, by simp⟩ created
  have files := grown.files [] ⟨[], isRing_qrNew _ _, by simp, rfl⟩
  refine ⟨base, grown.grows, ⟨grown.free, files, by simp, ?_, ?_, by simp, ?_, ?_⟩⟩
  · simpa using grown.isBase
  · simpa using grown.grows.mapped
  · simpa using grown.chunkUsed
  · simpa using grown.chunkTot

/-- `pmempool_chunk_alloc` hands out the front of the queue, or the first chunk of a
new mapping when the queue is empty. -/
theorem PoolOk.chunkAlloc (ok : PoolOk w pp free maps out)
    (allocated : pmempoolChunkAlloc w pp = .ok (a, w', pp')) :
    (∃ rest, free = a :: rest ∧ w' = w ∧ PoolOk w' pp' rest maps (a :: out)) ∨
      (∃ base rest, free = [] ∧ chunksOf base = a :: rest ∧ Grows w w' ⟨base, pmempoolSize⟩ ∧
        PoolOk w' pp' rest (base :: maps) (a :: out)) := by
  have move : ∀ rest : List Nat, (rest ++ a :: out).Perm (a :: rest ++ out) := fun rest =>
    List.perm_middle
  have used : pp.chunkUsed + 1 = ((a :: out).length : Int) := by
    rw [ok.chunkUsed, List.length_cons]
    push_cast
    rfl
  rcases pmempoolChunkAlloc_spec ok.ring allocated with
    ⟨rest, rfl, ring, rfl, files, tot, counted⟩ |
    ⟨base, rest, rfl, chunks, ring, isBase, grows, files, tot, counted⟩
  · refine .inl ⟨rest, rfl, rfl, ring, files maps ok.files, (move rest).trans ok.partition,
      ok.bases, ok.mapped, ok.apart, counted.trans used, tot.trans ok.chunkTot⟩
  · have positive : 0 < pmempoolSize := by rw [pmempoolSize_eq]; omega
    have kept : ∀ b ∈ maps, Mapped w'.maps ⟨b, pmempoolSize⟩ ∧
        (Span.mk b pmempoolSize).Apart ⟨base, pmempoolSize⟩ := fun b member =>
      grows.keeps ⟨b, pmempoolSize⟩ positive (ok.mapped b member)
    refine .inr ⟨base, rest, rfl, chunks, grows, ring, files maps ok.files, ?_, ?_, ?_, ?_,
      counted.trans used, ?_⟩
    · rw [List.flatMap_cons, chunks]
      exact (move rest).trans (List.Perm.append_left _ ok.partition)
    · exact List.forall_mem_cons.mpr ⟨isBase, ok.bases⟩
    · exact List.forall_mem_cons.mpr ⟨grows.mapped, fun b member => (kept b member).1⟩
    · exact List.pairwise_cons.mpr ⟨fun b member => (kept b member).2.symm, ok.apart⟩
    · rw [tot, ok.chunkTot, List.length_cons]
      push_cast
      rw [Int.mul_add, Int.mul_one]

/-- The address is that of a chunk: aligned, and mapped. -/
structure IsChunk (w : World) (a : Nat) : Prop where
  isBase : IsBase a chunksize
  mapped : Mapped w.maps (chunkSpan a)

/-- The header of a chunk lies in it. -/
theorem IsChunk.header (isChunk : IsChunk w a) : Mapped w.maps ⟨a, sizeofPchunk⟩ :=
  isChunk.mapped.mono
    ⟨Nat.le_refl _, Nat.add_le_add_left (by decide : sizeofPchunk ≤ chunksize) _⟩

/-- What the pool hands out next is a chunk. -/
def GivesChunk (w : World) (pp : Pmempool) : Prop :=
  ∀ a w' pp', pmempoolChunkAlloc w pp = .ok (a, w', pp') → IsChunk w' a

theorem PoolOk.givesChunk (ok : PoolOk w pp free maps out) : GivesChunk w pp := by
  intro a w' pp' allocated
  obtain ⟨rest, maps', kept⟩ : ∃ rest maps', PoolOk w' pp' rest maps' (a :: out) := by
    rcases ok.chunkAlloc allocated with ⟨rest, _, _, kept⟩ | ⟨base, rest, _, _, _, kept⟩
    · exact ⟨rest, maps, kept⟩
    · exact ⟨rest, base :: maps, kept⟩
  have inPool : a ∈ rest ++ a :: out := by simp
  exact ⟨(kept.chunk inPool).1, kept.chunk_mapped inPool⟩

/-- `pmempool_free` of an outstanding chunk puts it at the back of the queue. -/
theorem PoolOk.chunkFree (ok : PoolOk w pp free maps out) (outstanding : a ∈ out) :
    PoolOk w (pmempoolFree pp a) (free ++ [a]) maps (out.erase a) where
  ring := ok.ring.free (ok.chunk (List.mem_append_right _ outstanding)).1.nonnull
  files := ok.files.of_fields rfl rfl rfl rfl
  partition := by
    have back : (a :: out.erase a).Perm out := (List.perm_cons_erase outstanding).symm
    have whole : (free ++ [a] ++ out.erase a).Perm (free ++ out) := by
      simpa using List.Perm.append_left free back
    exact whole.trans ok.partition
  bases := ok.bases
  mapped := ok.mapped
  apart := ok.apart
  chunkUsed := by
    have positive := List.length_pos_of_mem outstanding
    rw [List.length_erase_of_mem outstanding]
    change pp.chunkUsed - 1 = _
    rw [ok.chunkUsed]
    omega
  chunkTot := ok.chunkTot

end

/-! ## Whole runs -/

/-- A pool, its process, and the chunks handed out and not yet given back. -/
structure PoolRun where
  world : World
  pool : Pmempool
  out : List Nat

/-- The calls a pool's user makes. -/
inductive PoolOp
  | chunkAlloc
  | free (ptr : Nat)
deriving DecidableEq, Repr

/-- One call. Only an outstanding chunk may be given back. -/
def PoolRun.step (s : PoolRun) : PoolOp → Except Fault PoolRun
  | .chunkAlloc => do
      let (ret, world, pool) ← pmempoolChunkAlloc s.world s.pool
      .ok ⟨world, pool, ret :: s.out⟩
  | .free ptr =>
      if ptr ∈ s.out then .ok ⟨s.world, pmempoolFree s.pool ptr, s.out.erase ptr⟩
      else .error .contract

/-- `pmempool_create`, then the calls in order. -/
def poolRun (w : World) (pp : Pmempool) (ops : List PoolOp) : Except Fault PoolRun := do
  let (world, pool) ← pmempoolCreate w pp
  Execution.run PoolRun.step ⟨world, pool, []⟩ ops

/-- The invariant of a run. -/
def PoolRun.Inv (s : PoolRun) : Prop :=
  ∃ free maps, PoolOk s.world s.pool free maps s.out

/-- Every call keeps the invariant. -/
theorem PoolRun.step_inv {s s' : PoolRun} {op : PoolOp} (inv : s.Inv)
    (stepped : s.step op = .ok s') : s'.Inv := by
  obtain ⟨free, maps, ok⟩ := inv
  cases op with
  | chunkAlloc =>
      obtain ⟨⟨ret, world, pool⟩, allocated, finished⟩ := Execution.bind_eq_ok.mp stepped
      cases finished
      rcases ok.chunkAlloc allocated with ⟨rest, _, _, kept⟩ | ⟨base, rest, _, _, _, kept⟩
      · exact ⟨rest, maps, kept⟩
      · exact ⟨rest, base :: maps, kept⟩
  | free ptr =>
      simp only [PoolRun.step] at stepped
      split at stepped
      · rename_i outstanding
        cases stepped
        exact ⟨free ++ [ptr], maps, ok.chunkFree outstanding⟩
      · cases stepped

/-- Every run keeps the invariant. -/
theorem poolRun_inv {w : World} {pp : Pmempool} {ops : List PoolOp} {s : PoolRun}
    (reached : poolRun w pp ops = .ok s) : s.Inv := by
  obtain ⟨⟨w₀, pp₀⟩, created, ran⟩ := Execution.bind_eq_ok.mp reached
  obtain ⟨base, _, ok⟩ := PoolOk.create created
  have kept : ∀ s op s', PoolRun.Inv s → s.step op = .ok s' → s'.Inv :=
    fun _ _ _ inv stepped => PoolRun.step_inv inv stepped
  exact Execution.run_kept kept ⟨_, _, ok⟩ ran

/-- As long as the queue is not empty, `pmempool_chunk_alloc` serves its front. -/
theorem PoolOk.chunkAlloc_of_free {w : World} {pp : Pmempool} {a : Nat} {free maps out : List Nat}
    (ok : PoolOk w pp (a :: free) maps out) :
    ∃ pp', pmempoolChunkAlloc w pp = .ok (a, w, pp') ∧ PoolOk w pp' free maps (a :: out) := by
  have available : pp.flLink.next pp.flNow ≠ pp.flNow := fun exhausted =>
    absurd (ok.ring.exhausted_iff.mp exhausted) (by simp)
  have serves : pmempoolChunkAlloc w pp = .ok ((popFree pp).1, w, (popFree pp).2) := by
    rw [pmempoolChunkAlloc, if_neg available]
    rfl
  rw [ok.ring.pop.1] at serves
  refine ⟨_, serves, ?_⟩
  rcases ok.chunkAlloc serves with ⟨rest, same, _, kept⟩ | ⟨_, _, empty, _⟩
  · obtain rfl := (List.cons.inj same).2
    exact kept
  · cases empty

/-- A run may take as many chunks as are free. -/
theorem PoolOk.run_chunkAllocs {w : World} {pp : Pmempool} {free maps out : List Nat} {count : Nat}
    (ok : PoolOk w pp free maps out) (enough : count ≤ free.length) :
    ∃ s, Execution.run PoolRun.step ⟨w, pp, out⟩ (List.replicate count .chunkAlloc) = .ok s ∧
      s.out.length = out.length + count ∧ PoolOk s.world s.pool (free.drop count) maps s.out := by
  induction count generalizing pp free out with
  | zero => exact ⟨⟨w, pp, out⟩, rfl, rfl, ok⟩
  | succ count ih =>
      cases free with
      | nil => simp at enough
      | cons a free =>
          obtain ⟨pp', serves, kept⟩ := ok.chunkAlloc_of_free
          obtain ⟨s, ran, counted, last⟩ := ih kept (by simpa using enough)
          refine ⟨s, ?_, ?_, last⟩
          · have stepped : PoolRun.step ⟨w, pp, out⟩ .chunkAlloc = .ok ⟨w, pp', a :: out⟩ := by
              simp [PoolRun.step, serves, bind, Except.bind]
            exact Execution.run_cons_eq_ok.mpr ⟨_, stepped, ran⟩
          · rw [counted, List.length_cons]
            omega

/-- What a user relies on: one sentinel on a ring, free and outstanding chunks
partition the mappings, the counters count, and the next chunk handed out is an
aligned chunk of a mapping that nobody else has. -/
structure PoolSafe (s : PoolRun) : Prop where
  ring : s.pool.flLink.IsRing s.pool.freeNodes
  sentinel : (s.pool.freeNodes.map s.pool.flPaddr).count 0 = 1
  partition : (s.pool.freeAddrs ++ s.out).Perm (s.pool.mappings.flatMap chunksOf)
  distinct : (s.pool.freeAddrs ++ s.out).Nodup
  chunkUsed : s.pool.chunkUsed = s.out.length
  chunkTot : s.pool.chunkTot = freelistLen * s.pool.mappings.length
  serves : ∀ ret world pool, pmempoolChunkAlloc s.world s.pool = .ok (ret, world, pool) →
    ret ≠ 0 ∧ ret % chunksize = 0 ∧ ret ∉ s.out ∧ ∃ base ∈ pool.mappings,
      (chunkSpan ret).Within ⟨base, pmempoolSize⟩ ∧ Mapped world.maps ⟨base, pmempoolSize⟩
  returns : ∀ fault, pmempoolChunkAlloc s.world s.pool = .error fault →
    fault = .exit ∨ fault = .contract

/-- The nodes a well-formed free ring is read as. -/
theorem FreeRing.freeNodes {pp : Pmempool} {free : List Nat} (ring : FreeRing pp free) :
    pp.flLink.IsRing pp.freeNodes ∧ (pp.freeNodes.map pp.flPaddr).count 0 = 1 := by
  obtain ⟨rest, front, back, isRing, named, addrs, rfl, nonnull⟩ := ring.reads
  have enough : rest.length ≤ pp.flNodes := by
    have bound := length_le_of_named isRing.nodup named
    simp only [List.length_cons] at bound
    omega
  simp only [List.mem_append, not_or] at nonnull
  rw [Pmempool.freeNodes, isRing.walk_eq enough]
  refine ⟨isRing, ?_⟩
  rw [addrs, List.count_append, List.count_cons_self, List.count_eq_zero_of_not_mem nonnull.1,
    List.count_eq_zero_of_not_mem nonnull.2]

/-- The mapping phase ends early only when a mapping failed. -/
theorem pmemMapAligned_failsOnly (w : World) (str : PmemPath) (size : Nat) :
    FailsOnly Fault.FromEnvironment (pmemMapAligned w str size) := by
  refine (pmemMapFile_failsOnly w str size).bind ?_
  rintro ⟨addr, w₁⟩ _
  simp only
  split
  · exact failsOnly_error (.inl rfl)
  split
  · exact failsOnly_ok _
  refine (pmemMapFile_failsOnly _ str _).bind ?_
  rintro ⟨addr₂, w₂⟩ _
  simp only
  split
  · exact failsOnly_error (.inl rfl)
  · exact failsOnly_ok _

/-- `pmempool_create_one` ends early only when a mapping failed. -/
theorem pmempoolCreateOne_failsOnly (w : World) (pp : Pmempool) :
    FailsOnly Fault.FromEnvironment (pmempoolCreateOne w pp) :=
  (pmemMapAligned_failsOnly _ _ _).bind fun _ _ => failsOnly_ok _

/-- `pmempool_chunk_alloc` ends early only when a mapping failed. -/
theorem pmempoolChunkAlloc_failsOnly (w : World) (pp : Pmempool) :
    FailsOnly Fault.FromEnvironment (pmempoolChunkAlloc w pp) := by
  refine .bind ?_ fun _ _ => failsOnly_ok _
  split
  · exact pmempoolCreateOne_failsOnly w pp
  · exact failsOnly_ok _

/-- **The pool is safe.** In every state of every run that allocates chunks and gives
outstanding ones back, the pool is safe. -/
theorem pmempool_safe {w : World} {pp : Pmempool} {ops : List PoolOp} {s : PoolRun}
    (reached : poolRun w pp ops = .ok s) : PoolSafe s := by
  obtain ⟨free, maps, ok⟩ := poolRun_inv reached
  obtain ⟨ring, sentinel⟩ := ok.ring.freeNodes
  have freeAddrs := ok.ring.freeAddrs_eq
  have mappings := ok.files.mappings_eq
  refine ⟨ring, sentinel, ?_, ?_, ok.chunkUsed, ?_, ?_, pmempoolChunkAlloc_failsOnly _ _⟩
  · rw [freeAddrs, mappings]
    exact ok.partition
  · rw [freeAddrs]
    exact ok.nodup
  · rw [mappings]
    exact ok.chunkTot
  · intro ret world pool allocated
    have next : ∃ rest maps', PoolOk world pool rest maps' (ret :: s.out) := by
      rcases ok.chunkAlloc allocated with ⟨rest, _, _, kept⟩ | ⟨base, rest, _, _, _, kept⟩
      · exact ⟨rest, maps, kept⟩
      · exact ⟨rest, base :: maps, kept⟩
    obtain ⟨rest, maps', kept⟩ := next
    obtain ⟨isBase, base, inMaps, within⟩ := kept.chunk (a := ret) (by simp)
    have distinct := (List.nodup_append.mp kept.nodup).2.1
    exact ⟨isBase.nonnull, isBase.aligned, (List.nodup_cons.mp distinct).1, base,
      by rwa [kept.files.mappings_eq], within, kept.mapped base inMaps⟩

/-- Three calls on a pool whose first mapping is not aligned. -/
theorem pmempool_safe_of_misaligned :
    ∃ s, poolRun (World.fresh [page, page] []) Pmempool.zeroed
      [.chunkAlloc, .chunkAlloc, .free chunksize] = .ok s ∧ PoolSafe s := by
  obtain ⟨s, reached⟩ : ∃ s, poolRun (World.fresh [page, page] []) Pmempool.zeroed
      [.chunkAlloc, .chunkAlloc, .free chunksize] = .ok s :=
    Execution.exists_eq_ok (by decide +kernel)
  exact ⟨s, reached, pmempool_safe reached⟩

end Lsmalloc
