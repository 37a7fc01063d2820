import Lsmalloc.Huge.Records

/-!
# The consumption counter

`pmem_consmp` is to be the bytes of PMEM in use: what the pools have mapped and what the
outstanding huge blocks asked for. It is an `unsigned int`, and `atomic_add_uint32` takes the
low 32 bits of a size. While the records of the blocks are kept it is the bytes in use modulo
`2 ^ 32` (`MeterOk`), so it is the bytes in use exactly while these are below `2 ^ 32`.
-/

namespace Lsmalloc

open Execution

/-- The pools and the huge blocks of a process; `made` are the pools that were created. -/
structure MeteredRun where
  run : HugeRun
  made : List Nat

/-- As the program is loaded, after `huge_boot`. -/
def MeteredRun.booted (w : World) (huge : HugeMap) (pools : Nat → Pmempool) : MeteredRun where
  run := .booted w huge pools
  made := []

/-- The calls that map and unmap, and what the frames of calls do to the records. -/
inductive MeterOp
  | create (pool : Nat)
  | chunkAlloc (pool : Nat)
  | chunkFree (pool ptr : Nat)
  | malloc (node size : Nat)
  | dalloc (ptr : Nat)
  | overlay (node : Nat) (record : HugeNode)
deriving DecidableEq, Repr

/-- The calls of `huge.c` as they are. -/
def MeteredRun.frame (s : MeteredRun) (op : FrameOp) : Except Fault MeteredRun := do
  let run ← s.run.frameStep op
  .ok { s with run := run }

/-- A call leaves the pool and the process so. -/
def MeteredRun.setPool (s : MeteredRun) (world : World) (pool : Nat) (pp : Pmempool) :
    MeteredRun :=
  { s with run := { s.run with world := world, pools := Function.update s.run.pools pool pp } }

/-- One call. A pool is created once, and used after that. -/
def MeteredRun.step (s : MeteredRun) : MeterOp → Except Fault MeteredRun
  | .create pool =>
      if pool ∈ s.made then .error .contract
      else do
        let (world, pp) ← pmempoolCreate s.run.world (s.run.pools pool)
        .ok { s.setPool world pool pp with made := pool :: s.made }
  | .chunkAlloc pool =>
      if pool ∈ s.made then do
        let (_, world, pp) ← pmempoolChunkAlloc s.run.world (s.run.pools pool)
        .ok (s.setPool world pool pp)
      else .error .contract
  | .chunkFree pool ptr =>
      if pool ∈ s.made then
        .ok (s.setPool s.run.world pool (pmempoolFree (s.run.pools pool) ptr))
      else .error .contract
  | .malloc node size => s.frame (.call (.malloc node size))
  | .dalloc ptr => s.frame (.call (.dalloc ptr))
  | .overlay node record => s.frame (.overlay node record)

/-- No frame is laid over the record of an outstanding block and changes it. A frame that covers
part of the record is an overlay too. -/
def MeteredRun.Clear (s : MeteredRun) : MeterOp → Prop
  | .malloc node size => s.run.Clear (.call (.malloc node size))
  | .overlay node record => s.run.Clear (.overlay node record)
  | _ => True

instance (s : MeteredRun) (op : MeterOp) : Decidable (s.Clear op) := by
  unfold MeteredRun.Clear
  split <;> infer_instance

/-- How many files the pools have mapped. -/
def MeteredRun.mappings (s : MeteredRun) : Nat :=
  (s.made.map fun pool => (s.run.pools pool).mappings.length).sum

/-- The bytes of PMEM in use. -/
def MeteredRun.inUse (s : MeteredRun) : Nat :=
  pmempoolSize * s.mappings + (s.run.live.map HugeBlock.size).sum

/-! ## What a pool counts -/

variable {w w' : World} {pp pp' : Pmempool} {n : Nat}

/-- The call mapped `n` files for the pool, counted them, and left what was mapped. -/
structure Counted (w w' : World) (pp pp' : Pmempool) (n : Nat) : Prop where
  keeps : ∀ r : Span, 0 < r.len → Mapped w.maps r → Mapped w'.maps r
  files : ∀ maps, FileRing pp maps → ∃ news, news.length = n ∧ FileRing pp' (news ++ maps)
  pmemConsmp : w.pmemConsmp < 2 ^ 32 → w'.pmemConsmp = (w.pmemConsmp + pmempoolSize * n) % 2 ^ 32

/-- `pmempool_create_one` on any pool. -/
theorem pmempoolCreateOne_counted (created : pmempoolCreateOne w pp = .ok (w', pp')) :
    Counted w w' pp pp' 1 := by
  obtain ⟨_, grows⟩ := pmempoolCreateOne_grows created
  obtain ⟨⟨base, w₁⟩, mapped, created⟩ := bind_eq_ok.mp created
  obtain ⟨-, consmp⟩ := pmemMapAligned_counters mapped
  simp only [Except.ok.injEq, Prod.mk.injEq] at created
  obtain ⟨rfl, rfl⟩ := created
  constructor
  case keeps => exact fun r nonempty old => (grows.keeps r nonempty old).1
  case files => exact fun _ ring => ⟨[base], rfl, ring.grow _ base freelistLen⟩
  case pmemConsmp => exact fun _ => by simp only [consmp, Nat.mul_one]

/-- `pmempool_create` leaves a pool of one mapping. -/
theorem pmempoolCreate_counted (created : pmempoolCreate w pp = .ok (w', pp')) :
    ∃ empty, FileRing empty [] ∧ Counted w w' empty pp' 1 := by
  unfold pmempoolCreate at created
  exact ⟨_, ⟨[], isRing_qrNew _ _, by simp, rfl⟩, pmempoolCreateOne_counted created⟩

/-- `pmempool_chunk_alloc` maps a file or none. -/
theorem pmempoolChunkAlloc_counted {a : Nat}
    (allocated : pmempoolChunkAlloc w pp = .ok (a, w', pp')) : ∃ n, Counted w w' pp pp' n := by
  unfold pmempoolChunkAlloc at allocated
  obtain ⟨⟨w₁, pp₁⟩, grown, popped⟩ := bind_eq_ok.mp allocated
  simp only [Except.ok.injEq, Prod.mk.injEq] at popped
  obtain ⟨-, rfl, rfl⟩ := popped
  obtain ⟨-, -, sameFiles⟩ := popFree_fields pp₁
  split at grown
  · obtain ⟨keeps, files, consmp⟩ := pmempoolCreateOne_counted grown
    refine ⟨1, keeps, fun maps ring => ?_, consmp⟩
    obtain ⟨news, one, ring'⟩ := files maps ring
    exact ⟨news, one, sameFiles _ ring'⟩
  · cases grown
    exact ⟨0, fun _ _ old => old, fun maps ring => ⟨[], rfl, sameFiles maps ring⟩,
      fun word => (Nat.mod_eq_of_lt word).symm⟩

/-- `pmempool_free` maps none. -/
theorem pmempoolFree_counted (w : World) (pp : Pmempool) (ptr : Nat) :
    Counted w w pp (pmempoolFree pp ptr) 0 where
  keeps _ _ old := old
  files _ ring := ⟨[], rfl, ring.of_fields rfl rfl rfl rfl⟩
  pmemConsmp word := (Nat.mod_eq_of_lt word).symm

/-! ## The invariant -/

/-- The counter is the bytes in use modulo `2 ^ 32`. -/
structure MeterOk (s : MeteredRun) : Prop where
  huge : HugeOk s.run
  nodup : s.made.Nodup
  files : ∀ pool ∈ s.made, ∃ maps, FileRing (s.run.pools pool) maps
  pmemConsmp : s.run.world.pmemConsmp = s.inUse % 2 ^ 32

theorem MeterOk.booted (w : World) (huge : HugeMap) (pools : Nat → Pmempool)
    (loaded : w.pmemConsmp = 0) : MeterOk (.booted w huge pools) where
  huge := .booted w huge pools
  nodup := List.nodup_nil
  files := by simp [MeteredRun.booted]
  pmemConsmp := loaded

variable {s s' : MeteredRun} {op : MeterOp} {pool node size ptr : Nat}

/-- The pools other than the one a call changes are as they were. -/
theorem MeteredRun.setPool_other {other : Nat} (different : other ≠ pool) (world : World)
    (pp : Pmempool) : (s.setPool world pool pp).run.pools other = s.run.pools other :=
  Function.update_of_ne different _ _

/-- They count what they counted. -/
theorem MeteredRun.mappings_others {rest : List Nat} (absent : pool ∉ rest) (world : World)
    (pp : Pmempool) :
    rest.map (fun other => ((s.setPool world pool pp).run.pools other).mappings.length) =
      rest.map fun other => (s.run.pools other).mappings.length := by
  refine List.map_congr_left fun other member => ?_
  have different : other ≠ pool := by
    rintro rfl
    exact absent member
  rw [MeteredRun.setPool_other different]

/-- A call on a pool that was created. -/
theorem MeterOk.setPool (ok : MeterOk s) (member : pool ∈ s.made)
    (counted : Counted s.run.world w' (s.run.pools pool) pp' n) :
    MeterOk (s.setPool w' pool pp') := by
  obtain ⟨maps, ring⟩ := ok.files pool member
  obtain ⟨news, many, ring'⟩ := counted.files maps ring
  have here : (s.setPool w' pool pp').run.pools pool = pp' := Function.update_self _ _ _
  constructor
  case huge => exact ok.huge.of_mapped counted.keeps rfl rfl
  case nodup => exact ok.nodup
  case files =>
    intro other inMade
    by_cases same : other = pool
    · rw [same, here]
      exact ⟨_, ring'⟩
    · rw [MeteredRun.setPool_other same]
      exact ok.files other inMade
  case pmemConsmp =>
    have split : s.made.Perm (pool :: s.made.erase pool) := List.perm_cons_erase member
    have absent := (List.nodup_cons.mp (split.nodup_iff.mp ok.nodup)).1
    have before : s.mappings = maps.length +
        ((s.made.erase pool).map fun other => (s.run.pools other).mappings.length).sum := by
      rw [MeteredRun.mappings, (split.map _).sum_nat, List.map_cons, List.sum_cons,
        ring.mappings_eq]
    have after : (s.setPool w' pool pp').mappings = n + s.mappings := by
      change (s.made.map fun other =>
        ((s.setPool w' pool pp').run.pools other).mappings.length).sum = _
      rw [(split.map _).sum_nat, List.map_cons, List.sum_cons, MeteredRun.mappings_others absent,
        here, ring'.mappings_eq, List.length_append, many, before, Nat.add_assoc]
    have known := ok.pmemConsmp
    have counter := counted.pmemConsmp (by omega)
    simp only [MeteredRun.inUse, after] at known ⊢
    change w'.pmemConsmp = (pmempoolSize * (n + s.mappings) +
      (s.run.live.map HugeBlock.size).sum) % 2 ^ 32
    rw [Nat.mul_add]
    omega

/-- `pmempool_create` of a pool. -/
theorem MeterOk.create (ok : MeterOk s) (fresh : pool ∉ s.made)
    (created : pmempoolCreate s.run.world (s.run.pools pool) = .ok (w', pp')) :
    MeterOk { s.setPool w' pool pp' with made := pool :: s.made } := by
  obtain ⟨empty, noFiles, keeps, files, counter⟩ := pmempoolCreate_counted created
  obtain ⟨news, one, ring⟩ := files [] noFiles
  have here : (s.setPool w' pool pp').run.pools pool = pp' := Function.update_self _ _ _
  constructor
  case huge => exact ok.huge.of_mapped keeps rfl rfl
  case nodup => exact List.nodup_cons.mpr ⟨fresh, ok.nodup⟩
  case files =>
    refine List.forall_mem_cons.mpr ⟨⟨_, here ▸ ring⟩, fun other inMade => ?_⟩
    have different : other ≠ pool := by
      rintro rfl
      exact fresh inMade
    rw [MeteredRun.setPool_other different]
    exact ok.files other inMade
  case pmemConsmp =>
    have known := ok.pmemConsmp
    have counted := counter (by omega)
    have after : MeteredRun.mappings { s.setPool w' pool pp' with made := pool :: s.made } =
        1 + s.mappings := by
      rw [MeteredRun.mappings, List.map_cons, List.sum_cons, here, ring.mappings_eq,
        MeteredRun.mappings_others fresh, List.append_nil, one, MeteredRun.mappings]
    simp only [MeteredRun.inUse, after] at known ⊢
    change w'.pmemConsmp = (pmempoolSize * (1 + s.mappings) +
      (s.run.live.map HugeBlock.size).sum) % 2 ^ 32
    rw [Nat.mul_add]
    omega

/-- The calls of `huge.c` and the frames of calls leave the pools. -/
theorem HugeRun.frameStep_pools {t t' : HugeRun} {op : FrameOp}
    (stepped : t.frameStep op = .ok t') (noPool : ∀ pool, op ≠ .call (.createOne pool)) :
    t'.pools = t.pools := by
  cases op with
  | overlay node record =>
      cases stepped
      rfl
  | call op =>
      simp only [HugeRun.frameStep] at stepped
      unfold HugeRun.step at stepped
      split at stepped
      · split at stepped
        · obtain ⟨_, _, finished⟩ := bind_eq_ok.mp stepped
          cases finished
          rfl
        · cases stepped
      · split at stepped
        · cases stepped
        · obtain ⟨_, _, stepped⟩ := bind_eq_ok.mp stepped
          obtain ⟨_, _, finished⟩ := bind_eq_ok.mp stepped
          cases finished
          rfl
      · exact absurd rfl (noPool _)

/-- They count the size of a new block, and discount that of a block that is given back. -/
theorem HugeOk.frameStep_consmp {t t' : HugeRun} {op : FrameOp} (ok : HugeOk t)
    (stepped : t.frameStep op = .ok t') (noPool : ∀ pool, op ≠ .call (.createOne pool)) :
    (t'.world.pmemConsmp + (t.live.map HugeBlock.size).sum) % 2 ^ 32 =
        (t.world.pmemConsmp + (t'.live.map HugeBlock.size).sum) % 2 ^ 32 ∧
      (t.world.pmemConsmp < 2 ^ 32 → t'.world.pmemConsmp < 2 ^ 32) := by
  cases op with
  | overlay node record =>
      cases stepped
      exact ⟨rfl, id⟩
  | call op =>
      cases op with
      | createOne pool => exact absurd rfl (noPool pool)
      | malloc node size =>
          obtain ⟨_, ret, allocated, live, _⟩ := HugeRun.step_malloc stepped
          rw [allocated.pmemConsmp, live, List.map_cons, List.sum_cons]
          simp only
          omega
      | dalloc ptr =>
          obtain ⟨b, node, outstanding, rfl, freed, live, _⟩ := HugeRun.step_dalloc stepped
          obtain rfl : node = b.node := by
            have both := freed.found.symm.trans (ok.search outstanding)
            simpa using both
          have split : t.live.Perm (b :: t.live.erase b) := List.perm_cons_erase outstanding
          have total := (split.map HugeBlock.size).sum_nat
          rw [List.map_cons, List.sum_cons] at total
          rw [freed.pmemConsmp, ok.size b outstanding, live, total]
          omega

/-- A call of `huge.c`. -/
theorem MeterOk.frame (ok : MeterOk s) (op : FrameOp)
    (noPool : ∀ pool, op ≠ .call (.createOne pool)) (clear : s.run.Clear op) (stepped : s.frame op = .ok s') : MeterOk s' := by
  obtain ⟨run, called, finished⟩ := bind_eq_ok.mp stepped
  cases finished
  have pools := HugeRun.frameStep_pools called noPool
  have known := ok.pmemConsmp
  obtain ⟨counter, word⟩ := ok.huge.frameStep_consmp called noPool
  have still := word (by omega)
  constructor
  case huge => exact ok.huge.frameStep clear called
  case nodup => exact ok.nodup
  case files => simpa only [pools] using ok.files
  case pmemConsmp =>
    simp only [MeteredRun.inUse, MeteredRun.mappings, pools] at known ⊢
    omega

/-- Every call keeps the counter. -/
theorem MeterOk.step (ok : MeterOk s) (clear : s.Clear op) (stepped : s.step op = .ok s') :
    MeterOk s' := by
  cases op with
  | create pool =>
      simp only [MeteredRun.step] at stepped
      split at stepped
      · cases stepped
      · rename_i fresh
        obtain ⟨⟨world, pp⟩, created, finished⟩ := bind_eq_ok.mp stepped
        cases finished
        exact ok.create fresh created
  | chunkAlloc pool =>
      simp only [MeteredRun.step] at stepped
      split at stepped
      · rename_i member
        obtain ⟨⟨_, world, pp⟩, allocated, finished⟩ := bind_eq_ok.mp stepped
        cases finished
        obtain ⟨_, counted⟩ := pmempoolChunkAlloc_counted allocated
        exact ok.setPool member counted
      · cases stepped
  | chunkFree pool ptr =>
      simp only [MeteredRun.step] at stepped
      split at stepped
      · rename_i member
        cases stepped
        exact ok.setPool member (pmempoolFree_counted _ _ _)
      · cases stepped
  | malloc node size => exact ok.frame (.call (.malloc node size)) (by simp) clear stepped
  | dalloc ptr => exact ok.frame (.call (.dalloc ptr)) (by simp) trivial stepped
  | overlay node record => exact ok.frame (.overlay node record) (by simp) clear stepped

/-- **The counter is the bytes in use exactly while these are below `2 ^ 32`.** In every state
of every run that starts with a counter of `0` and whose frames leave the records of the
outstanding blocks, it is the bytes in use modulo `2 ^ 32`. -/
theorem meteredRun_exact_iff {w : World} {huge : HugeMap} {pools : Nat → Pmempool}
    {ops : List MeterOp} {s : MeteredRun} (loaded : w.pmemConsmp = 0)
    (clear : Meets MeteredRun.step MeteredRun.Clear (.booted w huge pools) ops)
    (reached : run MeteredRun.step (.booted w huge pools) ops = .ok s) :
    s.run.world.pmemConsmp = s.inUse % 2 ^ 32 ∧
      (s.run.world.pmemConsmp = s.inUse ↔ s.inUse < 2 ^ 32) := by
  have ok : MeterOk s := run_invariant_of_meets
    (fun _ _ _ ok clear stepped => ok.step clear stepped) (.booted w huge pools loaded) clear
    reached
  refine ⟨ok.pmemConsmp, ?_⟩
  rw [ok.pmemConsmp]
  exact Nat.mod_eq_iff_lt (by decide)

/-- Two pools, one of which serves a chunk and takes it back, and two huge blocks, one of which is
given back. -/
def MeterOp.mixed : List MeterOp :=
  [.create 0, .chunkAlloc 0, .malloc 100 (chunksize + 1), .create 1, .overlay 300 ⟨0, 0, 0⟩,
    .malloc 200 (3 * chunksize), .dalloc (64 * chunksize), .chunkFree 0 chunksize]

theorem meteredRun_exact_iff_of_mixed :
    ∃ s, run MeteredRun.step
        (.booted (.fresh [chunksize, 64 * chunksize, 128 * chunksize, 256 * chunksize] []) .zeroed
          fun _ => .zeroed) MeterOp.mixed = .ok s ∧
      s.run.world.pmemConsmp = s.inUse % 2 ^ 32 ∧
      (s.run.world.pmemConsmp = s.inUse ↔ s.inUse < 2 ^ 32) := by
  obtain ⟨s, reached⟩ : ∃ s, run MeteredRun.step
      (.booted (.fresh [chunksize, 64 * chunksize, 128 * chunksize, 256 * chunksize] []) .zeroed
        fun _ => .zeroed) MeterOp.mixed = .ok s := exists_eq_ok (by decide +kernel)
  exact ⟨s, reached, meteredRun_exact_iff rfl (by decide +kernel) reached⟩

/-- A block of 4 GiB is not counted at all. -/
theorem not_meteredRun_exact :
    ∃ s, run MeteredRun.step (.booted (.fresh [chunksize] []) .zeroed fun _ => .zeroed)
        [.malloc 100 (2 ^ 32)] = .ok s ∧
      s.run.live.map HugeBlock.size = [2 ^ 32] ∧ s.run.world.pmemConsmp = 0 ∧
      s.run.world.pmemConsmp ≠ s.inUse := by
  exact exists_eq_ok_and (by decide +kernel)

end Lsmalloc
