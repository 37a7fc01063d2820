import Lsmalloc.Arena.NoOverlap
import Lsmalloc.Gc.Constructors
import Lsmalloc.Gc.Headers
import Lsmalloc.Gc.Visits

/-!
# Runs on `avail_chunks`, with every header stored

The calls that change `avail_chunks`, with headers stored wherever the pool says. As long as
requests fit a chunk and the pool hands out no descriptor it was given, every header goes to
PMEM, no call fails but for the environment, and the queue keeps its shape; a worker then visits
the retired log chunks if there is at most one (`queueRun_shaped`).
-/

namespace Lsmalloc

open Execution

/-- The calls that change `avail_chunks`. -/
inductive QueueOp
  /-- `arena_malloc_large(arena, size, ptr)` by the thread `threadid`. -/
  | mallocLarge (size ptr threadid : Nat)
  /-- `gc_alloc_chunk`. -/
  | gcAllocChunk
  /-- `arena_chunk_dalloc` of a retired log chunk. -/
  | chunkDalloc (chunk : Nat)
  /-- The `ql_remove` that ends `chunk_do_slowgc`, of a retired log chunk. -/
  | unlink (chunk : Nat)
deriving DecidableEq, Repr

/-- One call. -/
def ArenaState.queueStep (s : ArenaState) : QueueOp → Except Fault ArenaState
  | .mallocLarge size ptr threadid => do
      let (_, heap, arena) ← arenaMallocLargeBy Heap.storeWord s.heap s.arena size ptr threadid
      .ok ⟨heap, arena⟩
  | .gcAllocChunk => do
      let (_, heap, arena) ← gcAllocChunkBy Heap.storeWord s.heap s.arena
      .ok ⟨heap, arena⟩
  | .chunkDalloc chunk =>
      if s.IsRetired chunk then do
        let (heap, arena) ← arenaChunkDalloc s.heap s.arena chunk
        .ok ⟨heap, arena⟩
      else .error .contract
  | .unlink chunk =>
      if s.IsRetired chunk then do
        let (first, heap) ← s.heap.availRemove s.arena.availChunks chunk
        .ok ⟨heap, { s.arena with availChunks := first }⟩
      else .error .contract

/-- An arena with its first log chunk, and the calls in order. -/
def queueRun (h : Heap) (arena : Arena) (ind : Nat) (ops : List QueueOp) :
    Except Fault ArenaState := do
  let s ← arenaBootBy Heap.storeWord h arena ind
  run ArenaState.queueStep s ops

/-- The next address of the pool, if it has one, is not that of a descriptor. -/
def ArenaState.NextIsNew (s : ArenaState) : Prop :=
  ∀ a ∈ s.arena.pool.freeAddrs.head?, ⟨a, .chunk⟩ ∉ s.heap.blocks

instance (s : ArenaState) : Decidable s.NextIsNew := by
  unfold ArenaState.NextIsNew
  infer_instance

/-- The request fits a chunk, and a call that takes a chunk from the pool is not given a
descriptor. -/
def ArenaState.Undisturbed (s : ArenaState) : QueueOp → Prop
  | .mallocLarge size _ _ => size ≤ chunksize - sizeofPchunk - sizeofPregion ∧
      ((s.heap.chunks s.arena.availChunks).availsize < regionSize size → s.NextIsNew)
  | .gcAllocChunk => s.NextIsNew
  | .chunkDalloc _ | .unlink _ => True

instance (s : ArenaState) (op : QueueOp) : Decidable (s.Undisturbed op) := by
  unfold ArenaState.Undisturbed
  split <;> infer_instance

/-! ## The pool -/

/-- Every free address is that of a chunk, or of a descriptor that was given back. -/
structure FreeSound (w : World) (pp : Pmempool) (free : List Nat) : Prop where
  ring : FreeRing pp free
  each : ∀ a ∈ free, IsChunk w a ∨ ⟨a, .chunk⟩ ∈ w.blocks

section Pool

variable {w w' : World} {pp pp' : Pmempool} {free : List Nat} {a c : Nat}

/-- What is mapped stays mapped. -/
def KeepsMaps (w w' : World) : Prop :=
  ∀ r : Span, 0 < r.len → Mapped w.maps r → Mapped w'.maps r

theorem IsChunk.mono (isChunk : IsChunk w a) (kept : KeepsMaps w w') : IsChunk w' a :=
  ⟨isChunk.isBase, kept _ (by decide : 0 < chunksize) isChunk.mapped⟩

theorem FreeSound.mono (sound : FreeSound w pp free) (kept : KeepsMaps w w')
    (old : ∀ b ∈ w.blocks, b ∈ w'.blocks) : FreeSound w' pp free where
  ring := sound.ring
  each a member := (sound.each a member).imp (fun isChunk => isChunk.mono kept) (old _)

/-- `pmempool_free` of a descriptor. -/
theorem FreeSound.give (sound : FreeSound w pp free) (isChunk : ⟨c, .chunk⟩ ∈ w.blocks) :
    FreeSound w (pmempoolFree pp c) (free ++ [c]) where
  ring := sound.ring.free (w.placed.nonnull _ isChunk)
  each a member := by
    rcases List.mem_append.mp member with old | new
    · exact sound.each a old
    · rw [List.mem_singleton.mp new]
      exact .inr isChunk

/-- The chunks of a mapping are chunks. -/
theorem isChunk_of_grows {base : Nat} (isBase : IsBase base pmempoolSize)
    (grows : Grows w w' ⟨base, pmempoolSize⟩) (member : a ∈ chunksOf base) : IsChunk w' a := by
  obtain ⟨chunkBase, within⟩ := isBase.of_mem member
  exact ⟨chunkBase, grows.mapped.mono within⟩

/-- A pool that is sound hands out a chunk, unless a descriptor is first in its queue. -/
theorem FreeSound.givesChunk (sound : FreeSound w pp free)
    (next : ∀ a ∈ free.head?, ⟨a, .chunk⟩ ∉ w.blocks) : GivesChunk w pp := by
  intro a w' pp' allocated
  rcases pmempoolChunkAlloc_spec sound.ring allocated with
    ⟨rest, rfl, _, rfl, _⟩ | ⟨base, rest, _, chunks, _, isBase, grows, _⟩
  · exact (sound.each a List.mem_cons_self).resolve_right (next a rfl)
  · exact isChunk_of_grows isBase grows (by rw [chunks]; exact List.mem_cons_self)

/-- It stays sound, and what was mapped stays mapped. -/
theorem FreeSound.take (sound : FreeSound w pp free)
    (allocated : pmempoolChunkAlloc w pp = .ok (a, w', pp')) :
    (∃ free', FreeSound w' pp' free') ∧ KeepsMaps w w' := by
  rcases pmempoolChunkAlloc_spec sound.ring allocated with
    ⟨rest, rfl, ring, rfl, _⟩ | ⟨base, rest, _, chunks, ring, isBase, grows, _⟩
  · exact ⟨⟨rest, ring, fun b member => sound.each b (List.mem_cons_of_mem _ member)⟩,
      fun _ _ mapped => mapped⟩
  · refine ⟨⟨rest, ring, fun b member => ?_⟩, fun r long mapped => (grows.keeps r long mapped).1⟩
    refine .inl (isChunk_of_grows isBase grows ?_)
    rw [chunks]
    exact List.mem_cons_of_mem _ member

end Pool

/-! ## The invariant -/

/-- The queue has its shape, no chunk on it is claimed, regions can be appended to its head, and
the pool is sound. -/
structure QueueOk (s : ArenaState) (head : Nat) (retired gcs : List Nat) : Prop where
  shape : Shape s.heap s.arena head retired gcs
  unclaimed : ∀ c ∈ s.heap.availList s.arena.availChunks, (s.heap.chunks c).gcing = false
  room : ∃ rs, Appendable s.heap s.arena.availChunks rs
  pool : ∃ free, FreeSound s.heap.toWorld s.arena.pool free

variable {s s' : ArenaState} {h h' : Heap} {arena arena' : Arena}
  {head c region size ptr threadid : Nat} {retired gcs : List Nat}

theorem QueueOk.isChunk (ok : QueueOk s head retired gcs) :
    ∀ c ∈ head :: (retired ++ gcs), ⟨c, .chunk⟩ ∈ s.heap.blocks := ok.shape.queue.isChunk

/-- No retired log chunk is claimed. -/
theorem QueueOk.unclaimed_retired (ok : QueueOk s head retired gcs) :
    ∀ c ∈ retired, (s.heap.chunks c).gcing = false := by
  intro c member
  apply ok.unclaimed
  rw [ok.shape.queue.availList_eq]
  exact List.mem_cons_of_mem _ (List.mem_append_left _ member)

/-- The pool hands out a chunk where the condition says that no descriptor is next. -/
theorem QueueOk.givesChunk (ok : QueueOk s head retired gcs) (next : s.NextIsNew) :
    GivesChunk s.heap.toWorld s.arena.pool := by
  obtain ⟨free, sound⟩ := ok.pool
  refine sound.givesChunk ?_
  rw [← sound.ring.freeAddrs_eq]
  exact next

/-- A new chunk of a pool has its room and no regions. -/
theorem Appendable.of_allocated {addr : Nat}
    (allocated : ChunkAllocated h h' arena arena' .log c addr)
    (gives : GivesChunk h.toWorld arena.pool) :
    Appendable h' c [] ∧ (h'.chunks c).availsize = chunksize - 8 := by
  obtain ⟨w, taken, new⟩ := allocated.pool
  obtain ⟨garbage, chunks, empty⟩ := allocated.chunks
  have isChunk := gives addr w _ taken
  obtain ⟨bumped, room⟩ := newChunk_bumped isChunk.isBase garbage arena.ind .log true
  have self : h'.chunks c = newChunk garbage addr arena.ind .log true := by
    rw [chunks, Function.update_self]
  refine ⟨⟨?_, ?_, by simp, ?_, ?_⟩, ?_⟩
  · rw [new.blocks]
    exact List.mem_cons_self
  · rw [self]
    change IsQl h'.regionsLink garbage.regions []
    rw [empty rfl]
    exact isQl_nil _
  · rw [self]
    exact bumped
  · rw [self, new.maps]
    exact isChunk.mapped
  · rw [self]
    exact congrArg Span.len room

/-! ## Large requests -/

/-- The request leaves room for the headers, so what is reserved for it is no less than a header
and fits a chunk. -/
theorem regionSize_bounds (fits : size ≤ chunksize - sizeofPchunk - sizeofPregion) :
    sizeofPregion ≤ regionSize size ∧ regionSize size ≤ chunksize - 8 := by
  have headers : sizeofPchunk = 8 ∧ sizeofPregion = 8 := ⟨rfl, rfl⟩
  rw [headers.1, headers.2] at fits
  have large : arenaMaxlarge = chunksize := rfl
  rw [headers.2, regionSize_eq (by omega)]
  rw [chunksize_eq] at *
  omega

/-- The head of the queue is a log chunk, so a new chunk is needed when the room is. -/
theorem QueueOk.head_eq (ok : QueueOk s head retired gcs) :
    s.arena.availChunks = head ∧ (s.heap.chunks head).chunktype = .log :=
  ⟨ok.shape.queue.availChunks_eq, ok.shape.logs head List.mem_cons_self⟩

/-- Once the region has its descriptor, the pool still hands out a chunk. -/
theorem QueueOk.givesChunk_of_new {w : World} (ok : QueueOk s head retired gcs)
    (new : NewBlock s.heap.toWorld w .region region) (next : s.NextIsNew) :
    GivesChunk w s.arena.pool := by
  obtain ⟨free, sound⟩ := ok.pool
  have kept : KeepsMaps s.heap.toWorld w := by
    intro r _ mapped
    rwa [new.maps]
  have still : FreeSound w s.arena.pool free := by
    refine sound.mono kept fun b member => ?_
    rw [new.blocks]
    exact List.mem_cons_of_mem _ member
  refine still.givesChunk fun a isNext listed => ?_
  rw [new.blocks, List.mem_cons] at listed
  rw [← sound.ring.freeAddrs_eq] at isNext
  exact next a isNext (listed.resolve_left (by simp))

/-- `arena_region_alloc` finds a chunk that it can append to. -/
theorem QueueOk.regionChunk {w : World} (ok : QueueOk s head retired gcs)
    (new : NewBlock s.heap.toWorld w .region region)
    (undisturbed : s.Undisturbed (.mallocLarge size ptr threadid))
    (chosen : Lsmalloc.regionChunk { s.heap with toWorld := w } s.arena (regionSize size) =
      .ok (c, h', arena')) :
    (∃ rs, Appendable h' c rs ∧ region ∉ rs) ∧ regionSize size ≤ (h'.chunks c).availsize ∧
      ⟨region, .region⟩ ∈ h'.blocks ∧ arena'.availChunks = c ∧
      ∃ free, FreeSound h'.toWorld arena'.pool free := by
  obtain ⟨fits, next⟩ := undisturbed
  obtain ⟨rs, room⟩ := ok.room
  obtain ⟨free, sound⟩ := ok.pool
  obtain ⟨kept, absent⟩ := room.newRegion new
  have isRegion : ⟨region, .region⟩ ∈ w.blocks := by
    rw [new.blocks]
    exact List.mem_cons_self
  have still : FreeSound w s.arena.pool free := by
    refine sound.mono (fun r _ mapped => by rwa [new.maps]) fun b member => ?_
    rw [new.blocks]
    exact List.mem_cons_of_mem _ member
  rcases regionChunk_effect chosen with
    ⟨rfl, rfl, rfl, _, _, enough, _⟩ | ⟨_, lacks, addr, effect⟩
  · exact ⟨⟨rs, kept, absent⟩, enough, isRegion, rfl, free, still⟩
  · obtain ⟨first, log⟩ := ok.head_eq
    have short : (s.heap.chunks s.arena.availChunks).availsize < regionSize size := by
      refine lacks.resolve_right fun other => other ?_
      rw [first]
      exact log
    have gives := ok.givesChunk_of_new new (next short)
    obtain ⟨appendable, avail⟩ := Appendable.of_allocated effect gives
    refine ⟨⟨[], appendable, List.not_mem_nil⟩, ?_, ?_, ?_, ?_⟩
    · rw [avail]
      exact (regionSize_bounds fits).2
    · exact (effect.mem_blocks (by simp)).mpr isRegion
    · rw [(effect.log rfl).2.2]
      rfl
    · obtain ⟨w', taken, newChunk⟩ := effect.pool
      obtain ⟨⟨free', sound'⟩, _⟩ := still.take taken
      refine ⟨free', sound'.mono (fun r _ mapped => by rwa [newChunk.maps]) fun b member => ?_⟩
      rw [newChunk.blocks]
      exact List.mem_cons_of_mem _ member

/-- The header of a region goes to PMEM. -/
theorem Appendable.header {rs : List Nat} (appendable : Appendable h c rs)
    (header : sizeofPregion ≤ size) (fits : size ≤ (h.chunks c).availsize) :
    Mapped h.maps ⟨(h.chunks c).tail, sizeofPregion⟩ := by
  have headed := appendable.bumped.headed
  have ends := appendable.bumped.ends
  refine appendable.mapped.mono ?_
  rw [chunkSpan, Span.within_mk]
  omega

/-- Every header of an undisturbed request goes to PMEM. -/
theorem QueueOk.mallocLarge_eq (ok : QueueOk s head retired gcs)
    (undisturbed : s.Undisturbed (.mallocLarge size ptr threadid)) :
    arenaMallocLargeBy Heap.storeWord s.heap s.arena size ptr threadid =
      arenaMallocLarge s.heap s.arena size ptr threadid := by
  refine bind_congr_ok ?_
  rintro ⟨region, w⟩ allocated
  have new := malloc_newBlock allocated
  have chosen : regionChunkBy Heap.storeWord { s.heap with toWorld := w } s.arena
      (regionSize size) =
        Lsmalloc.regionChunk { s.heap with toWorld := w } s.arena (regionSize size) := by
    refine bind_congr_ok fun lacks tested => ?_
    cases lacks with
    | false => rfl
    | true =>
        refine bind_congr_ok fun chunk read => ?_
        obtain ⟨⟨nonnull, _⟩, rfl⟩ := getChunk_eq_ok.mp read
        obtain ⟨first, log⟩ := ok.head_eq
        have short : (s.heap.chunks s.arena.availChunks).availsize < regionSize size := by
          refine ((chunkLacks_eq_true tested).resolve_left nonnull).resolve_right ?_
          refine fun other => other ?_
          rw [first]
          exact log
        exact arenaChunkAllocBy_storeWord (ok.givesChunk_of_new new (undisturbed.2 short)) .log
  dsimp only
  rw [chosen]
  refine bind_congr_ok ?_
  rintro ⟨c, h₁, arena₁⟩ taken
  obtain ⟨⟨rs, appendable, _⟩, fits, _⟩ := ok.regionChunk new undisturbed taken
  have header := appendable.header (regionSize_bounds undisturbed.1).1 fits
  dsimp only
  rw [placeRegionBy_storeWord header]

/-- No chunk on the queue is claimed by a request. -/
theorem LiveHead.unclaimed_mallocLarge {rest : List Nat} {ret : Nat} (inv : LiveHead h arena head rest)
    (unclaimed : ∀ c ∈ h.availList arena.availChunks, (h.chunks c).gcing = false)
    (allocated : arenaMallocLarge h arena size ptr threadid = .ok (ret, h', arena')) :
    ∀ c ∈ h'.availList arena'.availChunks, (h'.chunks c).gcing = false := by
  rw [inv.availList_eq] at unclaimed
  rcases inv.mallocLarge allocated with ⟨queue, same⟩ | ⟨d, queue, replaced⟩
  · rw [queue.availList_eq]
    exact fun c member => (Chunk.marks_eq (same.marks c)).2.2.trans (unclaimed c member)
  · rw [queue.availList_eq]
    intro c member
    rcases List.mem_cons.mp member with rfl | old
    · exact congrArg Marks.gcing replaced.marks
    · by_cases atHead : c = head
      · subst atHead
        exact (congrArg Marks.gcing replaced.retired).trans (unclaimed c List.mem_cons_self)
      · have notNew : c ≠ d := by
          rintro rfl
          exact inv.not_mem replaced.fresh old
        exact (Chunk.marks_eq (replaced.others c notNew atHead)).2.2.trans (unclaimed c old)

/-- An undisturbed request keeps the invariant. -/
theorem QueueOk.mallocLarge {ret : Nat} (ok : QueueOk s head retired gcs)
    (undisturbed : s.Undisturbed (.mallocLarge size ptr threadid))
    (allocated : arenaMallocLarge s.heap s.arena size ptr threadid = .ok (ret, h', arena')) :
    ∃ head' retired', QueueOk ⟨h', arena'⟩ head' retired' gcs := by
  obtain ⟨head', retired', shape⟩ := ok.shape.mallocLarge allocated
  have unclaimed := ok.shape.queue.unclaimed_mallocLarge ok.unclaimed allocated
  obtain ⟨region, w, c, h₁, new, chosen, placed, _⟩ := arenaRegionAlloc_effect allocated
  obtain ⟨⟨rs, appendable, absent⟩, fits, isRegion, first, free, sound⟩ :=
    ok.regionChunk new undisturbed chosen
  refine ⟨head', retired', shape, unclaimed, ⟨rs ++ [region], ?_⟩, free, ?_⟩
  · change Appendable h' arena'.availChunks _
    rw [first]
    exact (appendable.place absent isRegion fits placed).1
  · change FreeSound h'.toWorld _ _
    rw [placed.world]
    exact sound

/-- It fails for the environment only. -/
theorem QueueOk.mallocLarge_failsOnly (ok : QueueOk s head retired gcs)
    (undisturbed : s.Undisturbed (.mallocLarge size ptr threadid)) :
    FailsOnly Fault.FromEnvironment (arenaMallocLarge s.heap s.arena size ptr threadid) := by
  refine (malloc_failsOnly _ _).bind ?_
  rintro ⟨region, w⟩ allocated
  have new := malloc_newBlock allocated
  obtain ⟨first, log⟩ := ok.head_eq
  have old : ∀ c ∈ head :: (retired ++ gcs), ⟨c, .chunk⟩ ∈ w.blocks := by
    intro c member
    rw [new.blocks]
    exact List.mem_cons_of_mem _ (ok.isChunk c member)
  have here : ⟨s.arena.availChunks, .chunk⟩ ∈ w.blocks := by
    rw [first]
    exact old head List.mem_cons_self
  have present : s.arena.availChunks ≠ 0 := w.placed.nonnull _ here
  have read : FailsOnly Fault.FromEnvironment
      (Heap.getChunk { s.heap with toWorld := w } s.arena.availChunks) := getChunk_failsOnly here
  have chosen : FailsOnly Fault.FromEnvironment
      (Lsmalloc.regionChunk { s.heap with toWorld := w } s.arena (regionSize size)) := by
    have tested : FailsOnly Fault.FromEnvironment
        (chunkLacks { s.heap with toWorld := w } s.arena.availChunks (regionSize size) .log) := by
      rw [chunkLacks, if_neg present]
      exact read.bind fun _ _ => failsOnly_ok _
    refine tested.bind fun lacks outcome => ?_
    cases lacks with
    | false => exact failsOnly_ok _
    | true =>
        refine read.bind fun chunk got => ?_
        obtain ⟨_, rfl⟩ := getChunk_eq_ok.mp got
        have short : (s.heap.chunks s.arena.availChunks).availsize < regionSize size := by
          refine ((chunkLacks_eq_true outcome).resolve_left present).resolve_right ?_
          refine fun other => other ?_
          rw [first]
          exact log
        have gives := ok.givesChunk_of_new new (undisturbed.2 short)
        have queue : IsQl s.heap.availLink (s.arena.queueOf .log) (head :: (retired ++ gcs)) :=
          ok.shape.queue.ring
        exact gives.arenaChunkAlloc_failsOnly queue old
  refine chosen.bind ?_
  rintro ⟨c, h₁, arena₁⟩ taken
  obtain ⟨⟨rs, appendable, absent⟩, fits, _⟩ := ok.regionChunk new undisturbed taken
  have header := (regionSize_bounds undisturbed.1).1
  exact .bind (appendable.placeRegion_failsOnly absent header fits) fun _ _ => failsOnly_ok _

/-! ## The other calls -/

/-- What is appended to needs its descriptor, its list of regions and its bytes. -/
theorem Appendable.mono {rs : List Nat} (appendable : Appendable h c rs)
    (chunk : h'.chunks c = h.chunks c) (regionsLink : h'.regionsLink = h.regionsLink)
    (old : ∀ b ∈ h.blocks, b ∈ h'.blocks) (kept : KeepsMaps h.toWorld h'.toWorld) :
    Appendable h' c rs where
  isChunk := old _ appendable.isChunk
  list := by
    rw [chunk, regionsLink]
    exact appendable.list
  isRegion r member := old _ (appendable.isRegion r member)
  bumped := by
    rw [chunk]
    exact appendable.bumped
  mapped := by
    rw [chunk]
    exact kept _ (by decide : 0 < chunksize) appendable.mapped

/-- An undisturbed `gc_alloc_chunk` keeps the invariant. -/
theorem QueueOk.gcAlloc (ok : QueueOk s head retired gcs)
    (allocated : gcAllocChunk s.heap s.arena = .ok (c, h', arena')) :
    QueueOk ⟨h', arena'⟩ head retired (gcs ++ [c]) := by
  have shape := ok.shape.gcAlloc allocated
  obtain ⟨_, added, _⟩ := ok.shape.queue.gcAlloc allocated
  have absent := ok.shape.queue.not_mem added.fresh
  have unclaimed := ok.unclaimed
  rw [ok.shape.queue.availList_eq] at unclaimed
  have first : arena'.availChunks = s.arena.availChunks :=
    shape.queue.availChunks_eq.trans ok.head_eq.1.symm
  obtain ⟨addr, h₁, arena₁, created, _, rfl, rfl⟩ := gcAllocChunk_effect allocated
  obtain ⟨w, taken, new⟩ := created.pool
  obtain ⟨free, sound⟩ := ok.pool
  obtain ⟨⟨free', sound'⟩, kept⟩ := sound.take taken
  have kept' : KeepsMaps s.heap.toWorld h₁.toWorld := by
    intro r long mapped
    rw [new.maps]
    exact kept r long mapped
  refine ⟨shape, ?_, ?_, free', ?_⟩
  · rw [shape.queue.availList_eq]
    intro d member
    rw [← List.append_assoc, ← List.cons_append, List.mem_append, List.mem_singleton] at member
    rcases member with old | rfl
    · have other : d ≠ c := by
        rintro rfl
        exact absent old
      exact (Chunk.marks_eq (added.others d other)).2.2.trans (unclaimed d old)
    · exact congrArg Marks.gcing added.marks
  · obtain ⟨rs, room⟩ := ok.room
    refine ⟨rs, ?_⟩
    rw [first]
    refine room.mono ?_ created.regionsLink (fun b member => ?_) kept'
    · have other : s.arena.availChunks ≠ c := by
        rw [ok.head_eq.1]
        rintro rfl
        exact absent List.mem_cons_self
      change h₁.chunks s.arena.availChunks = _
      rw [created.chunks, Function.update_of_ne other]
    · change b ∈ h₁.blocks
      rw [added.blocks]
      exact List.mem_cons_of_mem _ member
  · refine sound'.mono (fun r _ mapped => ?_) fun b member => ?_
    · change Mapped h₁.maps r
      rwa [new.maps]
    · change b ∈ h₁.blocks
      rw [new.blocks]
      exact List.mem_cons_of_mem _ member

/-- Taking a retired log chunk off the queue keeps the invariant, whatever the pool then has. -/
theorem QueueOk.remove {pool : Pmempool} (ok : QueueOk s head retired gcs)
    (member : c ∈ retired) (sound : ∃ free, FreeSound s.heap.toWorld pool free) :
    QueueOk ⟨{ s.heap with availLink := (qlRemove s.heap.availLink s.arena.availChunks c).1 },
      { s.arena with
        availChunks := (qlRemove s.heap.availLink s.arena.availChunks c).2
        pool := pool }⟩ head (retired.erase c) gcs := by
  have shape : Shape
      { s.heap with availLink := (qlRemove s.heap.availLink s.arena.availChunks c).1 }
      { s.arena with
        availChunks := (qlRemove s.heap.availLink s.arena.availChunks c).2
        pool := pool } head (retired.erase c) gcs :=
    (ok.shape.remove member).of_same (SameQueue.refl _) rfl
  have unclaimed := ok.unclaimed
  rw [ok.shape.queue.availList_eq] at unclaimed
  refine ⟨shape, ?_, ?_, sound⟩
  · rw [shape.queue.availList_eq]
    intro d inLeft
    refine unclaimed d ?_
    rcases List.mem_cons.mp inLeft with rfl | behind
    · exact List.mem_cons_self
    · refine List.mem_cons_of_mem _ (List.mem_append.mpr ?_)
      exact (List.mem_append.mp behind).imp_left List.mem_of_mem_erase
  · obtain ⟨rs, room⟩ := ok.room
    refine ⟨rs, ?_⟩
    rw [shape.queue.availChunks_eq, ← ok.head_eq.1]
    exact room.mono rfl rfl (fun _ here => here) fun _ _ mapped => mapped

/-! ## Runs -/

/-- A call that is undisturbed keeps the invariant. -/
theorem QueueOk.step {op : QueueOp} (ok : QueueOk s head retired gcs)
    (undisturbed : s.Undisturbed op) (stepped : s.queueStep op = .ok s') :
    ∃ head retired gcs, QueueOk s' head retired gcs := by
  cases op with
  | mallocLarge size ptr threadid =>
      simp only [ArenaState.queueStep, ok.mallocLarge_eq undisturbed] at stepped
      obtain ⟨⟨ret, heap, arena⟩, allocated, stepped⟩ := bind_eq_ok.mp stepped
      cases stepped
      obtain ⟨head', retired', kept⟩ := ok.mallocLarge undisturbed allocated
      exact ⟨head', retired', gcs, kept⟩
  | gcAllocChunk =>
      simp only [ArenaState.queueStep, gcAllocChunkBy_storeWord (ok.givesChunk undisturbed)]
        at stepped
      obtain ⟨⟨c, heap, arena⟩, allocated, stepped⟩ := bind_eq_ok.mp stepped
      cases stepped
      exact ⟨head, retired, _, ok.gcAlloc allocated⟩
  | chunkDalloc chunk =>
      simp only [ArenaState.queueStep] at stepped
      split at stepped
      · rename_i isRetired
        obtain ⟨⟨heap, arena⟩, freed, stepped⟩ := bind_eq_ok.mp stepped
        cases stepped
        obtain ⟨_, isChunk, rfl, rfl⟩ := arenaChunkDalloc_effect freed
        obtain ⟨free, sound⟩ := ok.pool
        exact ⟨head, _, gcs,
          ok.remove (ok.shape.mem_retired isRetired) ⟨_, sound.give isChunk⟩⟩
      · cases stepped
  | unlink chunk =>
      simp only [ArenaState.queueStep] at stepped
      split at stepped
      · rename_i isRetired
        obtain ⟨⟨first, heap⟩, removed, stepped⟩ := bind_eq_ok.mp stepped
        cases stepped
        obtain ⟨_, rfl, rfl⟩ := availRemove_eq_ok.mp removed
        exact ⟨head, _, gcs, ok.remove (ok.shape.mem_retired isRetired) ok.pool⟩
      · cases stepped

/-- `ql_remove` of a retired log chunk gets through. -/
theorem QueueOk.availRemove_failsOnly (ok : QueueOk s head retired gcs) (isRetired : s.IsRetired c) :
    FailsOnly Fault.FromEnvironment (s.heap.availRemove s.arena.availChunks c) := by
  have member : c ∈ head :: (retired ++ gcs) :=
    List.mem_cons_of_mem _ (List.mem_append_left _ (ok.shape.mem_retired isRetired))
  refine .of_eq_ok (availRemove_eq_ok.mpr ⟨fun n isNode => ?_, rfl, rfl⟩)
  have inQueue := ok.shape.queue.ring.mem_of_qlRemoveNodes member isNode
  exact ⟨ok.shape.queue.ring.nonnull n inQueue, ok.isChunk n inQueue⟩

/-- A call that is undisturbed fails for the environment only. -/
theorem QueueOk.step_failsOnly {op : QueueOp} (ok : QueueOk s head retired gcs)
    (undisturbed : s.Undisturbed op) : FailsOnly Fault.FromEnvironment (s.queueStep op) := by
  have contract : FailsOnly Fault.FromEnvironment (.error .contract : Except Fault ArenaState) :=
    failsOnly_error (.inr rfl)
  cases op with
  | mallocLarge size ptr threadid =>
      simp only [ArenaState.queueStep, ok.mallocLarge_eq undisturbed]
      exact (ok.mallocLarge_failsOnly undisturbed).bind fun _ _ => failsOnly_ok _
  | gcAllocChunk =>
      have gives := ok.givesChunk undisturbed
      simp only [ArenaState.queueStep, gcAllocChunkBy_storeWord gives]
      exact (gives.gcAllocChunk_failsOnly ok.shape.queue.ring ok.isChunk).bind
        fun _ _ => failsOnly_ok _
  | chunkDalloc chunk =>
      simp only [ArenaState.queueStep]
      split
      · rename_i isRetired
        refine .bind ?_ fun _ _ => failsOnly_ok _
        exact (ok.availRemove_failsOnly isRetired).bind fun _ _ => failsOnly_ok _
      · exact contract
  | unlink chunk =>
      simp only [ArenaState.queueStep]
      split
      · rename_i isRetired
        exact (ok.availRemove_failsOnly isRetired).bind fun _ _ => failsOnly_ok _
      · exact contract

/-- A new arena is in order. -/
theorem arenaBootBy_queueOk {ind : Nat} (booted : arenaBootBy Heap.storeWord h arena ind = .ok s) :
    ∃ head, QueueOk s head [] [] := by
  obtain ⟨⟨h₁, arena₁⟩, made, booted⟩ := bind_eq_ok.mp booted
  obtain ⟨⟨d, h₂, arena₂⟩, allocated, booted⟩ := bind_eq_ok.mp booted
  cases booted
  obtain ⟨free, maps, pool, _⟩ := (arenaNew_chunks made).1.out.pool
  have gives := pool.givesChunk
  rw [arenaChunkAllocBy_storeWord gives] at allocated
  have typed : arenaBoot h arena ind = .ok ⟨⟨h₂, arena₂⟩, []⟩ :=
    bind_eq_ok.mpr ⟨(h₁, arena₁), made, bind_eq_ok.mpr ⟨(d, h₂, arena₂), allocated, rfl⟩⟩
  obtain ⟨c, shape, unclaimed⟩ := arenaBoot_shape typed
  obtain ⟨addr, effect⟩ := arenaChunkAlloc_effect allocated
  have first : arena₂.availChunks = d := by
    rw [(effect.log rfl).2.2]
    rfl
  have sound : FreeSound h₁.toWorld arena₁.pool free := by
    refine ⟨pool.ring, fun a member => .inl ?_⟩
    have inPool : a ∈ free ++ [] := List.mem_append_left _ member
    exact ⟨(pool.chunk inPool).1, pool.chunk_mapped inPool⟩
  obtain ⟨w, taken, new⟩ := effect.pool
  obtain ⟨⟨free', sound'⟩, _⟩ := sound.take taken
  refine ⟨c, shape, ?_, ⟨[], ?_⟩, free', ?_⟩
  · rw [shape.queue.availList_eq]
    intro e member
    obtain rfl : e = c := by simpa using member
    exact unclaimed
  · change Appendable h₂ arena₂.availChunks []
    rw [first]
    exact (Appendable.of_allocated effect gives).1
  · refine sound'.mono (fun r _ mapped => by rwa [new.maps]) fun b member => ?_
    rw [new.blocks]
    exact List.mem_cons_of_mem _ member

/-- The calls of the run are undisturbed, each in the state it is met in. -/
def QueueUndisturbed (h : Heap) (arena : Arena) (ind : Nat) (ops : List QueueOp) : Prop :=
  ∀ s, arenaBootBy Heap.storeWord h arena ind = .ok s →
    Meets ArenaState.queueStep ArenaState.Undisturbed s ops

theorem queueUndisturbed_of_boot {ind : Nat} {ops : List QueueOp}
    (booted : ∃ s, arenaBootBy Heap.storeWord h arena ind = .ok s ∧
      Meets ArenaState.queueStep ArenaState.Undisturbed s ops) :
    QueueUndisturbed h arena ind ops := by
  obtain ⟨s, booted, meets⟩ := booted
  intro s' booted'
  obtain rfl := Except.ok.inj (booted.symm.trans booted')
  exact meets

/-- A run that is undisturbed keeps the queue and the pool in order. -/
theorem queueRun_ok {ind : Nat} {ops : List QueueOp}
    (undisturbed : QueueUndisturbed h arena ind ops)
    (reached : queueRun h arena ind ops = .ok s) :
    ∃ head retired gcs, QueueOk s head retired gcs := by
  obtain ⟨start, booted, ran⟩ := bind_eq_ok.mp reached
  have kept : ∀ s op s', (∃ head retired gcs, QueueOk s head retired gcs) →
      s.Undisturbed op → s.queueStep op = .ok s' →
      ∃ head retired gcs, QueueOk s' head retired gcs :=
    fun _ _ _ ⟨_, _, _, ok⟩ undisturbed stepped => ok.step undisturbed stepped
  obtain ⟨head, ok⟩ := arenaBootBy_queueOk booted
  exact run_invariant_of_meets kept ⟨head, [], [], ok⟩ (undisturbed start booted) ran

/-- **The shape of the queue.** As long as requests fit a chunk and the pool hands out no
descriptor it was given, `avail_chunks` is in every state a ring that reads as one live log
chunk, the retired log chunks and the GC chunks, and no call that is undisturbed fails but for
the environment. A worker that runs alone from there visits exactly the retired log chunks if
and only if there is at most one of them. -/
theorem queueRun_shaped {ind : Nat} {ops : List QueueOp}
    (undisturbed : QueueUndisturbed h arena ind ops)
    (reached : queueRun h arena ind ops = .ok s) :
    (∀ op, s.Undisturbed op → FailsOnly Fault.FromEnvironment (s.queueStep op)) ∧
      ∃ head retired gcs, s.Shaped head retired gcs ∧
        ∀ made, gcAllocChunk s.heap s.arena = .ok made →
          ((GcRun.idle s.heap s.arena).Visits retired ↔ retired.length ≤ 1) := by
  obtain ⟨head, retired, gcs, ok⟩ := queueRun_ok undisturbed reached
  exact ⟨fun op undisturbed => ok.step_failsOnly undisturbed, head, retired, gcs, ok.shape.shaped,
    fun made allocated => visits_retired_iff ok.shape ok.unclaimed_retired allocated⟩

/-- Requests, a GC chunk and both removals, with one retired log chunk left. -/
theorem queueRun_shaped_of_removals :
    ∃ s, queueRun (.fresh [chunksize] [1024, 1200, 1264, 1328, 1488, 1552, 1712, 1872, 1936])
        .zeroed 0
        [.mallocLarge 240 0 0, .mallocLarge 4194280 0 0, .mallocLarge 4194280 0 0, .gcAllocChunk,
          .unlink 1024, .chunkDalloc 1328, .mallocLarge 64 0 0] = .ok s ∧
      (∀ op, s.Undisturbed op → FailsOnly Fault.FromEnvironment (s.queueStep op)) ∧
      ∃ head retired gcs, s.Shaped head retired gcs ∧
        ∀ made, gcAllocChunk s.heap s.arena = .ok made →
          ((GcRun.idle s.heap s.arena).Visits retired ↔ retired.length ≤ 1) := by
  have undisturbed : QueueUndisturbed
      (.fresh [chunksize] [1024, 1200, 1264, 1328, 1488, 1552, 1712, 1872, 1936]) .zeroed 0
      [.mallocLarge 240 0 0, .mallocLarge 4194280 0 0, .mallocLarge 4194280 0 0, .gcAllocChunk,
        .unlink 1024, .chunkDalloc 1328, .mallocLarge 64 0 0] :=
    queueUndisturbed_of_boot (exists_eq_ok_and (by decide +kernel))
  obtain ⟨s, ran⟩ : ∃ s, queueRun
      (.fresh [chunksize] [1024, 1200, 1264, 1328, 1488, 1552, 1712, 1872, 1936]) .zeroed 0
      [.mallocLarge 240 0 0, .mallocLarge 4194280 0 0, .mallocLarge 4194280 0 0, .gcAllocChunk,
        .unlink 1024, .chunkDalloc 1328, .mallocLarge 64 0 0] = .ok s :=
    exists_eq_ok (by decide +kernel)
  exact ⟨s, ran, queueRun_shaped undisturbed ran⟩

end Lsmalloc
