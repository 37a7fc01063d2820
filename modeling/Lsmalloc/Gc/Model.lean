import Lsmalloc.Arena.Effects

/-!
# The collector of `gc.c`

The fast collector gives a retired chunk back when its reclaim test holds; the slow
one migrates regions of a retired chunk into GC chunks and takes the chunk off
`avail_chunks`. Each call is one step here, as `arena->gc_lock` and `write_lock`
are meant to make it.
-/

namespace Lsmalloc

/-- `gc_alloc_chunk`. It sets neither `regions` nor `avail_link` before it inserts the
chunk at the tail of `avail_chunks`. -/
def gcAllocChunk (h : Heap) (arena : Arena) : Except Fault (Nat × Heap × Arena) := do
  let (chunk, h, arena) ← chunkCreate h arena .gc false
  let (first, h) ← h.availTailInsert arena.availChunks chunk
  .ok (chunk, h, { arena with availChunks := first })

/-- The reclaim test of `fastgc_scheduler` and `chunk_do_slowgc`. -/
def reclaimTest (c : Chunk) : Bool :=
  decide (c.live = false) && decide (c.chunktype = .log) &&
    decide (szAdd c.availsize c.dirtysize = szSub chunksize sizeofChunk)

/-- `arena_chunk_dalloc`. What it gives back to the pool is the descriptor. -/
def arenaChunkDalloc (h : Heap) (arena : Arena) (chunk : Nat) : Except Fault (Heap × Arena) := do
  let (first, h) ← h.availRemove arena.availChunks chunk
  .ok (h, { arena with availChunks := first, pool := pmempoolFree arena.pool chunk })

/-- `chunk_do_fastgc`. -/
def chunkDoFastgc (h : Heap) (arena : Arena) (chunk : Nat) : Except Fault (Heap × Arena) :=
  arenaChunkDalloc h arena chunk

/-- `gc_region_migration`: the new region. -/
def gcRegionMigration (h : Heap) (gcChunk oldregion : Nat) : Except Fault (Nat × Heap) := do
  let (region, w) ← malloc h.toWorld .region
  let h := { h with toWorld := w }
  let old ← h.getRegion oldregion
  let (_, h) ← placeRegion h gcChunk region old.size old.ptr old.threadid
  .ok (region, h)

/-- What the loop of `chunk_do_slowgc` carries: the heap, the arena, the GC chunk to fill,
and the migrations so far, the old region first. -/
structure Evacuation where
  heap : Heap
  arena : Arena
  gcChunk : Nat
  migrated : List (Nat × Nat)

/-- The body of the loop: a region that is `REGION_DIRTY` is migrated, into a new GC
chunk when the current one lacks the room. -/
def evacuateRegion (e : Evacuation) (region : Nat) : Except Fault Evacuation := do
  let r ← e.heap.getRegion region
  if r.attr = .dirty then do
    let gc ← e.heap.getChunk e.gcChunk
    let (gcChunk, h, arena) ← (if gc.availsize < r.size then gcAllocChunk e.heap e.arena
      else .ok (e.gcChunk, e.heap, e.arena))
    let (new, h) ← gcRegionMigration h gcChunk region
    .ok ⟨h, arena, gcChunk, e.migrated ++ [(region, new)]⟩
  else .ok e

/-- `ql_foreach(region, &chunk->regions, regions_link)` of `chunk_do_slowgc`, from `region`
on and for at most the given number of rounds. -/
def evacuateFrom (chunk : Nat) : (fuel : Nat) → Evacuation → (region : Nat) → Except Fault Evacuation
  | 0, _, _ => .error .fuel
  | fuel + 1, e, region =>
      if region = 0 then .ok e
      else do
        let e ← evacuateRegion e region
        let c ← e.heap.getChunk chunk
        let next := e.heap.regionsLink.next region
        evacuateFrom chunk fuel e (if next ≠ c.regions then next else 0)

/-- The evacuation path of `chunk_do_slowgc`: migrate, then unlink the chunk. -/
def evacuate (fuel : Nat) (h : Heap) (arena : Arena) (chunk gcChunk : Nat) :
    Except Fault Evacuation := do
  let c ← h.getChunk chunk
  let e ← evacuateFrom chunk fuel ⟨h, arena, gcChunk, []⟩ c.regions
  let (first, h) ← e.heap.availRemove e.arena.availChunks chunk
  .ok { e with heap := h, arena := { e.arena with availChunks := first } }

/-- `chunk_do_slowgc`, what it does to the heap and the arena. The function falls off its
end after an evacuation, so its value there is not defined and nothing here stands for it. -/
def chunkDoSlowgc (fuel : Nat) (h : Heap) (arena : Arena) (chunk gcChunk : Nat) :
    Except Fault (Heap × Arena) := do
  let c ← h.getChunk chunk
  if reclaimTest c = true then chunkDoFastgc h arena chunk
  else do
    let e ← evacuate fuel h arena chunk gcChunk
    .ok (e.heap, e.arena)

/-! ## What the functions do -/

variable {h h' : Heap} {arena arena' : Arena} {c : Nat}

/-- `gc_alloc_chunk`: a GC chunk, put at the tail of `avail_chunks` as its links stand. -/
theorem gcAllocChunk_effect (allocated : gcAllocChunk h arena = .ok (c, h', arena')) :
    ∃ addr h₁ arena₁, ChunkCreated h h₁ arena arena₁ .gc false c addr ∧
      (∀ n ∈ qlInsertNodes h.availLink arena.availChunks, n ≠ 0 ∧ ⟨n, .chunk⟩ ∈ h₁.blocks) ∧
      h' = { h₁ with availLink := (qlTailInsert h.availLink arena.availChunks c).1 } ∧
      arena' = { arena₁ with
        availChunks := (qlTailInsert h.availLink arena.availChunks c).2 } := by
  obtain ⟨⟨chunk, h₁, arena₁⟩, created, allocated⟩ := Execution.bind_eq_ok.mp allocated
  obtain ⟨⟨first, h₂⟩, inserted, allocated⟩ := Execution.bind_eq_ok.mp allocated
  obtain ⟨nodes, rfl, rfl⟩ := availTailInsert_eq_ok.mp inserted
  simp only [Except.ok.injEq, Prod.mk.injEq] at allocated
  obtain ⟨rfl, rfl, rfl⟩ := allocated
  obtain ⟨addr, made⟩ := chunkCreate_effect created
  have sameLink := made.availLink
  have sameFirst : arena₁.availChunks = arena.availChunks := by rw [made.others]
  rw [sameLink, sameFirst] at nodes
  exact ⟨addr, h₁, arena₁, made, nodes, by rw [sameLink, sameFirst], by rw [sameLink, sameFirst]⟩

/-- `arena_chunk_dalloc`: off `avail_chunks`, and the descriptor's address to the pool. -/
theorem arenaChunkDalloc_effect (freed : arenaChunkDalloc h arena c = .ok (h', arena')) :
    c ≠ 0 ∧ ⟨c, .chunk⟩ ∈ h.blocks ∧
      h' = { h with availLink := (qlRemove h.availLink arena.availChunks c).1 } ∧
      arena' = { arena with
        availChunks := (qlRemove h.availLink arena.availChunks c).2
        pool := pmempoolFree arena.pool c } := by
  obtain ⟨⟨first, h₁⟩, removed, freed⟩ := Execution.bind_eq_ok.mp freed
  obtain ⟨nodes, rfl, rfl⟩ := availRemove_eq_ok.mp removed
  simp only [Except.ok.injEq, Prod.mk.injEq] at freed
  obtain ⟨rfl, rfl⟩ := freed
  obtain ⟨nonnull, isChunk⟩ := nodes c (mem_qlRemoveNodes _ _ _)
  exact ⟨nonnull, isChunk, rfl, rfl⟩

/-- `gc_region_migration`: a new region on the GC chunk, with the old one's user fields. -/
theorem gcRegionMigration_effect {gcChunk oldregion region : Nat}
    (migrated : gcRegionMigration h gcChunk oldregion = .ok (region, h')) :
    ∃ w, NewBlock h.toWorld w .region region ∧
      RegionPlaced { h with toWorld := w } h' gcChunk region (h.regions oldregion).size
        (h.regions oldregion).ptr (h.regions oldregion).threadid := by
  obtain ⟨⟨new, w⟩, allocated, migrated⟩ := Execution.bind_eq_ok.mp migrated
  obtain ⟨old, read, migrated⟩ := Execution.bind_eq_ok.mp migrated
  obtain ⟨_, rfl⟩ := getRegion_eq_ok.mp read
  obtain ⟨⟨paddr, h₁⟩, placed, migrated⟩ := Execution.bind_eq_ok.mp migrated
  simp only [Except.ok.injEq, Prod.mk.injEq] at migrated
  obtain ⟨rfl, rfl⟩ := migrated
  exact ⟨w, malloc_newBlock allocated, (placeRegion_effect placed).2⟩

/-- One round of the loop: nothing for a region that is alive, a migration for a dirty one, into
a new GC chunk when it does not fit. -/
theorem evacuateRegion_cases {e e' : Evacuation} {region : Nat}
    (evacuated : evacuateRegion e region = .ok e') :
    ((e.heap.regions region).attr = .alive ∧ e' = e) ∨
      ((e.heap.regions region).attr = .dirty ∧ ∃ gcChunk h₁ arena₁ new,
        (((e.heap.regions region).size ≤ (e.heap.chunks e.gcChunk).availsize ∧ h₁ = e.heap ∧
            arena₁ = e.arena ∧ gcChunk = e.gcChunk) ∨
          ((e.heap.chunks e.gcChunk).availsize < (e.heap.regions region).size ∧
            gcAllocChunk e.heap e.arena = .ok (gcChunk, h₁, arena₁))) ∧
        gcRegionMigration h₁ gcChunk region = .ok (new, e'.heap) ∧ e'.arena = arena₁ ∧
        e'.gcChunk = gcChunk ∧ e'.migrated = e.migrated ++ [(region, new)]) := by
  obtain ⟨r, read, evacuated⟩ := Execution.bind_eq_ok.mp evacuated
  obtain ⟨_, rfl⟩ := getRegion_eq_ok.mp read
  split at evacuated
  · rename_i dirty
    obtain ⟨gc, readGc, evacuated⟩ := Execution.bind_eq_ok.mp evacuated
    obtain ⟨_, rfl⟩ := getChunk_eq_ok.mp readGc
    obtain ⟨⟨gcChunk, h₁, arena₁⟩, chosen, evacuated⟩ := Execution.bind_eq_ok.mp evacuated
    obtain ⟨⟨new, h₂⟩, migrated, evacuated⟩ := Execution.bind_eq_ok.mp evacuated
    cases evacuated
    refine .inr ⟨dirty, gcChunk, h₁, arena₁, new, ?_, migrated, rfl, rfl, rfl⟩
    split at chosen
    · rename_i lacks
      exact .inr ⟨lacks, chosen⟩
    · rename_i fits
      simp only [Except.ok.injEq, Prod.mk.injEq] at chosen
      obtain ⟨rfl, rfl, rfl⟩ := chosen
      exact .inl ⟨Nat.le_of_not_lt fits, rfl, rfl, rfl⟩
  · rename_i notDirty
    cases evacuated
    refine .inl ⟨?_, rfl⟩
    cases attr : (e.heap.regions region).attr with
    | alive => rfl
    | dirty => exact absurd attr notDirty

/-- The same, where it does not matter why the GC chunk is a new one. -/
theorem evacuateRegion_effect {e e' : Evacuation} {region : Nat}
    (evacuated : evacuateRegion e region = .ok e') :
    ((e.heap.regions region).attr = .alive ∧ e' = e) ∨
      ((e.heap.regions region).attr = .dirty ∧ ∃ gcChunk h₁ arena₁ new,
        ((h₁ = e.heap ∧ arena₁ = e.arena ∧ gcChunk = e.gcChunk) ∨
          gcAllocChunk e.heap e.arena = .ok (gcChunk, h₁, arena₁)) ∧
        gcRegionMigration h₁ gcChunk region = .ok (new, e'.heap) ∧ e'.arena = arena₁ ∧
        e'.gcChunk = gcChunk ∧ e'.migrated = e.migrated ++ [(region, new)]) := by
  rcases evacuateRegion_cases evacuated with
    alive | ⟨dirty, gcChunk, h₁, arena₁, new, chosen, rest⟩
  · exact .inl alive
  · refine .inr ⟨dirty, gcChunk, h₁, arena₁, new, ?_, rest⟩
    exact chosen.imp (fun fits => fits.2) (fun lacks => lacks.2)

/-- What every round keeps, the loop keeps. -/
theorem evacuateFrom_invariant {Inv : Evacuation → Prop} {chunk : Nat}
    (kept : ∀ e region e', Inv e → evacuateRegion e region = .ok e' → Inv e')
    {fuel region : Nat} {e e' : Evacuation} (holds : Inv e)
    (evacuated : evacuateFrom chunk fuel e region = .ok e') : Inv e' := by
  induction fuel generalizing e region with
  | zero => cases evacuated
  | succ fuel ih =>
      unfold evacuateFrom at evacuated
      split at evacuated
      · cases evacuated
        exact holds
      · obtain ⟨e₁, round, evacuated⟩ := Execution.bind_eq_ok.mp evacuated
        obtain ⟨c, _, rest⟩ := Execution.bind_eq_ok.mp evacuated
        exact ih (kept e region e₁ holds round) rest

/-- The evacuation path: the loop, and the chunk off `avail_chunks`. -/
theorem evacuate_effect {fuel gcChunk : Nat} {e : Evacuation}
    (evacuated : evacuate fuel h arena c gcChunk = .ok e) :
    ∃ e₁, evacuateFrom c fuel ⟨h, arena, gcChunk, []⟩ (h.chunks c).regions = .ok e₁ ∧
      e.heap = { e₁.heap with
        availLink := (qlRemove e₁.heap.availLink e₁.arena.availChunks c).1 } ∧
      e.arena = { e₁.arena with
        availChunks := (qlRemove e₁.heap.availLink e₁.arena.availChunks c).2 } ∧
      e.migrated = e₁.migrated := by
  obtain ⟨chunk, read, evacuated⟩ := Execution.bind_eq_ok.mp evacuated
  obtain ⟨_, rfl⟩ := getChunk_eq_ok.mp read
  obtain ⟨e₁, looped, evacuated⟩ := Execution.bind_eq_ok.mp evacuated
  obtain ⟨⟨first, h₁⟩, removed, evacuated⟩ := Execution.bind_eq_ok.mp evacuated
  obtain ⟨_, rfl, rfl⟩ := availRemove_eq_ok.mp removed
  cases evacuated
  exact ⟨e₁, looped, rfl, rfl, rfl⟩

end Lsmalloc
