import Lsmalloc.Gc.Changes

/-!
# The threads of the collector

Any number of threads run `do_slowgc` on an arena, one runs `fastgc_scheduler`, and users
call `arena_malloc_large`. A step is one section between a lock and its unlock, one test, or
one list operation of one thread; a thread that waits for a lock has no step. `write_lock` is
left out: it is held by the thread that has claimed the chunk, and by users who mark a region.
-/

namespace Lsmalloc

/-! ## State -/

/-- Where a thread is in the loop of `chunk_do_slowgc` over the regions of its chunk. -/
inductive EvacuationPc
  /-- Before `ql_first(&chunk->regions)`. -/
  | opening (gcChunk : Nat)
  /-- At `region`, or at the end of the list if it is `NULL`. -/
  | visiting (gcChunk region : Nat)
  /-- In `gc_alloc_chunk`, called because `region` does not fit. -/
  | growing (region : Nat)
  /-- In `gc_alloc_chunk`, before its `ql_tail_insert`. -/
  | linking (gcChunk region : Nat)
  /-- Before `gc_region_migration`. -/
  | migrating (gcChunk region : Nat)
deriving DecidableEq, Repr

/-- Where a thread is in `do_slowgc`, with the values of its variables. -/
inductive SlowgcPc
  | start
  /-- In `gc_alloc_chunk`, before its `ql_tail_insert`. -/
  | inserting (gcChunk : Nat)
  /-- Before the section that reads `ql_first(&arena->avail_chunks)`. -/
  | entering (gcChunk : Nat)
  /-- At the head of the loop. -/
  | looking (chunk gcChunk : Nat)
  /-- Before the section that claims the chunk. -/
  | claiming (chunk gcChunk : Nat)
  /-- At the call of `chunk_do_slowgc`. -/
  | claimed (chunk gcChunk : Nat)
  /-- Before the `ql_remove` of `arena_chunk_dalloc`. -/
  | removing (chunk : Nat)
  /-- Before the `pmempool_free` of `arena_chunk_dalloc`. -/
  | freeing (chunk : Nat)
  /-- In the loop of `chunk_do_slowgc`. -/
  | evacuating (chunk : Nat) (pc : EvacuationPc)
  /-- Before the `ql_remove` that ends `chunk_do_slowgc`. -/
  | unlinking (chunk : Nat)
  /-- Before the section that ends the body of the loop. -/
  | finishing (chunk gcChunk : Nat)
  | returned
deriving DecidableEq, Repr

/-- Where `fastgc_scheduler` is. -/
inductive FastgcPc
  | start
  /-- Before the reclaim test of the chunk. -/
  | testing (chunk : Nat)
  /-- Before the `ql_remove` of `arena_chunk_dalloc`. -/
  | removing (chunk : Nat)
  /-- Before the `pmempool_free` of `arena_chunk_dalloc`. -/
  | freeing (chunk : Nat)
  /-- Before the step of `ql_foreach`. -/
  | advancing (chunk : Nat)
  | done
deriving DecidableEq, Repr

/-- A call of `chunk_do_slowgc`, with the chunk's `live` flag at that time. -/
structure SlowgcCall where
  worker : Nat
  chunk : Nat
  live : Bool
deriving DecidableEq, Repr

/-- An arena, the threads that collect in it, and what they have done. -/
structure GcRun where
  heap : Heap
  arena : Arena
  /-- The worker that holds `arena->lock`. -/
  lock : Option Nat
  /-- The worker that holds `arena->gc_lock`. -/
  gcLock : Option Nat
  pc : Nat → SlowgcPc
  sweep : FastgcPc
  /-- The calls of `chunk_do_slowgc`, the latest first. -/
  passed : List SlowgcCall
  /-- The chunks given to `pmempool_free`, the latest first. -/
  freed : List Nat
  /-- The chunks that `fastgc_scheduler` unlinked or freed, with their `gcing` at that time. -/
  swept : List (Nat × Bool)

/-- Before the collectors start. -/
def GcRun.idle (h : Heap) (arena : Arena) : GcRun where
  heap := h
  arena := arena
  lock := none
  gcLock := none
  pc := fun _ => .start
  sweep := .start
  passed := []
  freed := []
  swept := []

/-- What the threads do. -/
inductive GcThreadOp
  /-- `arena_malloc_large(arena, size, ptr)` by the thread `threadid`. -/
  | mallocLarge (size ptr threadid : Nat)
  /-- A step of a worker. `undefined` is what it takes for the value of `chunk_do_slowgc`
  where that function returns none. -/
  | slowgc (worker undefined : Nat)
  /-- A step of `fastgc_scheduler`. -/
  | fastgc
deriving DecidableEq, Repr

/-! ## Steps -/

def GcRun.goto (s : GcRun) (worker : Nat) (pc : SlowgcPc) : GcRun :=
  { s with pc := Function.update s.pc worker pc }

/-- The step of `ql_foreach(region, &chunk->regions, regions_link)`. -/
def nextRegion (h : Heap) (chunk region : Nat) : Except Fault Nat := do
  let c ← h.getChunk chunk
  let next := h.regionsLink.next region
  .ok (if next ≠ c.regions then next else 0)

/-- A step of the loop of `chunk_do_slowgc`. -/
def GcRun.evacuationStep (s : GcRun) (worker chunk : Nat) : EvacuationPc → Except Fault GcRun
  | .opening gcChunk => do
      let c ← s.heap.getChunk chunk
      .ok (s.goto worker (.evacuating chunk (.visiting gcChunk c.regions)))
  | .visiting gcChunk region =>
      if region = 0 then .ok (s.goto worker (.unlinking chunk))
      else do
        let r ← s.heap.getRegion region
        if r.attr = .dirty then do
          let gc ← s.heap.getChunk gcChunk
          .ok (s.goto worker (.evacuating chunk
            (if gc.availsize < r.size then .growing region else .migrating gcChunk region)))
        else do
          let next ← nextRegion s.heap chunk region
          .ok (s.goto worker (.evacuating chunk (.visiting gcChunk next)))
  | .growing region => do
      let (gcChunk, h, arena) ← chunkCreate s.heap s.arena .gc false
      .ok ({ s with heap := h, arena := arena }.goto worker
        (.evacuating chunk (.linking gcChunk region)))
  | .linking gcChunk region => do
      let (first, h) ← s.heap.availTailInsert s.arena.availChunks gcChunk
      .ok ({ s with heap := h, arena := { s.arena with availChunks := first } }.goto worker
        (.evacuating chunk (.migrating gcChunk region)))
  | .migrating gcChunk region => do
      let (_, h) ← gcRegionMigration s.heap gcChunk region
      let next ← nextRegion h chunk region
      .ok ({ s with heap := h }.goto worker (.evacuating chunk (.visiting gcChunk next)))

/-- A step of `do_slowgc`. -/
def GcRun.slowgcStep (s : GcRun) (worker undefined : Nat) : Except Fault GcRun :=
  match s.pc worker with
  | .start => do
      let (gcChunk, h, arena) ← chunkCreate s.heap s.arena .gc false
      .ok ({ s with heap := h, arena := arena }.goto worker (.inserting gcChunk))
  | .inserting gcChunk => do
      let (first, h) ← s.heap.availTailInsert s.arena.availChunks gcChunk
      .ok ({ s with heap := h, arena := { s.arena with availChunks := first } }.goto worker
        (.entering gcChunk))
  | .entering gcChunk =>
      if s.lock = none ∧ s.gcLock = none then
        -- Returns with both locks held.
        if s.arena.availChunks = 0 then
          .ok ({ s with lock := some worker, gcLock := some worker }.goto worker .returned)
        else do
          let c ← s.heap.getChunk s.arena.availChunks
          let chunk := if c.live = true then
            qlNext s.heap.availLink s.arena.availChunks s.arena.availChunks
            else s.arena.availChunks
          .ok (s.goto worker (if chunk = 0 then .returned else .looking chunk gcChunk))
      else .error .contract
  | .looking chunk gcChunk => do
      let c ← s.heap.getChunk chunk
      .ok (s.goto worker (if c.chunktype = .gc then .returned else .claiming chunk gcChunk))
  | .claiming chunk gcChunk =>
      if s.gcLock = none then do
        let c ← s.heap.getChunk chunk
        if c.gcing = true then
          -- `continue`, past the unlock.
          let next := qlNext s.heap.availLink s.arena.availChunks chunk
          .ok ({ s with gcLock := some worker }.goto worker (.looking next gcChunk))
        else
          .ok ({ s with heap := s.heap.putChunk chunk { c with gcing := true } }.goto worker
            (.claimed chunk gcChunk))
      else .error .contract
  | .claimed chunk gcChunk => do
      let c ← s.heap.getChunk chunk
      .ok ({ s with passed := ⟨worker, chunk, c.live⟩ :: s.passed }.goto worker
        (if reclaimTest c = true then .removing chunk else .evacuating chunk (.opening gcChunk)))
  | .removing chunk => do
      let (first, h) ← s.heap.availRemove s.arena.availChunks chunk
      .ok ({ s with heap := h, arena := { s.arena with availChunks := first } }.goto worker
        (.freeing chunk))
  | .freeing chunk =>
      .ok ({ s with
        arena := { s.arena with pool := pmempoolFree s.arena.pool chunk }
        freed := chunk :: s.freed }.goto worker (.finishing chunk 0))
  | .evacuating chunk pc => s.evacuationStep worker chunk pc
  | .unlinking chunk => do
      let (first, h) ← s.heap.availRemove s.arena.availChunks chunk
      .ok ({ s with heap := h, arena := { s.arena with availChunks := first } }.goto worker
        (.finishing chunk undefined))
  | .finishing chunk gcChunk =>
      if s.gcLock = none then do
        let (first, h) ← s.heap.availRemove s.arena.availChunks chunk
        let next := qlNext h.availLink first chunk
        .ok ({ s with heap := h, arena := { s.arena with availChunks := first } }.goto worker
          (.looking next gcChunk))
      else .error .contract
  | .returned => .error .contract

/-- The variable of `ql_foreach` is set: the body runs unless it is `NULL`. -/
def FastgcPc.at (chunk : Nat) : FastgcPc := if chunk = 0 then .done else .testing chunk

/-- A step of `fastgc_scheduler`. -/
def GcRun.fastgcStep (s : GcRun) : Except Fault GcRun :=
  match s.sweep with
  | .start => .ok { s with sweep := .at s.arena.availChunks }
  | .testing chunk => do
      let c ← s.heap.getChunk chunk
      .ok { s with sweep := if reclaimTest c = true then .removing chunk else .advancing chunk }
  | .removing chunk => do
      let (first, h) ← s.heap.availRemove s.arena.availChunks chunk
      .ok { s with
        heap := h
        arena := { s.arena with availChunks := first }
        sweep := .freeing chunk
        swept := (chunk, (s.heap.chunks chunk).gcing) :: s.swept }
  | .freeing chunk =>
      .ok { s with
        arena := { s.arena with pool := pmempoolFree s.arena.pool chunk }
        sweep := .advancing chunk
        freed := chunk :: s.freed
        swept := (chunk, (s.heap.chunks chunk).gcing) :: s.swept }
  | .advancing chunk => do
      let _ ← s.heap.getChunk chunk
      let next := s.heap.availLink.next chunk
      .ok { s with sweep := .at (if next ≠ s.arena.availChunks then next else 0) }
  | .done => .error .contract

/-- One step of one thread. -/
def GcRun.step (s : GcRun) : GcThreadOp → Except Fault GcRun
  | .mallocLarge size ptr threadid =>
      if s.lock = none then do
        let (_, h, arena) ← arenaMallocLarge s.heap s.arena size ptr threadid
        .ok { s with heap := h, arena := arena }
      else .error .contract
  | .slowgc worker undefined => s.slowgcStep worker undefined
  | .fastgc => s.fastgcStep

end Lsmalloc
