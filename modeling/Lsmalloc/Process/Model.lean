import Lsmalloc.Arena.Model
import Lsmalloc.Huge.Model

/-!
# The allocator of `lsmalloc.c`

A process starts without arenas, and its first request initialises the allocator. A
thread is given an arena when it first allocates, and keeps it. Requests up to
`arena_maxlarge` go to the arena of the thread, larger ones to `huge_malloc`, which
needs a tree that nothing initialises.
-/

namespace Lsmalloc

/-- The allocator's global state. -/
structure Process where
  heap : Heap
  /-- `malloc_initialized`. -/
  mallocInitialized : Bool
  /-- The `arenas` array; `none` is `NULL`. -/
  arenas : Nat → Option Arena
  narenasAuto : Nat
  /-- `arenas_tsd` of each thread: the index of its arena. -/
  arenasTsd : Nat → Option Nat
  hugeTree : HugeMap
  /-- The bytes `malloc` returns for the `arena_t` of an index. -/
  garbage : Nat → Arena
  /-- What `sysconf(_SC_NPROCESSORS_ONLN)` answers. -/
  nprocessors : Int
  /-- Whether `threadpool_create(THREAD, QUEUE, 0)` returns a pool. -/
  threadpool : Bool

/-- A process whose globals are as it was loaded, where `threadpool_create` returns a pool. The
library in `lib/` returns `NULL`, as `THREAD` is more than its `MAX_THREADS`. -/
def Process.loaded (heap : Heap) (garbage : Nat → Arena) (nprocessors : Int) : Process where
  heap := heap
  mallocInitialized := false
  arenas := fun _ => none
  narenasAuto := 0
  arenasTsd := fun _ => none
  hugeTree := .zeroed
  garbage := garbage
  nprocessors := nprocessors
  threadpool := true

/-! ## Arenas -/

/-- Follow `arenas[ind]`. -/
def Process.arena (p : Process) (ind : Nat) : Except Fault Arena :=
  match p.arenas ind with
  | none => .error .null
  | some arena => .ok arena

theorem Process.arena_eq_ok {p : Process} {ind : Nat} {arena : Arena}
    (present : p.arenas ind = some arena) : p.arena ind = .ok arena := by
  rw [Process.arena, present]

theorem Process.arenas_eq_some {p : Process} {ind : Nat} {arena : Arena}
    (read : p.arena ind = .ok arena) : p.arenas ind = some arena := by
  unfold Process.arena at read
  split at read
  · cases read
  · rename_i there
    cases read
    exact there

/-- Write the fields of an arena that has been followed. -/
def Process.putArena (p : Process) (ind : Nat) (arena : Arena) : Process :=
  { p with arenas := Function.update p.arenas ind (some arena) }

theorem Process.putArena_self (p : Process) (ind : Nat) (arena : Arena) :
    (p.putArena ind arena).arenas ind = some arena := Function.update_self ..

theorem Process.putArena_other (p : Process) {ind other : Nat} (arena : Arena)
    (different : other ≠ ind) : (p.putArena ind arena).arenas other = p.arenas other :=
  Function.update_of_ne different ..

/-- `arenas_extend`. -/
def arenasExtend (p : Process) (ind : Nat) : Except Fault Process := do
  let (heap, arena) ← arenaNew p.heap (p.garbage ind) ind
  .ok { p.putArena ind arena with heap := heap }

/-- One round of the loop of `choose_arena_hard`, on `choose` and `first_null`. -/
def chooseRound (p : Process) (found : Nat × Nat) (i : Nat) : Nat × Nat :=
  match p.arenas i with
  | some arena =>
      if arena.nthreads < ((p.arenas found.1).map Arena.nthreads).getD 0 then (i, found.2) else found
  | none => if found.2 = p.narenasAuto then (found.1, i) else found

/-- `++ret->nthreads` and `arenas_tsd_set`, which end `choose_arena_hard`. -/
def assignArena (p : Process) (thread ind : Nat) : Except Fault (Nat × Process) := do
  let arena ← p.arena ind
  .ok (ind, { p.putArena ind { arena with nthreads := (arena.nthreads + 1) % 2 ^ 32 } with
    arenasTsd := Function.update p.arenasTsd thread (some ind) })

/-- `choose_arena_hard`: the index of the least loaded arena, or of a new one. -/
def chooseArenaHard (p : Process) (thread : Nat) : Except Fault (Nat × Process) :=
  if p.narenasAuto > 1 then
    match p.arenas 0 with
    | none => .error .abort
    | some _ =>
        let (choose, firstNull) := (List.range' 1 (p.narenasAuto - 1)).foldl (chooseRound p)
          (0, p.narenasAuto)
        if ((p.arenas choose).map Arena.nthreads).getD 0 = 0 ∨ firstNull = p.narenasAuto then
          assignArena p thread choose
        else do
          let p ← arenasExtend p firstNull
          assignArena p thread firstNull
  else assignArena p thread 0

/-- `choose_arena(NULL)`. -/
def chooseArena (p : Process) (thread : Nat) : Except Fault (Nat × Process) :=
  match p.arenasTsd thread with
  | some ind => .ok (ind, p)
  | none => chooseArenaHard p thread

/-! ## Initialisation -/

/-- `malloc_ncpus`. -/
def mallocNcpus (result : Int) : Nat := if result = -1 then 1 else (result % 2 ^ 32).toNat

/-- `opt_narenas`, as `malloc_init_hard` sets it. -/
def optNarenas (p : Process) : Nat :=
  if mallocNcpus p.nprocessors > 1 then mallocNcpus p.nprocessors <<< 2 % 2 ^ 32 else 1

/-- `malloc_init_hard`, with `opt_narenas` zero. It boots the chunk and arena constants,
makes the first arena and the pool of threads, and calls no `huge_boot`. -/
def mallocInitHard (p : Process) : Except Fault Process :=
  if p.mallocInitialized = true then .ok p
  else do
    let p ← arenasExtend { p with narenasAuto := 1, arenas := fun _ => none } 0
    if p.threadpool = true then
      .ok { p with narenasAuto := optNarenas p, mallocInitialized := true }
    else .error .abort

/-- `malloc_init_hard` made its arena and got its pool of threads. -/
theorem mallocInitHard_effect {p p' : Process} (unset : p.mallocInitialized = false)
    (started : mallocInitHard p = .ok p') :
    ∃ p₁, arenasExtend { p with narenasAuto := 1, arenas := fun _ => none } 0 = .ok p₁ ∧
      p₁.threadpool = true ∧
      p' = { p₁ with narenasAuto := optNarenas p₁, mallocInitialized := true } := by
  have notYet : ¬ p.mallocInitialized = true := by rw [unset]; simp
  rw [mallocInitHard, if_neg notYet] at started
  obtain ⟨p₁, extended, started⟩ := Execution.bind_eq_ok.mp started
  split at started
  · rename_i pool
    exact ⟨p₁, extended, pool, (Except.ok.inj started).symm⟩
  · cases started

/-! ## Requests -/

/-- `arena_malloc` on the arena of the thread. Every thread's `lid` is zero, as
`lthread_cnt` never changes. -/
def threadMalloc (p : Process) (thread size ptr : Nat) : Except Fault (Nat × Process) := do
  let (ind, p) ← chooseArena p thread
  let arena ← p.arena ind
  let (ret, heap, arena) ← arenaMalloc p.heap arena size ptr 0
  .ok (ret, { p.putArena ind arena with heap := heap })

/-- `imalloct(size, NULL, ptr)`, with `node` the address of `huge_malloc`'s local variable. -/
def imalloct (p : Process) (thread size ptr node : Nat) : Except Fault (Nat × Process) :=
  if size ≤ arenaMaxlarge then threadMalloc p thread size ptr
  else do
    let (ret, w, huge) ← hugeMalloc p.heap.toWorld p.hugeTree node size
    .ok (ret, { p with heap := { p.heap with toWorld := w }, hugeTree := huge })

/-- The size `lsmalloc` asks `imalloc` for. -/
def requestSize (size : Nat) : Nat := if size = 0 then 1 else size

/-- `lsmalloc`. -/
def lsmalloc (p : Process) (thread size ptr node : Nat) : Except Fault (Nat × Process) := do
  let p ← (if p.mallocInitialized = false then mallocInitHard p else .ok p)
  imalloct p thread (requestSize size) ptr node

/-- What `idalloct` passes to `arena_dalloc` for a `chunk_t`: the base of the chunk. -/
def idalloctChunk (ptr : Nat) : Nat := chunkAddr2base ptr

/-- `idalloct`. -/
def idalloct (p : Process) (ptr : Nat) : Except Fault Process :=
  if idalloctChunk ptr ≠ ptr then do
    let heap ← arenaDalloc p.heap (idalloctChunk ptr) ptr
    .ok { p with heap := heap }
  else do
    let (w, huge) ← hugeDalloc p.heap.toWorld p.hugeTree ptr
    .ok { p with heap := { p.heap with toWorld := w }, hugeTree := huge }

/-- `lsfree`. -/
def lsfree (p : Process) (ptr : Nat) : Except Fault Process :=
  if ptr ≠ 0 then idalloct p ptr else .ok p

end Lsmalloc
