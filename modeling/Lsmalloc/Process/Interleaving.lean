import Lsmalloc.Process.NullSafe
import Lsmalloc.Process.Threads

/-!
# Threads that interleave

Any number of threads call `lsmalloc` for the first time, choose an arena and exit, and their
accesses to what they share interleave in any order. The allocator is initialised under
`init_lock` behind a test that is made twice, and the arenas are chosen and left under
`arenas_lock`. Accesses are taken to be sequentially consistent.
-/

namespace Lsmalloc

/-- Where a thread is on its way to an arena, or out of it. -/
inductive ThreadPc
  /-- It has no arena and is in no call. -/
  | outside
  /-- `lsmalloc` is about to test `malloc_initialized`. -/
  | test
  -- `malloc_init_hard`: the lock, the second test, and the stores of its body.
  | initLock
  | initTest
  | initAuto
  | initTable
  | initExtend
  | initTsd
  | initNarenas
  | initRealTable
  | initFirst (arena : Arena)
  | initPool
  | initPublish
  | initUnlock
  /-- `choose_arena` is about to read `arenas_tsd`. -/
  | choose
  -- `choose_arena_hard`, with `arenas[ind]` given by its index.
  | chooseHard
  | lockMany (firstNull : Nat)
  | lockOne
  | scan (i choose firstNull : Nat)
  | extend (firstNull : Nat)
  | load (ind : Nat)
  | store (ind nthreads : Nat)
  | unlock (ind : Nat)
  | assign (ind : Nat)
  /-- It has an arena and is in no call. -/
  | ready
  -- `arenas_cleanup`, which the destructor of `arenas_tsd` calls.
  | cleanupLock (ind : Nat)
  | cleanupLoad (ind : Nat)
  | cleanupStore (ind nthreads : Nat)
  | cleanupUnlock
  | exited

/-- A process with its threads, and the two locks they take. -/
structure Threaded extends Process where
  initLock : Option Nat
  arenasLock : Option Nat
  /-- `arenas_booted`. -/
  arenasBooted : Bool
  pc : Nat → ThreadPc

/-- The thread whose turn it is. Between calls it may exit instead of calling `lsmalloc`. -/
structure Turn where
  thread : Nat
  exits : Bool
deriving DecidableEq, Repr

/-- No thread has called anything. -/
def Threaded.loaded (heap : Heap) (garbage : Nat → Arena) (nprocessors : Int) : Threaded where
  toProcess := .loaded heap garbage nprocessors
  initLock := none
  arenasLock := none
  arenasBooted := false
  pc := fun _ => .outside

/-- The thread goes on somewhere else. -/
def Threaded.goto (s : Threaded) (t : Nat) (pc : ThreadPc) : Threaded :=
  { s with pc := Function.update s.pc t pc }

/-- A thread that finds `init_lock` taken waits. -/
def Threaded.takeInitLock (s : Threaded) (t : Nat) : Threaded :=
  match s.initLock with
  | none => { s.goto t .initTest with initLock := some t }
  | some _ => s

/-- A thread that finds `arenas_lock` taken waits. -/
def Threaded.takeArenasLock (s : Threaded) (t : Nat) (pc : ThreadPc) : Threaded :=
  match s.arenasLock with
  | none => { s.goto t pc with arenasLock := some t }
  | some _ => s

/-- One access of a thread to what the threads share. -/
def Threaded.turn (s : Threaded) (t : Nat) (exits : Bool) : ThreadPc → Except Fault Threaded
  | .outside => .ok (s.goto t (if exits then .exited else .test))
  | .test => .ok (s.goto t (if s.mallocInitialized = false then .initLock else .choose))
  | .initLock => .ok (s.takeInitLock t)
  | .initTest => .ok (s.goto t (if s.mallocInitialized = true then .initUnlock else .initAuto))
  | .initAuto => .ok { s.goto t .initTable with narenasAuto := 1 }
  | .initTable => .ok { s.goto t .initExtend with arenas := fun _ => none }
  | .initExtend => do
      let p ← arenasExtend s.toProcess 0
      .ok { s.goto t .initTsd with toProcess := p }
  | .initTsd => .ok { s.goto t .initNarenas with arenasBooted := true }
  | .initNarenas => .ok { s.goto t .initRealTable with narenasAuto := optNarenas s.toProcess }
  | .initRealTable => do
      let first ← s.arena 0
      .ok { s.goto t (.initFirst first) with arenas := fun _ => none }
  | .initFirst first =>
      .ok { s.goto t .initPool with arenas := Function.update s.arenas 0 (some first) }
  | .initPool => if s.threadpool = true then .ok (s.goto t .initPublish) else .error .abort
  | .initPublish => .ok { s.goto t .initUnlock with mallocInitialized := true }
  | .initUnlock => .ok { s.goto t .choose with initLock := none }
  | .choose =>
      if s.arenasBooted = true then
        .ok (s.goto t (if s.arenasTsd t = none then .chooseHard else .ready))
      else .error .abort
  | .chooseHard => .ok (s.goto t (if s.narenasAuto > 1 then .lockMany s.narenasAuto else .lockOne))
  | .lockMany firstNull =>
      if s.arenasLock = none ∧ s.arenas 0 = none then .error .abort
      else .ok (s.takeArenasLock t (.scan 1 0 firstNull))
  | .lockOne => .ok (s.takeArenasLock t (.load 0))
  | .scan i choose firstNull =>
      if i < s.narenasAuto then
        let found := chooseRound s.toProcess (choose, firstNull) i
        .ok (s.goto t (.scan (i + 1) found.1 found.2))
      else if ((s.arenas choose).map Arena.nthreads).getD 0 = 0 ∨ firstNull = s.narenasAuto then
        .ok (s.goto t (.load choose))
      else .ok (s.goto t (.extend firstNull))
  | .extend firstNull => do
      let p ← arenasExtend s.toProcess firstNull
      .ok { s.goto t (.load firstNull) with toProcess := p }
  | .load ind => do
      let arena ← s.arena ind
      .ok (s.goto t (.store ind arena.nthreads))
  | .store ind nthreads => do
      let arena ← s.arena ind
      .ok { s.goto t (.unlock ind) with
        toProcess := s.putArena ind { arena with nthreads := (nthreads + 1) % 2 ^ 32 } }
  | .unlock ind => .ok { s.goto t (.assign ind) with arenasLock := none }
  | .assign ind =>
      if s.arenasBooted = true then
        .ok { s.goto t .ready with arenasTsd := Function.update s.arenasTsd t (some ind) }
      else .error .abort
  | .ready =>
      .ok (s.goto t (if exits then
        match s.arenasTsd t with
        | some ind => .cleanupLock ind
        | none => .exited
      else .test))
  | .cleanupLock ind => .ok (s.takeArenasLock t (.cleanupLoad ind))
  | .cleanupLoad ind => do
      let arena ← s.arena ind
      .ok (s.goto t (.cleanupStore ind arena.nthreads))
  | .cleanupStore ind nthreads => do
      let arena ← s.arena ind
      .ok { s.goto t .cleanupUnlock with
        toProcess := s.putArena ind { arena with nthreads := (nthreads + (2 ^ 32 - 1)) % 2 ^ 32 } }
  | .cleanupUnlock =>
      .ok { s.goto t .exited with
        arenasLock := none
        arenasTsd := Function.update s.arenasTsd t none }
  | .exited => .ok s

/-- One turn. A thread goes by its thread id, a `pid_t`. -/
def Threaded.step (s : Threaded) (turn : Turn) : Except Fault Threaded :=
  if turn.thread < 2 ^ 31 then s.turn turn.thread turn.exits (s.pc turn.thread)
  else .error .contract

/-- The turns of the threads, in whatever order. -/
def threadedRun (heap : Heap) (garbage : Nat → Arena) (nprocessors : Int) (turns : List Turn) :
    Except Fault Threaded :=
  Execution.run Threaded.step (.loaded heap garbage nprocessors) turns

/-- The turns of the threads, whether or not `threadpool_create` returns a pool. -/
def threadedRunWith (heap : Heap) (garbage : Nat → Arena) (nprocessors : Int) (threadpool : Bool)
    (turns : List Turn) : Except Fault Threaded :=
  Execution.run Threaded.step
    { Threaded.loaded heap garbage nprocessors with threadpool := threadpool } turns

/-! ## What a thread holds -/

/-- The thread holds `init_lock` there. -/
def ThreadPc.initialises : ThreadPc → Bool
  | .initTest | .initAuto | .initTable | .initExtend | .initTsd | .initNarenas | .initRealTable
  | .initFirst _ | .initPool | .initPublish | .initUnlock => true
  | _ => false

/-- The thread holds `arenas_lock` there. -/
def ThreadPc.locked : ThreadPc → Bool
  | .scan .. | .extend _ | .load _ | .store .. | .unlock _ | .cleanupLoad _ | .cleanupStore ..
  | .cleanupUnlock => true
  | _ => false

/-- The thread is in no call. -/
def ThreadPc.resting : ThreadPc → Bool
  | .outside | .ready | .exited => true
  | _ => false

/-- The arena that counts the thread: the one it was given, from the store that counts it to the
store that takes it out. -/
def ThreadPc.counted (given : Option Nat) : ThreadPc → Option Nat
  | .unlock ind | .assign ind => some ind
  | .cleanupUnlock => none
  | _ => given

/-- The arena that counts each thread. -/
def Threaded.counted (s : Threaded) (t : Nat) : Option Nat := (s.pc t).counted (s.arenasTsd t)

end Lsmalloc
