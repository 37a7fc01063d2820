import Lsmalloc.Process.Interleaving

/-!
# Interleaved threads take effect one after another

Whatever order the threads step in, the allocator is initialised once, and the arenas are as if
every thread had come and gone in one step: an arrival at the store that counts it, an exit at the
store that takes it out. `Linearized` relates a state of the interleaved threads to the one of the
sequential run.
-/

namespace Lsmalloc

open Execution (Delivers delivers_ok delivers_error)

/-- The process with other values of `arenas_tsd`. -/
def Process.withTsd (p : Process) (tsd : Nat → Option Nat) : Process := { p with arenasTsd := tsd }

/-- What is known where a thread is. The sequential run has reached `p`, and the threads see `q`;
they differ only while a thread has made an arena and not counted itself in it. -/
def ThreadPc.Facts (p q : Process) (t : Nat) (given : Option Nat) : ThreadPc → Prop
  | .outside | .exited | .chooseHard | .assign _ => given = none
  | .test | .initLock | .initTest | .initUnlock | .choose => True
  | .lockMany firstNull => given = none ∧ firstNull = q.narenasAuto ∧ 1 < q.narenasAuto
  | .lockOne => given = none ∧ ¬ 1 < q.narenasAuto
  | .scan i chosen firstNull => given = none ∧ p = q ∧ 1 < q.narenasAuto ∧
      1 ≤ i ∧ i ≤ q.narenasAuto ∧ q.arenas 0 ≠ none ∧
      (List.range' 1 (i - 1)).foldl (chooseRound q) (0, q.narenasAuto) = (chosen, firstNull)
  | .extend firstNull => given = none ∧ p = q ∧
      chooseArenaHard q t = arenasExtend q firstNull >>= fun p => assignArena p t firstNull
  | .load ind => given = none ∧ chooseArenaHard p t = assignArena q t ind
  | .store ind nthreads => given = none ∧ chooseArenaHard p t = assignArena q t ind ∧
      ∃ arena, q.arenas ind = some arena ∧ arena.nthreads = nthreads
  | .unlock _ => given = none ∧ p = q
  | .ready => given ≠ none
  | .cleanupLock ind => given = some ind
  | .cleanupLoad ind => given = some ind ∧ p = q
  | .cleanupStore ind nthreads => given = some ind ∧ p = q ∧
      ∃ arena, q.arenas ind = some arena ∧ arena.nthreads = nthreads
  | .cleanupUnlock => p = q
  | .initAuto | .initTable | .initExtend | .initTsd | .initNarenas | .initRealTable | .initFirst _
  | .initPool | .initPublish => False

/-- The interleaved threads have the effect of the sequential run. -/
structure Linearized (s : Threaded) (r : ThreadRun) : Prop where
  initialized : s.mallocInitialized = true
  booted : s.arenasBooted = true
  initLock : ∀ t, s.initLock = some t ↔ (s.pc t).initialises = true
  arenasLock : ∀ t, s.arenasLock = some t ↔ (s.pc t).locked = true
  counted : ∀ t, r.arenasTsd t = s.counted t
  threads : ∀ t, t ∈ r.threads ↔ s.counted t ≠ none
  facts : ∀ t, (s.pc t).Facts r.toProcess (s.toProcess.withTsd r.arenasTsd) t (s.arenasTsd t)
  free : s.arenasLock = none → r.toProcess = s.toProcess.withTsd r.arenasTsd
  narenasAuto : r.narenasAuto = s.narenasAuto
  present : ∀ ind, r.arenas ind ≠ none → s.arenas ind ≠ none

variable {s s' : Threaded} {r r' : ThreadRun} {p p' q q' : Process} {t ind : Nat}
  {pc pc' : ThreadPc} {given : Option Nat}

/-! ## Steps of one kind -/

/-- What is known where a thread is depends on the processes only under `arenas_lock`. -/
theorem ThreadPc.Facts.frame (facts : pc.Facts p q t given)
    (quiet : pc.locked = false ∨ (p' = p ∧ q' = q)) (auto : q'.narenasAuto = q.narenasAuto) :
    pc.Facts p' q' t given := by
  rcases quiet with unlocked | ⟨rfl, rfl⟩
  · cases pc
    case scan | extend | load | store | unlock | cleanupLoad | cleanupStore | cleanupUnlock =>
      cases unlocked
    case lockMany =>
      rw [ThreadPc.Facts, auto]
      exact facts
    case lockOne =>
      rw [ThreadPc.Facts, auto]
      exact facts
    all_goals exact facts
  · exact facts

/-- A thread that is not the one that holds a lock does not hold it. -/
theorem Linearized.unlocked (lin : Linearized s r) (locked : (s.pc t).locked = true) {u : Nat}
    (other : u ≠ t) : (s.pc u).locked = false := by
  by_contra locked'
  have mine := (lin.arenasLock t).mpr locked
  have its := (lin.arenasLock u).mpr (by simpa using locked')
  rw [mine] at its
  exact other (Option.some.inj its).symm

/-- A lock is held by a thread after its step just if it is held where the thread is then. -/
theorem lock_goto {lock lock' : Option Nat} {held : ThreadPc → Bool} {pcs : Nat → ThreadPc}
    (holder : ∀ u, lock = some u ↔ held (pcs u) = true)
    (mine : lock' = some t ↔ held pc' = true)
    (others : ∀ u, u ≠ t → (lock' = some u ↔ lock = some u)) (u : Nat) :
    lock' = some u ↔ held (Function.update pcs t pc' u) = true := by
  by_cases same : u = t
  · subst same
    rw [Function.update_self]
    exact mine
  · rw [Function.update_of_ne same, others u same]
    exact holder u

/-- A step that touches nothing but the thread's own place, its `arenas_tsd` and the locks. -/
theorem Linearized.goto (lin : Linearized s r) (pc' : ThreadPc)
    (initLock arenasLock tsd : Option Nat)
    (inits : ∀ u, initLock = some u ↔ (Function.update s.pc t pc' u).initialises = true)
    (locks : ∀ u, arenasLock = some u ↔ (Function.update s.pc t pc' u).locked = true)
    (counts : pc'.counted tsd = (s.pc t).counted (s.arenasTsd t))
    (facts : pc'.Facts r.toProcess (s.toProcess.withTsd r.arenasTsd) t tsd)
    (free : arenasLock = none → r.toProcess = s.toProcess.withTsd r.arenasTsd) :
    Linearized { s with
      pc := Function.update s.pc t pc'
      initLock := initLock
      arenasLock := arenasLock
      arenasTsd := Function.update s.arenasTsd t tsd } r := by
  have counted : ∀ u, (Function.update s.pc t pc' u).counted (Function.update s.arenasTsd t tsd u) =
      s.counted u := by
    intro u
    by_cases same : u = t
    · subst same
      rw [Function.update_self, Function.update_self, counts]
      rfl
    · rw [Function.update_of_ne same, Function.update_of_ne same]
      rfl
  constructor
  case initialized => exact lin.initialized
  case booted => exact lin.booted
  case initLock => exact inits
  case arenasLock => exact locks
  case counted => exact fun u => (lin.counted u).trans (counted u).symm
  case threads =>
    intro u
    rw [lin.threads u, ← counted u]
    rfl
  case facts =>
    intro u
    change (Function.update s.pc t pc' u).Facts _ _ u (Function.update s.arenasTsd t tsd u)
    by_cases same : u = t
    · subst same
      rw [Function.update_self, Function.update_self]
      exact facts
    · rw [Function.update_of_ne same, Function.update_of_ne same]
      exact lin.facts u
  case free => exact free
  case narenasAuto => exact lin.narenasAuto
  case present => exact lin.present

/-- A step within the thread. -/
theorem Linearized.move (lin : Linearized s r) (here : s.pc t = pc)
    (inits : pc'.initialises = pc.initialises) (locks : pc'.locked = pc.locked)
    (counts : pc'.counted (s.arenasTsd t) = pc.counted (s.arenasTsd t))
    (facts : pc'.Facts r.toProcess (s.toProcess.withTsd r.arenasTsd) t (s.arenasTsd t)) :
    Linearized (s.goto t pc') r := by
  subst here
  have same := lin.goto pc' s.initLock s.arenasLock (s.arenasTsd t)
    (lock_goto lin.initLock (by rw [lin.initLock, inits]) fun _ _ => Iff.rfl)
    (lock_goto lin.arenasLock (by rw [lin.arenasLock, locks]) fun _ _ => Iff.rfl) counts facts lin.free
  rw [Function.update_eq_self] at same
  exact same

/-- Waiting for `arenas_lock`, or taking it. -/
theorem Linearized.takeArenasLock (lin : Linearized s r) (here : s.pc t = pc)
    (inits : pc'.initialises = pc.initialises) (locks : pc'.locked = true)
    (counts : pc'.counted (s.arenasTsd t) = pc.counted (s.arenasTsd t))
    (facts : r.toProcess = s.toProcess.withTsd r.arenasTsd →
      pc'.Facts r.toProcess (s.toProcess.withTsd r.arenasTsd) t (s.arenasTsd t)) :
    Linearized (s.takeArenasLock t pc') r := by
  subst here
  unfold Threaded.takeArenasLock
  split
  · rename_i free
    have others : ∀ u, u ≠ t → (some t = some u ↔ s.arenasLock = some u) := by
      intro u different
      rw [free]
      exact ⟨fun same => absurd (Option.some.inj same).symm different, nofun⟩
    have taken := lin.goto pc' s.initLock (some t) (s.arenasTsd t)
      (lock_goto lin.initLock (by rw [lin.initLock, inits]) fun _ _ => Iff.rfl)
      (lock_goto lin.arenasLock (by simp [locks]) others) counts (facts (lin.free free)) nofun
    rw [Function.update_eq_self] at taken
    exact taken
  · exact lin

/-- Waiting for `init_lock`, or taking it. -/
theorem Linearized.takeInitLock (lin : Linearized s r) (here : s.pc t = .initLock) :
    Linearized (s.takeInitLock t) r := by
  unfold Threaded.takeInitLock
  split
  · rename_i free
    have others : ∀ u, u ≠ t → (some t = some u ↔ s.initLock = some u) := by
      intro u different
      rw [free]
      exact ⟨fun same => absurd (Option.some.inj same).symm different, nofun⟩
    have taken := lin.goto .initTest (some t) s.arenasLock (s.arenasTsd t)
      (lock_goto lin.initLock (by simp [ThreadPc.initialises]) others)
      (lock_goto lin.arenasLock (by rw [lin.arenasLock, here]; rfl) fun _ _ => Iff.rfl)
      (by rw [here]; rfl) trivial lin.free
    rw [Function.update_eq_self] at taken
    exact taken
  · exact lin

/-- A lock is given back by the one that holds it. -/
theorem released {lock : Option Nat} {held : ThreadPc → Bool} {pcs : Nat → ThreadPc}
    (holder : ∀ u, lock = some u ↔ held (pcs u) = true) (mine : held (pcs t) = true) :
    ∀ u, u ≠ t → (none = some u ↔ lock = some u) := by
  intro u different
  rw [(holder t).mpr mine]
  exact ⟨nofun, fun same => absurd (Option.some.inj same).symm different⟩

/-- The holder of `arenas_lock` changes the arenas, and the sequential run may take a step. -/
theorem Linearized.work (lin : Linearized s r) (here : s.pc t = pc) (locked : pc.locked = true)
    (locks : pc'.locked = true) (inits : pc'.initialises = pc.initialises)
    (initialized : p.mallocInitialized = true) (tsd : p.arenasTsd = s.arenasTsd)
    (auto : p.narenasAuto = s.narenasAuto) (auto' : r'.narenasAuto = r.narenasAuto)
    (others : ∀ u, u ≠ t → r'.arenasTsd u = r.arenasTsd u)
    (mine : r'.arenasTsd t = pc'.counted (s.arenasTsd t))
    (threads : ∀ u, u ∈ r'.threads ↔ r'.arenasTsd u ≠ none)
    (facts : pc'.Facts r'.toProcess (p.withTsd r'.arenasTsd) t (s.arenasTsd t))
    (present : ∀ i, r'.arenas i ≠ none → p.arenas i ≠ none) :
    Linearized { s.goto t pc' with toProcess := p } r' := by
  subst here
  have held := (lin.arenasLock t).mpr locked
  have counted : ∀ u, r'.arenasTsd u =
      (Function.update s.pc t pc' u).counted (p.arenasTsd u) := by
    intro u
    rw [tsd]
    by_cases same : u = t
    · subst same
      rw [Function.update_self]
      exact mine
    · rw [Function.update_of_ne same, others u same]
      exact lin.counted u
  constructor
  case initialized => exact initialized
  case booted => exact lin.booted
  case initLock =>
    have same : s.initLock = some t ↔ pc'.initialises = true := by rw [lin.initLock, inits]
    exact lock_goto lin.initLock same fun _ _ => Iff.rfl
  case arenasLock =>
    have same : s.arenasLock = some t ↔ pc'.locked = true := by rw [lin.arenasLock, locked, locks]
    exact lock_goto lin.arenasLock same fun _ _ => Iff.rfl
  case counted => exact counted
  case threads =>
    intro u
    rw [threads u, counted u]
    rfl
  case facts =>
    intro u
    change (Function.update s.pc t pc' u).Facts _ _ u (p.arenasTsd u)
    rw [tsd]
    by_cases same : u = t
    · subst same
      rw [Function.update_self]
      exact facts
    · rw [Function.update_of_ne same]
      exact (lin.facts u).frame (.inl (lin.unlocked locked same)) auto
  case free =>
    intro free
    rw [show s.arenasLock = none from free] at held
    cases held
  case narenasAuto => exact auto'.trans (lin.narenasAuto.trans auto.symm)
  case present => exact present

/-! ## Choosing an arena -/

theorem Process.withTsd_self (p : Process) : p.withTsd p.arenasTsd = p := rfl

/-- `arenas_extend` does not look at `arenas_tsd`. -/
theorem arenasExtend_withTsd (p : Process) (tsd : Nat → Option Nat) (ind : Nat) :
    arenasExtend (p.withTsd tsd) ind =
      arenasExtend p ind >>= fun p' => .ok (p'.withTsd tsd) := by
  unfold arenasExtend
  change (arenaNew p.heap (p.garbage ind) ind >>= _) = _
  cases arenaNew p.heap (p.garbage ind) ind with
  | error fault => rfl
  | ok made => rfl

/-- What is left of `choose_arena_hard` when the loop has looked at all slots. -/
theorem chooseArenaHard_scanned {chosen firstNull : Nat} (several : 1 < p.narenasAuto)
    (first : p.arenas 0 ≠ none)
    (found : (List.range' 1 (p.narenasAuto - 1)).foldl (chooseRound p) (0, p.narenasAuto) =
      (chosen, firstNull)) :
    chooseArenaHard p t =
      if ((p.arenas chosen).map Arena.nthreads).getD 0 = 0 ∨ firstNull = p.narenasAuto then
        assignArena p t chosen
      else arenasExtend p firstNull >>= fun p => assignArena p t firstNull := by
  obtain ⟨arena, there⟩ := Option.ne_none_iff_exists'.mp first
  unfold chooseArenaHard
  rw [if_pos several, there]
  simp only [found]

/-- The step of `choose_arena_hard` that looks at the next slot, or at what was found. -/
theorem Linearized.scan {i chosen firstNull : Nat} (lin : Linearized s r)
    (here : s.pc t = .scan i chosen firstNull) {exits : Bool} :
    Delivers Fault.FromEnvironment (fun s' => Linearized s' r)
      (s.turn t exits (.scan i chosen firstNull)) := by
  have facts := lin.facts t
  rw [here] at facts
  obtain ⟨given, same, several, one, below, first, found⟩ := facts
  change i ≤ s.narenasAuto at below
  simp only [Threaded.turn]
  split
  · rename_i inside
    refine delivers_ok (lin.move here rfl rfl rfl ?_)
    refine ⟨given, same, several, by omega, inside, first, ?_⟩
    have next : i + 1 - 1 = i - 1 + 1 := by omega
    have place : 1 + (i - 1) = i := by omega
    rw [next, List.range'_1_concat, List.foldl_append, found, place]
    rfl
  · rename_i ended
    have all : i = s.narenasAuto := by omega
    subst all
    have whole := chooseArenaHard_scanned (t := t) several first found
    split
    · rename_i reuse
      have whole : _ = assignArena _ t chosen := whole.trans (if_pos reuse)
      refine delivers_ok (lin.move here rfl rfl rfl ?_)
      exact ⟨given, by rw [same]; exact whole⟩
    · rename_i fresh
      refine delivers_ok (lin.move here rfl rfl rfl ?_)
      exact ⟨given, same, whole.trans (if_neg fresh)⟩

/-- Making an arena. The sequential run makes it when the thread is counted. -/
theorem Linearized.extend {firstNull : Nat} (lin : Linearized s r)
    (here : s.pc t = .extend firstNull) {exits : Bool} :
    Delivers Fault.FromEnvironment (fun s' => Linearized s' r)
      (s.turn t exits (.extend firstNull)) := by
  have facts := lin.facts t
  rw [here] at facts
  obtain ⟨given, same, chooses⟩ := facts
  simp only [Threaded.turn]
  refine ⟨?_, ?_⟩
  · refine .bind ?_ fun _ _ => Execution.failsOnly_ok _
    exact (arenasExtend_delivers s.toProcess firstNull).1
  · intro s' made
    obtain ⟨p, extended, made⟩ := Execution.bind_eq_ok.mp made
    cases made
    obtain ⟨heap, arena, _, rfl⟩ := arenasExtend_effect extended
    have alike : r.arenas = s.arenas := by rw [same]; rfl
    refine lin.work here rfl rfl rfl lin.initialized rfl rfl rfl (fun _ _ => rfl) ?_ ?_
      ?_ ?_
    · rw [lin.counted t, Threaded.counted, here]
      rfl
    · intro u
      rw [lin.threads u, lin.counted u]
    · refine ⟨given, ?_⟩
      rw [same, chooses, arenasExtend_withTsd, extended]
      rfl
    · intro i old
      rw [alike] at old
      change (s.putArena firstNull arena).arenas i ≠ none
      by_cases isNew : i = firstNull
      · rw [isNew, Process.putArena_self]
        exact nofun
      · rwa [Process.putArena_other _ _ isNew]

/-! ## Counting a thread in and out -/

/-- The thread is counted in, and the sequential run takes its arrival. -/
theorem Linearized.store {nthreads : Nat} (lin : Linearized s r) (named : t < 2 ^ 31)
    (here : s.pc t = .store ind nthreads) {exits : Bool} :
    Delivers Fault.FromEnvironment
      (fun s' => ∃ r', Linearized s' r' ∧ r.step (.arrive t) = .ok r')
      (s.turn t exits (.store ind nthreads)) := by
  have facts := lin.facts t
  rw [here] at facts
  obtain ⟨given, chooses, arena, there, rfl⟩ := facts
  have slot : s.arenas ind = some arena := there
  have counted : r.arenasTsd t = none := by
    rw [lin.counted t, Threaded.counted, here]
    exact given
  have fresh : t ∉ r.threads := by
    rw [lin.threads t, ← lin.counted t, counted]
    simp
  have assigned : assignArena (s.toProcess.withTsd r.arenasTsd) t ind =
      .ok (ind, (s.putArena ind { arena with nthreads := (arena.nthreads + 1) % 2 ^ 32 }).withTsd
        (Function.update r.arenasTsd t (some ind))) := by
    unfold assignArena
    rw [Process.arena_eq_ok there]
    rfl
  have stepped : r.step (.arrive t) =
      .ok ⟨(s.putArena ind { arena with nthreads := (arena.nthreads + 1) % 2 ^ 32 }).withTsd
        (Function.update r.arenasTsd t (some ind)), t :: r.threads⟩ := by
    simp only [ThreadRun.step, if_pos (And.intro named fresh), chooseArena, counted, chooses,
      assigned]
    rfl
  simp only [Threaded.turn, Process.arena_eq_ok slot]
  refine delivers_ok ⟨_, ?_, stepped⟩
  refine lin.work here rfl rfl rfl lin.initialized rfl rfl lin.narenasAuto.symm ?_ ?_
    ?_ ⟨given, rfl⟩ fun _ => id
  · exact fun u different => Function.update_of_ne different ..
  · exact Function.update_self ..
  · intro u
    change u ∈ t :: r.threads ↔ Function.update r.arenasTsd t (some ind) u ≠ none
    by_cases same : u = t
    · subst same
      simp
    · rw [Function.update_of_ne same, List.mem_cons, lin.threads u, lin.counted u]
      simp [same]

/-- The thread is counted out, and the sequential run takes its exit. -/
theorem Linearized.cleanupStore {nthreads : Nat} (lin : Linearized s r) (threadsOk : ThreadsOk r)
    (here : s.pc t = .cleanupStore ind nthreads) {exits : Bool} :
    Delivers Fault.FromEnvironment
      (fun s' => ∃ r', Linearized s' r' ∧ r.step (.exit t) = .ok r')
      (s.turn t exits (.cleanupStore ind nthreads)) := by
  have facts := lin.facts t
  rw [here] at facts
  obtain ⟨given, same, arena, there, rfl⟩ := facts
  have slot : s.arenas ind = some arena := there
  have counted : r.arenasTsd t = some ind := by
    rw [lin.counted t, Threaded.counted, here]
    exact given
  have member : t ∈ r.threads := by
    rw [lin.threads t, ← lin.counted t, counted]
    simp
  have cleaned : arenasCleanup r.toProcess ind =
      .ok ((s.putArena ind { arena with nthreads := (arena.nthreads + (2 ^ 32 - 1)) % 2 ^ 32 }).withTsd
        r.arenasTsd) := by
    rw [same]
    unfold arenasCleanup
    rw [Process.arena_eq_ok there]
    rfl
  have stepped : r.step (.exit t) =
      .ok ⟨(s.putArena ind { arena with nthreads := (arena.nthreads + (2 ^ 32 - 1)) % 2 ^ 32 }).withTsd
        (Function.update r.arenasTsd t none), r.threads.erase t⟩ := by
    simp only [ThreadRun.step, if_pos member, counted, cleaned]
    rfl
  simp only [Threaded.turn, Process.arena_eq_ok slot]
  refine delivers_ok ⟨_, ?_, stepped⟩
  refine lin.work here rfl rfl rfl lin.initialized rfl rfl lin.narenasAuto.symm ?_ ?_
    ?_ rfl fun _ => id
  · exact fun u different => Function.update_of_ne different ..
  · exact Function.update_self ..
  · intro u
    change u ∈ r.threads.erase t ↔ Function.update r.arenasTsd t none u ≠ none
    rw [threadsOk.distinct.mem_erase_iff]
    by_cases same : u = t
    · subst same
      simp
    · rw [Function.update_of_ne same, lin.threads u, lin.counted u]
      simp [same]

/-- The pointer to an arena that a thread counts itself in is not `NULL`. -/
theorem Linearized.load (lin : Linearized s r) (ok : r.toProcess.Ok) (here : s.pc t = .load ind)
    {exits : Bool} :
    Delivers Fault.FromEnvironment (fun s' => Linearized s' r) (s.turn t exits (.load ind)) := by
  have facts := lin.facts t
  rw [here] at facts
  obtain ⟨given, chooses⟩ := facts
  cases slot : s.arenas ind with
  | none =>
      have missing : assignArena (s.toProcess.withTsd r.arenasTsd) t ind = .error .null := by
        have none : (s.toProcess.withTsd r.arenasTsd).arenas ind = none := slot
        unfold assignArena Process.arena
        rw [none]
        rfl
      have delivers : Delivers Fault.FromEnvironment (Chosen r.toProcess)
          (chooseArenaHard r.toProcess t) := ok.chooseArenaHard
      exact absurd (delivers.1 .null (chooses.trans missing)) not_fromEnvironment_null
  | some arena =>
      simp only [Threaded.turn, Process.arena_eq_ok slot]
      refine delivers_ok (lin.move here rfl rfl rfl ?_)
      exact ⟨given, chooses, arena, slot, rfl⟩

/-- The arena a thread leaves is there. -/
theorem Linearized.cleanupLoad (lin : Linearized s r) (threadsOk : ThreadsOk r)
    (here : s.pc t = .cleanupLoad ind) {exits : Bool} :
    Delivers Fault.FromEnvironment (fun s' => Linearized s' r)
      (s.turn t exits (.cleanupLoad ind)) := by
  have facts := lin.facts t
  rw [here] at facts
  obtain ⟨given, same⟩ := facts
  have counted : s.counted t = some ind := by
    rw [Threaded.counted, here]
    exact given
  obtain ⟨other, assigned, there⟩ :=
    threadsOk.present t ((lin.threads t).mpr (by rw [counted]; exact nofun))
  rw [lin.counted t, counted, Option.some.injEq] at assigned
  subst assigned
  obtain ⟨arena, slot⟩ := Option.ne_none_iff_exists'.mp (lin.present ind there)
  simp only [Threaded.turn, Process.arena_eq_ok slot]
  refine delivers_ok (lin.move here rfl rfl rfl ?_)
  exact ⟨given, same, arena, slot, rfl⟩

/-! ## Giving the locks back -/

/-- `arenas_lock` is given back. -/
theorem Linearized.release (lin : Linearized s r) (here : s.pc t = pc) (locked : pc.locked = true)
    (pc' : ThreadPc) (tsd : Option Nat) (inits : pc'.initialises = pc.initialises)
    (locks : pc'.locked = false) (counts : pc'.counted tsd = pc.counted (s.arenasTsd t))
    (facts : pc'.Facts r.toProcess (s.toProcess.withTsd r.arenasTsd) t tsd)
    (same : r.toProcess = s.toProcess.withTsd r.arenasTsd) :
    Linearized { s with
      pc := Function.update s.pc t pc'
      arenasLock := none
      arenasTsd := Function.update s.arenasTsd t tsd } r := by
  subst here
  exact lin.goto pc' s.initLock none tsd
    (lock_goto lin.initLock (by rw [lin.initLock, inits]) fun _ _ => Iff.rfl)
    (lock_goto lin.arenasLock (by simp [locks]) (released lin.arenasLock locked)) counts facts
    fun _ => same

/-- `init_lock` is given back. -/
theorem Linearized.initUnlock (lin : Linearized s r) (here : s.pc t = .initUnlock) {exits : Bool} :
    Delivers Fault.FromEnvironment (fun s' => Linearized s' r) (s.turn t exits .initUnlock) := by
  have mine : (s.pc t).initialises = true := by rw [here]; rfl
  have left := lin.goto .choose none s.arenasLock (s.arenasTsd t)
    (lock_goto lin.initLock (by simp [ThreadPc.initialises]) (released lin.initLock mine))
    (lock_goto lin.arenasLock (by rw [lin.arenasLock, here]; rfl) fun _ _ => Iff.rfl)
    (by rw [here]; rfl) trivial lin.free
  rw [Function.update_eq_self] at left
  exact delivers_ok left

/-- `arenas_lock` is given back by a thread that was counted. -/
theorem Linearized.unlock (lin : Linearized s r) (here : s.pc t = .unlock ind) {exits : Bool} :
    Delivers Fault.FromEnvironment (fun s' => Linearized s' r) (s.turn t exits (.unlock ind)) := by
  have facts := lin.facts t
  rw [here] at facts
  obtain ⟨given, same⟩ := facts
  have left := lin.release here rfl (.assign ind) (s.arenasTsd t) rfl rfl rfl given same
  rw [Function.update_eq_self] at left
  exact delivers_ok left

/-! ## Finding the way -/

/-- A thread that is in no call enters one, or exits. -/
theorem Linearized.outside (lin : Linearized s r) (here : s.pc t = .outside) (exits : Bool) :
    Delivers Fault.FromEnvironment (fun s' => Linearized s' r) (s.turn t exits .outside) := by
  have facts := lin.facts t
  rw [here] at facts
  cases exits with
  | true => exact delivers_ok (lin.move here rfl rfl rfl facts)
  | false => exact delivers_ok (lin.move here rfl rfl rfl trivial)

/-- `arenas_tsd` tells whether the thread has an arena. -/
theorem Linearized.choose (lin : Linearized s r) (here : s.pc t = .choose) {exits : Bool} :
    Delivers Fault.FromEnvironment (fun s' => Linearized s' r) (s.turn t exits .choose) := by
  simp only [Threaded.turn, if_pos lin.booted]
  split
  · rename_i given
    exact delivers_ok (lin.move here rfl rfl rfl given)
  · rename_i given
    exact delivers_ok (lin.move here rfl rfl rfl given)

/-- `narenas_auto` tells whether there is a choice. -/
theorem Linearized.chooseHard (lin : Linearized s r) (here : s.pc t = .chooseHard)
    {exits : Bool} :
    Delivers Fault.FromEnvironment (fun s' => Linearized s' r) (s.turn t exits .chooseHard) := by
  have facts := lin.facts t
  rw [here] at facts
  simp only [Threaded.turn]
  split
  · rename_i several
    exact delivers_ok (lin.move here rfl rfl rfl ⟨facts, rfl, several⟩)
  · rename_i single
    exact delivers_ok (lin.move here rfl rfl rfl ⟨facts, single⟩)

/-- The assertion behind `arenas_lock` holds, as the first arena is there. -/
theorem Linearized.lockMany {firstNull : Nat} (lin : Linearized s r) (ok : r.toProcess.Ok)
    (here : s.pc t = .lockMany firstNull) {exits : Bool} :
    Delivers Fault.FromEnvironment (fun s' => Linearized s' r)
      (s.turn t exits (.lockMany firstNull)) := by
  have facts := lin.facts t
  rw [here] at facts
  obtain ⟨given, rfl, several⟩ := facts
  obtain ⟨arena, first⟩ := ok.first
  have there : s.arenas 0 ≠ none := lin.present 0 (by rw [first]; exact nofun)
  simp only [Threaded.turn]
  rw [if_neg fun missing => there missing.2]
  refine delivers_ok (lin.takeArenasLock here rfl rfl rfl fun same => ?_)
  exact ⟨given, same, several, Nat.le_refl _, Nat.le_of_lt several, there, rfl⟩

/-- With one arena there is nothing to look for. -/
theorem Linearized.lockOne (lin : Linearized s r) (here : s.pc t = .lockOne) {exits : Bool} :
    Delivers Fault.FromEnvironment (fun s' => Linearized s' r) (s.turn t exits .lockOne) := by
  have facts := lin.facts t
  rw [here] at facts
  obtain ⟨given, single⟩ := facts
  refine delivers_ok (lin.takeArenasLock here rfl rfl rfl fun same => ⟨given, ?_⟩)
  rw [same]
  exact if_neg single

/-- The thread gets the arena that counts it. -/
theorem Linearized.assign (lin : Linearized s r) (here : s.pc t = .assign ind) {exits : Bool} :
    Delivers Fault.FromEnvironment (fun s' => Linearized s' r) (s.turn t exits (.assign ind)) := by
  simp only [Threaded.turn, if_pos lin.booted]
  exact delivers_ok (lin.goto .ready s.initLock s.arenasLock (some ind)
    (lock_goto lin.initLock (by rw [lin.initLock, here]; rfl) fun _ _ => Iff.rfl)
    (lock_goto lin.arenasLock (by rw [lin.arenasLock, here]; rfl) fun _ _ => Iff.rfl)
    (by rw [here]; rfl) nofun lin.free)

/-- A thread that has an arena calls again, or leaves it. -/
theorem Linearized.ready (lin : Linearized s r) (here : s.pc t = .ready) (exits : Bool) :
    Delivers Fault.FromEnvironment (fun s' => Linearized s' r) (s.turn t exits .ready) := by
  have facts := lin.facts t
  rw [here] at facts
  cases exits with
  | false => exact delivers_ok (lin.move here rfl rfl rfl trivial)
  | true =>
      obtain ⟨ind, given⟩ := Option.ne_none_iff_exists'.mp facts
      simp only [Threaded.turn, if_true, given]
      exact delivers_ok (lin.move here rfl rfl rfl given)

/-! ## Any turn -/

/-- A turn in which no thread is counted in or out. -/
theorem Linearized.turn_quiet (lin : Linearized s r) (ok : r.toProcess.Ok)
    (threadsOk : ThreadsOk r) (exits : Bool) (notIn : ∀ ind nthreads, s.pc t ≠ .store ind nthreads)
    (notOut : ∀ ind nthreads, s.pc t ≠ .cleanupStore ind nthreads) :
    Delivers Fault.FromEnvironment (fun s' => Linearized s' r) (s.turn t exits (s.pc t)) := by
  have facts := lin.facts t
  have initialized : ¬ s.mallocInitialized = false := by rw [lin.initialized]; simp
  cases here : s.pc t with
  | outside => exact lin.outside here exits
  | test =>
      simp only [Threaded.turn, if_neg initialized]
      exact delivers_ok (lin.move here rfl rfl rfl trivial)
  | initLock => exact delivers_ok (lin.takeInitLock here)
  | initTest =>
      simp only [Threaded.turn, if_pos lin.initialized]
      exact delivers_ok (lin.move here rfl rfl rfl trivial)
  | initAuto | initTable | initExtend | initTsd | initNarenas | initRealTable | initFirst
  | initPool | initPublish =>
      rw [here] at facts
      exact facts.elim
  | initUnlock => exact lin.initUnlock here
  | choose => exact lin.choose here
  | chooseHard => exact lin.chooseHard here
  | lockMany firstNull => exact lin.lockMany ok here
  | lockOne => exact lin.lockOne here
  | scan i chosen firstNull => exact lin.scan here
  | extend firstNull => exact lin.extend here
  | load ind => exact lin.load ok here
  | store ind nthreads => exact absurd here (notIn ind nthreads)
  | unlock ind => exact lin.unlock here
  | assign ind => exact lin.assign here
  | ready => exact lin.ready here exits
  | cleanupLock ind =>
      rw [here] at facts
      exact delivers_ok (lin.takeArenasLock here rfl rfl rfl fun same => ⟨facts, same⟩)
  | cleanupLoad ind => exact lin.cleanupLoad threadsOk here
  | cleanupStore ind nthreads => exact absurd here (notOut ind nthreads)
  | cleanupUnlock =>
      rw [here] at facts
      exact delivers_ok (lin.release here rfl .exited none rfl rfl rfl rfl facts)
  | exited => exact delivers_ok lin

/-- A turn once the allocator is initialised. The sequential run takes a step in it or none. -/
theorem Linearized.turn (lin : Linearized s r) (ok : r.toProcess.Ok) (threadsOk : ThreadsOk r)
    (named : t < 2 ^ 31) (exits : Bool) :
    Delivers Fault.FromEnvironment
      (fun s' => ∃ r', Linearized s' r' ∧ (r' = r ∨ ∃ op, r.step op = .ok r'))
      (s.turn t exits (s.pc t)) := by
  by_cases comes : ∃ ind nthreads, s.pc t = .store ind nthreads
  · obtain ⟨ind, nthreads, here⟩ := comes
    rw [here]
    exact (lin.store named here).mono (fun _ => id) fun _ ⟨r', lin', stepped⟩ =>
      ⟨r', lin', .inr ⟨_, stepped⟩⟩
  by_cases leaves : ∃ ind nthreads, s.pc t = .cleanupStore ind nthreads
  · obtain ⟨ind, nthreads, here⟩ := leaves
    rw [here]
    exact (lin.cleanupStore threadsOk here).mono (fun _ => id) fun _ ⟨r', lin', stepped⟩ =>
      ⟨r', lin', .inr ⟨_, stepped⟩⟩
  have quiet := lin.turn_quiet ok threadsOk exits (fun ind nthreads here => comes ⟨ind, nthreads, here⟩)
    fun ind nthreads here => leaves ⟨ind, nthreads, here⟩
  exact quiet.mono (fun _ => id) fun _ lin' => ⟨r, lin', .inl rfl⟩

end Lsmalloc
