import Lsmalloc.Process.Linearize

/-!
# Initialisation by interleaved threads

`lsmalloc` tests `malloc_initialized` without a lock, and `malloc_init_hard` tests it again under
`init_lock`. Until it is set only the thread that holds the lock has done anything, and what that
thread has done is a part of `malloc_init_hard`. From then on the threads are `Linearized`.
-/

namespace Lsmalloc

open Execution (Delivers delivers_ok delivers_error)

/-- The process as the body of `malloc_init_hard` has it when it makes the first arena. -/
def Process.bare (p : Process) : Process := { p with narenasAuto := 1, arenas := fun _ => none }

/-- What the body of `malloc_init_hard` has done where a thread is in it. -/
def ThreadPc.Body (loaded p : Process) (booted : Bool) : ThreadPc → Prop
  | .initTest | .initAuto => p = loaded
  | .initTable => p = { loaded with narenasAuto := 1 }
  | .initExtend => p = loaded.bare
  | .initTsd => arenasExtend loaded.bare 0 = .ok p
  | .initNarenas => booted = true ∧ arenasExtend loaded.bare 0 = .ok p
  | .initRealTable | .initPool => booted = true ∧
      ∃ p₁, arenasExtend loaded.bare 0 = .ok p₁ ∧ p = { p₁ with narenasAuto := optNarenas p₁ }
  | .initPublish => booted = true ∧ p.threadpool = true ∧
      ∃ p₁, arenasExtend loaded.bare 0 = .ok p₁ ∧ p = { p₁ with narenasAuto := optNarenas p₁ }
  | .initFirst first => booted = true ∧ ∃ p₁, arenasExtend loaded.bare 0 = .ok p₁ ∧
      p₁.arenas 0 = some first ∧
      p = { p₁ with narenasAuto := optNarenas p₁, arenas := fun _ => none }
  | _ => False

/-- The thread is not behind `init_lock`. -/
def ThreadPc.early : ThreadPc → Bool
  | .outside | .test | .initLock | .exited => true
  | _ => false

/-- No thread has set `malloc_initialized`, and only the one that holds `init_lock` has done
anything. -/
structure Booting (loaded : Process) (s : Threaded) : Prop where
  uninitialized : s.mallocInitialized = false
  threadpool : s.threadpool = loaded.threadpool
  arenasLock : s.arenasLock = none
  arenasTsd : s.arenasTsd = fun _ => none
  untouched : s.initLock = none → s.toProcess = loaded
  body : ∀ t, s.initLock = some t → (s.pc t).Body loaded s.toProcess s.arenasBooted
  others : ∀ t, s.initLock ≠ some t → (s.pc t).early = true

/-- A turn of the thread fails for the environment, or at the assertion that there is a pool of
threads. -/
def Threaded.FailsIn (s : Threaded) (t : Nat) (fault : Fault) : Prop :=
  fault.FromEnvironment ∨ s.pc t = .initPool ∧ s.threadpool = false ∧ fault = .abort

variable {loaded p : Process} {s s' : Threaded} {t : Nat} {pc pc' : ThreadPc}

/-- A thread that is not behind `init_lock` goes on. -/
theorem Booting.goto (boot : Booting loaded s) (outside : s.initLock ≠ some t)
    (early : pc'.early = true) : Booting loaded (s.goto t pc') := by
  refine ⟨boot.uninitialized, boot.threadpool, boot.arenasLock, boot.arenasTsd, boot.untouched,
    ?_, ?_⟩
  · intro u held
    have different : u ≠ t := by
      rintro rfl
      exact outside held
    change (Function.update s.pc t pc' u).Body _ _ _
    rw [Function.update_of_ne different]
    exact boot.body u held
  · intro u free
    change (Function.update s.pc t pc' u).early = true
    by_cases same : u = t
    · subst same
      rwa [Function.update_self]
    · rw [Function.update_of_ne same]
      exact boot.others u free

/-- The thread that holds `init_lock` goes on in the body. -/
theorem Booting.work {booted : Bool} (boot : Booting loaded s) (held : s.initLock = some t)
    (uninitialized : p.mallocInitialized = false) (pool : p.threadpool = loaded.threadpool)
    (tsd : p.arenasTsd = fun _ => none) (body : pc'.Body loaded p booted) :
    Booting loaded { s.goto t pc' with toProcess := p, arenasBooted := booted } := by
  refine ⟨uninitialized, pool, boot.arenasLock, tsd, ?_, ?_, ?_⟩
  · intro free
    rw [show s.initLock = none from free] at held
    cases held
  · intro u mine
    obtain rfl : t = u := Option.some.inj (held.symm.trans mine)
    change (Function.update s.pc t pc' t).Body _ _ _
    rw [Function.update_self]
    exact body
  · intro u free
    have different : u ≠ t := by
      rintro rfl
      exact free held
    change (Function.update s.pc t pc' u).early = true
    rw [Function.update_of_ne different]
    exact boot.others u free

/-- Setting `malloc_initialized` starts the sequential run. -/
theorem Booting.publish (boot : Booting loaded s) (held : s.initLock = some t)
    (booted : s.arenasBooted = true) (initialized : p.mallocInitialized = true)
    (tsd : p.arenasTsd = fun _ => none) :
    Linearized { s.goto t .initUnlock with toProcess := p } ⟨p, []⟩ := by
  have early : ∀ u, u ≠ t → (s.pc u).early = true := by
    intro u different
    refine boot.others u fun mine => different ?_
    exact Option.some.inj (mine.symm.trans held)
  have rest : ∀ u, u ≠ t → (s.pc u).initialises = false ∧ (s.pc u).locked = false ∧
      (s.pc u).counted none = none ∧ ∀ q, (s.pc u).Facts q q u none := by
    intro u different
    have here := early u different
    cases at_ : s.pc u with
    | outside | exited => exact ⟨rfl, rfl, rfl, fun _ => rfl⟩
    | test | initLock => exact ⟨rfl, rfl, rfl, fun _ => trivial⟩
    | _ =>
        rw [at_] at here
        cases here
  have counted : ∀ u, (Function.update s.pc t .initUnlock u).counted (p.arenasTsd u) = none := by
    intro u
    rw [tsd]
    by_cases same : u = t
    · subst same
      rw [Function.update_self]
      rfl
    · rw [Function.update_of_ne same]
      exact (rest u same).2.2.1
  constructor
  case initialized => exact initialized
  case booted => exact booted
  case initLock =>
    intro u
    change s.initLock = some u ↔ (Function.update s.pc t .initUnlock u).initialises = true
    by_cases same : u = t
    · subst same
      rw [Function.update_self]
      exact ⟨fun _ => rfl, fun _ => held⟩
    · rw [Function.update_of_ne same, (rest u same).1, held, Option.some.injEq]
      exact ⟨fun mine => absurd mine.symm same, nofun⟩
  case arenasLock =>
    intro u
    change s.arenasLock = some u ↔ (Function.update s.pc t .initUnlock u).locked = true
    rw [boot.arenasLock]
    by_cases same : u = t
    · subst same
      rw [Function.update_self]
      exact ⟨nofun, nofun⟩
    · rw [Function.update_of_ne same, (rest u same).2.1]
      exact ⟨nofun, nofun⟩
  case counted =>
    intro u
    have none : Threaded.counted { s.goto t .initUnlock with toProcess := p } u = none := counted u
    rw [none, tsd]
  case threads =>
    intro u
    have none : Threaded.counted { s.goto t .initUnlock with toProcess := p } u = none := counted u
    rw [none]
    simp
  case facts =>
    intro u
    change (Function.update s.pc t .initUnlock u).Facts p (p.withTsd p.arenasTsd) u (p.arenasTsd u)
    have none : p.arenasTsd u = none := by rw [tsd]
    rw [Process.withTsd_self, none]
    by_cases same : u = t
    · subst same
      rw [Function.update_self]
      trivial
    · rw [Function.update_of_ne same]
      exact (rest u same).2.2.2 p
  case free => exact fun _ => rfl
  case narenasAuto => rfl
  case present => exact fun _ => id

/-- The first arena is alone in its table. -/
theorem arenasExtend_bare (extended : arenasExtend loaded.bare 0 = .ok p) :
    ∃ arena, p.arenas = Function.update (fun _ => none) 0 (some arena) := by
  obtain ⟨heap, arena, _, rfl⟩ := arenasExtend_effect extended
  exact ⟨arena, rfl⟩

/-! ## The body, store by store -/

section Body

variable {exits : Bool}

theorem Booting.initTest (boot : Booting loaded s) (held : s.initLock = some t)
    (here : s.pc t = .initTest) :
    Delivers Fault.FromEnvironment (Booting loaded) (s.turn t exits .initTest) := by
  have body := boot.body t held
  rw [here] at body
  have notYet : ¬ s.mallocInitialized = true := by rw [boot.uninitialized]; simp
  simp only [Threaded.turn, if_neg notYet]
  exact delivers_ok (boot.work held boot.uninitialized boot.threadpool boot.arenasTsd body)

theorem Booting.initAuto (boot : Booting loaded s) (held : s.initLock = some t)
    (here : s.pc t = .initAuto) :
    Delivers Fault.FromEnvironment (Booting loaded) (s.turn t exits .initAuto) := by
  have body := boot.body t held
  rw [here] at body
  refine delivers_ok (boot.work held boot.uninitialized boot.threadpool boot.arenasTsd ?_)
  exact congrArg (fun p : Process => { p with narenasAuto := 1 }) body

theorem Booting.initTable (boot : Booting loaded s) (held : s.initLock = some t)
    (here : s.pc t = .initTable) :
    Delivers Fault.FromEnvironment (Booting loaded) (s.turn t exits .initTable) := by
  have body := boot.body t held
  rw [here] at body
  refine delivers_ok (boot.work held boot.uninitialized boot.threadpool boot.arenasTsd ?_)
  exact congrArg (fun p : Process => { p with arenas := fun _ => none }) body

theorem Booting.initExtend (boot : Booting loaded s) (unset : loaded.mallocInitialized = false)
    (given : loaded.arenasTsd = fun _ => none) (held : s.initLock = some t)
    (here : s.pc t = .initExtend) :
    Delivers Fault.FromEnvironment (Booting loaded) (s.turn t exits .initExtend) := by
  have body := boot.body t held
  rw [here] at body
  have same : s.toProcess = loaded.bare := body
  simp only [Threaded.turn, same]
  refine ⟨?_, ?_⟩
  · refine .bind ?_ fun _ _ => Execution.failsOnly_ok _
    exact (arenasExtend_delivers loaded.bare 0).1
  · intro s' made
    obtain ⟨p, extended, made⟩ := Execution.bind_eq_ok.mp made
    cases made
    have extended' := extended
    obtain ⟨heap, arena, _, rfl⟩ := arenasExtend_effect extended
    exact boot.work held unset rfl given extended'

theorem Booting.initTsd (boot : Booting loaded s) (held : s.initLock = some t)
    (here : s.pc t = .initTsd) :
    Delivers Fault.FromEnvironment (Booting loaded) (s.turn t exits .initTsd) := by
  have body := boot.body t held
  rw [here] at body
  exact delivers_ok (boot.work held boot.uninitialized boot.threadpool boot.arenasTsd ⟨rfl, body⟩)

theorem Booting.initNarenas (boot : Booting loaded s) (held : s.initLock = some t)
    (here : s.pc t = .initNarenas) :
    Delivers Fault.FromEnvironment (Booting loaded) (s.turn t exits .initNarenas) := by
  have body := boot.body t held
  rw [here] at body
  obtain ⟨booted, extended⟩ := body
  refine delivers_ok (boot.work held boot.uninitialized boot.threadpool boot.arenasTsd ⟨booted, ?_⟩)
  exact ⟨s.toProcess, extended, rfl⟩

/-- The first arena is read from the table that is left. -/
theorem Booting.initRealTable (boot : Booting loaded s) (held : s.initLock = some t)
    (here : s.pc t = .initRealTable) :
    Delivers Fault.FromEnvironment (Booting loaded) (s.turn t exits .initRealTable) := by
  have body := boot.body t held
  rw [here] at body
  obtain ⟨booted, p₁, extended, same⟩ := body
  obtain ⟨first, table⟩ := arenasExtend_bare extended
  have mine : s.arenas 0 = some first := by
    rw [same]
    change p₁.arenas 0 = some first
    rw [table, Function.update_self]
  simp only [Threaded.turn, Process.arena_eq_ok mine]
  refine delivers_ok (boot.work held boot.uninitialized boot.threadpool boot.arenasTsd ⟨booted, ?_⟩)
  refine ⟨p₁, extended, by rw [table, Function.update_self], ?_⟩
  exact congrArg (fun p : Process => { p with arenas := fun _ => none }) same

/-- The first arena is stored to the new table. -/
theorem Booting.initFirst {first : Arena} (boot : Booting loaded s) (held : s.initLock = some t)
    (here : s.pc t = .initFirst first) :
    Delivers Fault.FromEnvironment (Booting loaded) (s.turn t exits (.initFirst first)) := by
  have body := boot.body t held
  rw [here] at body
  obtain ⟨booted, p₁, extended, there, same⟩ := body
  obtain ⟨arena, table⟩ := arenasExtend_bare extended
  have isFirst : first = arena := by
    rw [table, Function.update_self] at there
    exact (Option.some.inj there).symm
  rw [isFirst]
  refine delivers_ok (boot.work held boot.uninitialized boot.threadpool boot.arenasTsd ⟨booted, ?_⟩)
  refine ⟨p₁, extended, ?_⟩
  refine (congrArg (fun p : Process =>
    { p with arenas := Function.update p.arenas 0 (some arena) }) same).trans ?_
  simp only [← table]

/-- The assertion fails if there is no pool of threads. -/
theorem Booting.initPool (boot : Booting loaded s) (held : s.initLock = some t)
    (here : s.pc t = .initPool) :
    Delivers (s.FailsIn t) (Booting loaded) (s.turn t exits .initPool) := by
  have body := boot.body t held
  rw [here] at body
  obtain ⟨booted, made⟩ := body
  simp only [Threaded.turn]
  split
  · rename_i pool
    exact delivers_ok (boot.work held boot.uninitialized boot.threadpool boot.arenasTsd ⟨booted, pool, made⟩)
  · rename_i missing
    exact delivers_error (.inr ⟨here, by simpa using missing, rfl⟩)

/-- The store of `malloc_initialized` ends what `malloc_init_hard` does. -/
theorem Booting.initPublish (boot : Booting loaded s) (unset : loaded.mallocInitialized = false)
    (held : s.initLock = some t) (here : s.pc t = .initPublish) :
    Delivers Fault.FromEnvironment
      (fun s' => ∃ p, mallocInitHard loaded = .ok p ∧ Linearized s' ⟨p, []⟩)
      (s.turn t exits .initPublish) := by
  have body := boot.body t held
  rw [here] at body
  obtain ⟨booted, pool, p₁, extended, same⟩ := body
  have pool₁ : p₁.threadpool = true := by
    rw [same] at pool
    exact pool
  have made : mallocInitHard loaded = .ok { s.toProcess with mallocInitialized := true } := by
    have notYet : ¬ loaded.mallocInitialized = true := by rw [unset]; simp
    rw [mallocInitHard, if_neg notYet, same]
    change (arenasExtend loaded.bare 0 >>= _) = _
    rw [extended]
    exact if_pos pool₁
  exact delivers_ok ⟨_, made, boot.publish held booted rfl boot.arenasTsd⟩

/-- `init_lock` is taken by a thread that finds it free. -/
theorem Booting.initLock (boot : Booting loaded s) :
    Delivers Fault.FromEnvironment (Booting loaded) (s.turn t exits .initLock) := by
  simp only [Threaded.turn, Threaded.takeInitLock]
  split
  · rename_i free
    have alone : ∀ u, (s.pc u).early = true := by
      intro u
      exact boot.others u (by simp [free])
    refine delivers_ok ⟨boot.uninitialized, boot.threadpool, boot.arenasLock, boot.arenasTsd, by simp,
      ?_, ?_⟩
    · intro u mine
      obtain rfl : t = u := Option.some.inj mine
      change (Function.update s.pc t .initTest t).Body _ _ _
      rw [Function.update_self]
      exact boot.untouched free
    · intro u other
      have different : u ≠ t := by
        rintro rfl
        exact other rfl
      change (Function.update s.pc t .initTest u).early = true
      rw [Function.update_of_ne different]
      exact alone u
  · exact delivers_ok boot

end Body

/-- A turn of the thread that holds `init_lock`. -/
theorem Booting.turn_held (boot : Booting loaded s) (unset : loaded.mallocInitialized = false)
    (given : loaded.arenasTsd = fun _ => none) (held : s.initLock = some t) (exits : Bool) :
    Delivers (s.FailsIn t)
      (fun s' => Booting loaded s' ∨ ∃ p, mallocInitHard loaded = .ok p ∧ Linearized s' ⟨p, []⟩)
      (s.turn t exits (s.pc t)) := by
  have still : ∀ {pc}, Delivers Fault.FromEnvironment (Booting loaded) (s.turn t exits pc) →
      Delivers (s.FailsIn t)
        (fun s' => Booting loaded s' ∨ ∃ p, mallocInitHard loaded = .ok p ∧ Linearized s' ⟨p, []⟩)
        (s.turn t exits pc) :=
    fun delivers => delivers.mono (fun _ => .inl) fun _ => .inl
  have body := boot.body t held
  cases here : s.pc t with
  | initTest => exact still (boot.initTest held here)
  | initAuto => exact still (boot.initAuto held here)
  | initTable => exact still (boot.initTable held here)
  | initExtend => exact still (boot.initExtend unset given held here)
  | initTsd => exact still (boot.initTsd held here)
  | initNarenas => exact still (boot.initNarenas held here)
  | initRealTable => exact still (boot.initRealTable held here)
  | initFirst first => exact still (boot.initFirst held here)
  | initPool => exact (boot.initPool held here).mono (fun _ => id) fun _ => .inl
  | initPublish => exact (boot.initPublish unset held here).mono (fun _ => .inl) fun _ => .inr
  | _ =>
      rw [here] at body
      exact body.elim

/-- A turn of a thread that does not. -/
theorem Booting.turn_early (boot : Booting loaded s) (outside : s.initLock ≠ some t)
    (exits : Bool) :
    Delivers Fault.FromEnvironment (Booting loaded) (s.turn t exits (s.pc t)) := by
  have early := boot.others t outside
  cases here : s.pc t with
  | outside =>
      cases exits with
      | true => exact delivers_ok (boot.goto outside rfl)
      | false => exact delivers_ok (boot.goto outside rfl)
  | test =>
      simp only [Threaded.turn, if_pos boot.uninitialized]
      exact delivers_ok (boot.goto outside rfl)
  | initLock => exact boot.initLock
  | exited => exact delivers_ok boot
  | _ =>
      rw [here] at early
      cases early

/-- A turn before the allocator is initialised. -/
theorem Booting.turn (boot : Booting loaded s) (unset : loaded.mallocInitialized = false)
    (given : loaded.arenasTsd = fun _ => none) (exits : Bool) :
    Delivers (s.FailsIn t)
      (fun s' => Booting loaded s' ∨ ∃ p, mallocInitHard loaded = .ok p ∧ Linearized s' ⟨p, []⟩)
      (s.turn t exits (s.pc t)) := by
  by_cases held : s.initLock = some t
  · exact boot.turn_held unset given held exits
  · exact (boot.turn_early held exits).mono (fun _ => .inl) fun _ => .inl

/-! ## Runs -/

/-- The states a run of threads goes through: the allocator is being initialised, or the threads
have the effect of a sequential run. -/
def Threaded.Reached (loaded : Process) (s : Threaded) : Prop :=
  Booting loaded s ∨ ∃ p ops r, mallocInitHard loaded = .ok p ∧
    threadRun p p.narenasAuto ops = .ok r ∧ Linearized s r

/-- An arrival or an exit keeps the allocator in order. -/
theorem ThreadRun.step_ok {r r' : ThreadRun} {op : ThreadOp} (ok : r.toProcess.Ok)
    (stepped : r.step op = .ok r') : r'.toProcess.Ok := by
  cases op with
  | arrive thread =>
      simp only [ThreadRun.step] at stepped
      split at stepped
      · obtain ⟨⟨ind, p⟩, chose, stepped⟩ := Execution.bind_eq_ok.mp stepped
        cases stepped
        exact (ok.chooseArena.2 _ chose).1
      · cases stepped
  | exit thread =>
      simp only [ThreadRun.step] at stepped
      split at stepped
      · split at stepped
        · cases stepped
          exact ok
        · rename_i ind _
          obtain ⟨p, cleaned, stepped⟩ := Execution.bind_eq_ok.mp stepped
          cases stepped
          obtain ⟨arena, read, cleaned⟩ := Execution.bind_eq_ok.mp cleaned
          cases cleaned
          have here := Process.arenas_eq_some read
          have slab : SlabArena r.heap ind
              { arena with nthreads := (arena.nthreads + (2 ^ 32 - 1)) % 2 ^ 32 } :=
            (ok.arenas ind arena here).of_fields rfl rfl rfl rfl rfl
          obtain ⟨initialized, hugeTree, first, arenas, threads⟩ := ok.putArena slab (.refl _ _)
          refine ⟨initialized, hugeTree, first, arenas, ?_⟩
          intro u i given
          change Function.update r.arenasTsd thread none u = some i at given
          by_cases same : u = thread
          · rw [same, Function.update_self] at given
            cases given
          · rw [Function.update_of_ne same] at given
            exact threads u i given
      · cases stepped

/-- `malloc_init_hard` asks for an arena at least, if `sysconf` answers as it can. -/
theorem optNarenas_pos (known : -1 ≤ loaded.nprocessors) (few : loaded.nprocessors < 2 ^ 30) :
    1 ≤ optNarenas loaded := by
  unfold optNarenas mallocNcpus
  by_cases unknown : loaded.nprocessors = -1
  · rw [if_pos unknown]
    decide
  · rw [if_neg unknown]
    split
    · rw [Nat.shiftLeft_eq]
      omega
    · exact Nat.le_refl _

variable {heap : Heap} {garbage : Nat → Arena} {nprocessors : Int} {threadpool : Bool}

/-- `malloc_init_hard` gets through only with a pool of threads. -/
theorem threadpool_of_init
    (init : mallocInitHard { Process.loaded heap garbage nprocessors with
      threadpool := threadpool } = .ok p) : threadpool = true := by
  obtain ⟨p₁, extended, pool, _⟩ := mallocInitHard_effect rfl init
  obtain ⟨_, _, _, rfl⟩ := arenasExtend_effect extended
  exact pool

/-- The sequential run keeps the allocator in order and counts its threads. -/
theorem threadRun_ok {ops : List ThreadOp} {r : ThreadRun} (known : -1 ≤ nprocessors)
    (few : nprocessors < 2 ^ 30)
    (init : mallocInitHard (.loaded heap garbage nprocessors) = .ok p)
    (ran : threadRun p p.narenasAuto ops = .ok r) : r.toProcess.Ok ∧ ThreadsOk r := by
  have nonempty : 1 ≤ p.narenasAuto := by
    obtain ⟨p₁, extended, _, rfl⟩ := mallocInitHard_effect rfl init
    obtain ⟨_, _, _, rfl⟩ := arenasExtend_effect extended
    have asked : 1 ≤ optNarenas (Process.loaded heap garbage nprocessors) := optNarenas_pos known few
    exact asked
  have start : p.Ok ∧ ThreadsOk ⟨p, []⟩ :=
    ⟨(mallocInitHard_ok heap garbage nprocessors).2 p init, mallocInitHard_threadsOk init nonempty⟩
  have kept : ∀ (r : ThreadRun) op r', r.toProcess.Ok ∧ ThreadsOk r → r.step op = .ok r' →
      r'.toProcess.Ok ∧ ThreadsOk r' := by
    intro r op r' inv stepped
    exact ⟨ThreadRun.step_ok inv.1 stepped, (inv.2.step stepped).1⟩
  exact Execution.run_kept kept start ran

/-- Any turn leads to a state of a run, or fails as a turn can. -/
theorem Threaded.Reached.step
    (reached : s.Reached { Process.loaded heap garbage nprocessors with threadpool := threadpool })
    (known : -1 ≤ nprocessors) (few : nprocessors < 2 ^ 30) (turn : Turn) :
    Delivers (s.FailsIn turn.thread)
      (Threaded.Reached { Process.loaded heap garbage nprocessors with threadpool := threadpool })
      (s.step turn) := by
  unfold Threaded.step
  split
  · rename_i named
    rcases reached with boot | ⟨p, ops, r, init, ran, lin⟩
    · refine (boot.turn rfl rfl turn.exits).mono (fun _ => id) ?_
      rintro s' (boot' | ⟨p, init, lin⟩)
      · exact .inl boot'
      · exact .inr ⟨p, [], _, init, rfl, lin⟩
    · obtain rfl := threadpool_of_init init
      obtain ⟨ok, threadsOk⟩ := threadRun_ok known few init ran
      refine (lin.turn ok threadsOk named turn.exits).mono (fun _ => .inl) ?_
      rintro s' ⟨r', lin', rfl | ⟨op, stepped⟩⟩
      · exact .inr ⟨p, ops, r', init, ran, lin'⟩
      · refine .inr ⟨p, ops ++ [op], r', init, ?_, lin'⟩
        exact Execution.run_append_eq_ok.mpr
          ⟨r, ran, Execution.run_cons_eq_ok.mpr ⟨r', stepped, rfl⟩⟩
  · exact delivers_error (.inl (.inr rfl))

/-- No thread has done anything at the start. -/
theorem Threaded.reached_loaded (threadpool : Bool) :
    Threaded.Reached { Process.loaded heap garbage nprocessors with threadpool := threadpool }
      { Threaded.loaded heap garbage nprocessors with threadpool := threadpool } :=
  .inl ⟨rfl, rfl, rfl, rfl, fun _ => rfl, nofun, fun _ _ => rfl⟩

/-- Every order of turns leads to a state that is reached. -/
theorem Threaded.reached_of_run {turns : List Turn} (known : -1 ≤ nprocessors)
    (few : nprocessors < 2 ^ 30) (reached : threadedRun heap garbage nprocessors turns = .ok s) :
    s.Reached (.loaded heap garbage nprocessors) := by
  have kept : ∀ (s : Threaded) turn s', s.Reached (.loaded heap garbage nprocessors) →
      s.step turn = .ok s' → s'.Reached (.loaded heap garbage nprocessors) :=
    fun _ turn s' here stepped => (Threaded.Reached.step here known few turn).2 s' stepped
  exact Execution.run_kept kept (Threaded.reached_loaded true) reached

/-- **Interleaved threads take effect one after another.** In every state that any order of turns
leads to, once `malloc_initialized` is set, `malloc_init_hard` has run once, and the arenas are
those that some order of whole arrivals and exits leads to, with the same threads counted. -/
theorem threadedRun_linearizes {turns : List Turn} (known : -1 ≤ nprocessors)
    (few : nprocessors < 2 ^ 30) (reached : threadedRun heap garbage nprocessors turns = .ok s)
    (initialized : s.mallocInitialized = true) :
    ∃ p ops r, mallocInitHard (.loaded heap garbage nprocessors) = .ok p ∧
      threadRun p p.narenasAuto ops = .ok r ∧ r.arenasTsd = s.counted ∧
      (∀ t, t ∈ r.threads ↔ s.counted t ≠ none) ∧
      (s.arenasLock = none → r.toProcess = s.toProcess.withTsd s.counted) := by
  rcases Threaded.reached_of_run known few reached with boot | ⟨p, ops, r, init, ran, lin⟩
  · rw [boot.uninitialized] at initialized
    cases initialized
  · have tsd : r.arenasTsd = s.counted := funext lin.counted
    exact ⟨p, ops, r, init, ran, tsd, lin.threads, tsd ▸ lin.free⟩

/-! ## No thread waits for ever -/

/-- Where a thread waits, or has nothing more to do. -/
def Threaded.waits (s : Threaded) : ThreadPc → Bool
  | .exited => true
  | .initLock => s.initLock.isSome
  | .lockMany _ | .lockOne | .cleanupLock _ => s.arenasLock.isSome
  | _ => false

/-- A thread that asks for `arenas_lock` moves on, unless somebody has it. -/
theorem Threaded.takeArenasLock_moves {goal : ThreadPc} (different : goal ≠ pc) :
    (s.takeArenasLock t goal = s ∧ s.arenasLock.isSome = true) ∨
      ∃ pc', pc' ≠ pc ∧ (s.takeArenasLock t goal).pc = Function.update s.pc t pc' := by
  unfold Threaded.takeArenasLock
  split
  · exact .inr ⟨goal, different, rfl⟩
  · rename_i held
    exact .inl ⟨rfl, by rw [held]; rfl⟩

/-- The same of `init_lock`. -/
theorem Threaded.takeInitLock_moves :
    (s.takeInitLock t = s ∧ s.initLock.isSome = true) ∨
      ∃ pc', pc' ≠ .initLock ∧ (s.takeInitLock t).pc = Function.update s.pc t pc' := by
  unfold Threaded.takeInitLock
  split
  · exact .inr ⟨.initTest, by simp, rfl⟩
  · rename_i held
    exact .inl ⟨rfl, by rw [held]; rfl⟩

/-- A turn moves the thread, and no other, unless it waits. -/
theorem Threaded.turn_moves {exits : Bool} (taken : s.turn t exits pc = .ok s') :
    (s' = s ∧ s.waits pc = true) ∨ ∃ pc', pc' ≠ pc ∧ s'.pc = Function.update s.pc t pc' := by
  cases pc with
  | outside =>
      cases taken
      cases exits with
      | true => exact .inr ⟨.exited, by simp, rfl⟩
      | false => exact .inr ⟨.test, by simp, rfl⟩
  | test =>
      cases taken
      refine .inr ⟨_, ?_, rfl⟩
      split <;> simp
  | initLock =>
      cases taken
      exact Threaded.takeInitLock_moves
  | initTest =>
      cases taken
      refine .inr ⟨_, ?_, rfl⟩
      split <;> simp
  | initPool =>
      simp only [Threaded.turn] at taken
      split at taken
      · cases taken
        exact .inr ⟨.initPublish, by simp, rfl⟩
      · cases taken
  | initAuto | initTable | initTsd | initNarenas | initFirst | initPublish | initUnlock | unlock
  | cleanupUnlock =>
      cases taken
      refine .inr ⟨_, ?_, rfl⟩
      simp
  | initExtend | initRealTable | extend | load | store | cleanupLoad | cleanupStore =>
      obtain ⟨made, _, taken⟩ := Execution.bind_eq_ok.mp taken
      cases taken
      refine .inr ⟨_, ?_, rfl⟩
      simp
  | choose =>
      simp only [Threaded.turn] at taken
      split at taken
      · cases taken
        refine .inr ⟨_, ?_, rfl⟩
        split <;> simp
      · cases taken
  | chooseHard =>
      cases taken
      refine .inr ⟨_, ?_, rfl⟩
      split <;> simp
  | lockMany firstNull =>
      simp only [Threaded.turn] at taken
      split at taken
      · cases taken
      · cases taken
        exact Threaded.takeArenasLock_moves (by simp)
  | lockOne =>
      cases taken
      exact Threaded.takeArenasLock_moves (by simp)
  | scan i chosen firstNull =>
      simp only [Threaded.turn] at taken
      split at taken
      · cases taken
        refine .inr ⟨_, ?_, rfl⟩
        simp
      · split at taken
        · cases taken
          refine .inr ⟨_, ?_, rfl⟩
          simp
        · cases taken
          refine .inr ⟨_, ?_, rfl⟩
          simp
  | assign ind =>
      simp only [Threaded.turn] at taken
      split at taken
      · cases taken
        exact .inr ⟨.ready, by simp, rfl⟩
      · cases taken
  | ready =>
      cases taken
      refine .inr ⟨_, ?_, rfl⟩
      split
      · split <;> simp
      · simp
  | cleanupLock ind =>
      cases taken
      exact Threaded.takeArenasLock_moves (by simp)
  | exited =>
      cases taken
      exact .inl ⟨rfl, rfl⟩

/-- What holds of interleaved threads in every state. -/
structure Threaded.Safe (s : Threaded) : Prop where
  /-- Before `malloc_initialized` is set only the holder of `init_lock` is behind the lock. -/
  guarded : s.mallocInitialized = false → ∀ t, s.initLock ≠ some t → (s.pc t).early = true
  initialises : ∀ t u, (s.pc t).initialises = true → (s.pc u).initialises = true → t = u
  locked : ∀ t u, (s.pc t).locked = true → (s.pc u).locked = true → t = u
  /-- The arena that counts a thread is there. -/
  present : ∀ t ind, s.counted t = some ind → s.arenas ind ≠ none
  /-- No thread waits for ever: one of those in a call can go on. -/
  moves : ∀ t, (s.pc t).resting = false → ∃ u, u < 2 ^ 31 ∧ (s.pc u).resting = false ∧
    ∀ s', s.step ⟨u, false⟩ = .ok s' → s'.pc u ≠ s.pc u

/-- Only threads with a thread id have left the start. -/
def Threaded.Named (s : Threaded) : Prop := ∀ t, s.pc t ≠ .outside → t < 2 ^ 31

theorem Threaded.Named.step {turn : Turn} (named : s.Named) (stepped : s.step turn = .ok s') :
    s'.Named := by
  unfold Threaded.step at stepped
  split at stepped
  · rename_i isId
    rcases Threaded.turn_moves stepped with ⟨rfl, _⟩ | ⟨pc', _, moved⟩
    · exact named
    · intro t started
      rw [moved] at started
      by_cases same : t = turn.thread
      · rw [same]
        exact isId
      · rw [Function.update_of_ne same] at started
        exact named t started
  · cases stepped

/-- A thread that does not wait goes on in its turn. -/
theorem Threaded.step_moves (named : s.Named) (started : s.pc t ≠ .outside)
    (goes : s.waits (s.pc t) = false) (stepped : s.step ⟨t, false⟩ = .ok s') :
    s'.pc t ≠ s.pc t := by
  unfold Threaded.step at stepped
  rw [if_pos (named t started)] at stepped
  rcases Threaded.turn_moves stepped with ⟨_, waits⟩ | ⟨pc', different, moved⟩
  · rw [goes] at waits
    cases waits
  · rw [moved]
    change Function.update s.pc t pc' t ≠ s.pc t
    rwa [Function.update_self]

/-- Who holds a lock does not wait for one. -/
theorem ThreadPc.goes_of_initialises (holds : pc.initialises = true) :
    pc ≠ .outside ∧ pc.resting = false ∧ s.waits pc = false := by
  cases pc <;> first | exact ⟨nofun, rfl, rfl⟩ | cases holds

theorem ThreadPc.goes_of_locked (holds : pc.locked = true) :
    pc ≠ .outside ∧ pc.resting = false ∧ s.waits pc = false := by
  cases pc <;> first | exact ⟨nofun, rfl, rfl⟩ | cases holds

/-- If who holds a lock is behind it, some thread in a call goes on. -/
theorem Threaded.exists_moves (named : s.Named)
    (initLock : ∀ t, s.initLock = some t → (s.pc t).initialises = true)
    (arenasLock : ∀ t, s.arenasLock = some t → (s.pc t).locked = true)
    (calls : (s.pc t).resting = false) :
    ∃ u, u < 2 ^ 31 ∧ (s.pc u).resting = false ∧
      ∀ s', s.step ⟨u, false⟩ = .ok s' → s'.pc u ≠ s.pc u := by
  have goes : ∀ u, s.pc u ≠ .outside ∧ (s.pc u).resting = false ∧ s.waits (s.pc u) = false →
      ∃ u, u < 2 ^ 31 ∧ (s.pc u).resting = false ∧
        ∀ s', s.step ⟨u, false⟩ = .ok s' → s'.pc u ≠ s.pc u :=
    fun u ⟨started, calls, goes⟩ =>
      ⟨u, named u started, calls, fun _ stepped => Threaded.step_moves named started goes stepped⟩
  have started : s.pc t ≠ .outside := by
    intro outside
    rw [outside] at calls
    cases calls
  cases waits : s.waits (s.pc t) with
  | false => exact goes t ⟨started, calls, waits⟩
  | true =>
      -- The lock it waits for is held, and the holder goes on.
      have held : s.initLock.isSome = true ∨ s.arenasLock.isSome = true := by
        cases here : s.pc t with
        | exited =>
            rw [here] at calls
            cases calls
        | initLock =>
            rw [here] at waits
            exact .inl waits
        | lockMany | lockOne | cleanupLock =>
            rw [here] at waits
            exact .inr waits
        | _ =>
            rw [here] at waits
            cases waits
      rcases held with held | held
      · obtain ⟨u, holder⟩ := Option.isSome_iff_exists.mp held
        exact goes u (ThreadPc.goes_of_initialises (initLock u holder))
      · obtain ⟨u, holder⟩ := Option.isSome_iff_exists.mp held
        exact goes u (ThreadPc.goes_of_locked (arenasLock u holder))

/-- Nothing behind `init_lock` is early, and nothing in the body counts a thread. -/
theorem Booting.body_cases {booted : Bool}
    (body : pc.Body loaded p booted) : pc.initialises = true ∧
    pc.locked = false ∧ pc.counted none = none := by
  cases pc <;> first | exact ⟨rfl, rfl, rfl⟩ | exact body.elim

theorem ThreadPc.early_cases (early : pc.early = true) : pc.initialises = false ∧
    pc.locked = false ∧ pc.counted none = none := by
  cases pc <;> first | exact ⟨rfl, rfl, rfl⟩ | cases early

/-- No thread is counted before the allocator is initialised. -/
theorem Booting.uncounted (boot : Booting loaded s) (t : Nat) : s.counted t = none := by
  rw [Threaded.counted, boot.arenasTsd]
  by_cases held : s.initLock = some t
  · exact (Booting.body_cases (boot.body t held)).2.2
  · exact (ThreadPc.early_cases (boot.others t held)).2.2

/-- The states of a run are safe. -/
theorem Threaded.Reached.safe
    (reached : s.Reached { Process.loaded heap garbage nprocessors with threadpool := threadpool })
    (named : s.Named) (known : -1 ≤ nprocessors) (few : nprocessors < 2 ^ 30) : s.Safe := by
  rcases reached with boot | ⟨p, ops, r, init, ran, lin⟩
  · have holds : ∀ t, s.initLock = some t ↔ (s.pc t).initialises = true := by
      intro t
      by_cases held : s.initLock = some t
      · exact ⟨fun _ => (Booting.body_cases (boot.body t held)).1, fun _ => held⟩
      · rw [(ThreadPc.early_cases (boot.others t held)).1]
        simpa using held
    have uncounted := boot.uncounted
    have unlocked : ∀ t, (s.pc t).locked = false := by
      intro t
      by_cases held : s.initLock = some t
      · exact (Booting.body_cases (boot.body t held)).2.1
      · exact (ThreadPc.early_cases (boot.others t held)).2.1
    constructor
    case guarded => exact fun _ => boot.others
    case initialises =>
      intro t u first second
      exact Option.some.inj (((holds t).mpr first).symm.trans ((holds u).mpr second))
    case locked =>
      intro t u first
      rw [unlocked t] at first
      cases first
    case present =>
      intro t ind counted
      rw [uncounted t] at counted
      cases counted
    case moves =>
      refine fun t => Threaded.exists_moves named (fun u => (holds u).mp) ?_
      intro u held
      rw [boot.arenasLock] at held
      cases held
  · obtain rfl := threadpool_of_init init
    obtain ⟨_, threadsOk⟩ := threadRun_ok known few init ran
    constructor
    case guarded =>
      intro unset
      rw [lin.initialized] at unset
      cases unset
    case initialises =>
      intro t u first second
      exact Option.some.inj (((lin.initLock t).mpr first).symm.trans ((lin.initLock u).mpr second))
    case locked =>
      intro t u first second
      exact Option.some.inj
        (((lin.arenasLock t).mpr first).symm.trans ((lin.arenasLock u).mpr second))
    case present =>
      intro t ind counted
      have member : t ∈ r.threads := (lin.threads t).mpr (by simp [counted])
      obtain ⟨other, given, there⟩ := threadsOk.present t member
      rw [lin.counted t, counted, Option.some.injEq] at given
      rw [given]
      exact lin.present other there
    case moves =>
      exact fun t => Threaded.exists_moves named (fun u => (lin.initLock u).mp) fun u =>
        (lin.arenasLock u).mp

/-- Only without a pool of threads a turn fails for anything but the environment. -/
theorem Threaded.Reached.failsIn {fault : Fault}
    (reached : s.Reached { Process.loaded heap garbage nprocessors with threadpool := threadpool })
    (fails : s.FailsIn t fault) :
    fault.FromEnvironment ∨ threadpool = false ∧ fault = .abort := by
  rcases fails with environment | ⟨here, missing, aborts⟩
  · exact .inl environment
  rcases reached with boot | ⟨p, ops, r, init, ran, lin⟩
  · exact .inr ⟨boot.threadpool.symm.trans missing, aborts⟩
  · have facts := lin.facts t
    rw [here] at facts
    exact facts.elim

/-- The allocator is initialised only with a pool of threads. -/
theorem Threaded.Reached.threadpool_of_initialized
    (reached : s.Reached { Process.loaded heap garbage nprocessors with threadpool := threadpool })
    (initialized : s.mallocInitialized = true) : threadpool = true := by
  rcases reached with boot | ⟨p, ops, r, init, ran, lin⟩
  · rw [boot.uninitialized] at initialized
    cases initialized
  · exact threadpool_of_init init

/-- **Interleaved threads are safe.** In any order of turns, whether or not `threadpool_create`
returns a pool, the one assertion that fails is that it did, and then the allocator is never
initialised. No `NULL` is followed; one thread at a time is behind each lock, none is past
`init_lock` before the allocator is initialised, every counted thread's arena is there, and some
thread in a call can always go on. -/
theorem threadedRun_safe (known : -1 ≤ nprocessors) (few : nprocessors < 2 ^ 30)
    (threadpool : Bool) (turns : List Turn) :
    Delivers (fun fault => fault.FromEnvironment ∨ threadpool = false ∧ fault = .abort)
      (fun s => s.Safe ∧ (s.mallocInitialized = true → threadpool = true) ∧
        ∀ turn : Turn, Execution.FailsOnly (s.FailsIn turn.thread) (s.step turn))
      (threadedRunWith heap garbage nprocessors threadpool turns) := by
  let Reached (s : Threaded) : Prop :=
    s.Reached { Process.loaded heap garbage nprocessors with threadpool := threadpool }
  have stepped : ∀ (s : Threaded) turn, Reached s ∧ s.Named → True →
      Delivers (fun fault => fault.FromEnvironment ∨ threadpool = false ∧ fault = .abort)
        (fun s' => Reached s' ∧ s'.Named) (s.step turn) := by
    rintro s turn ⟨reached, named⟩ _
    obtain ⟨fails, kept⟩ := reached.step known few turn
    exact ⟨fun fault failed => reached.failsIn (fails fault failed),
      fun s' done => ⟨kept s' done, named.step done⟩⟩
  have start : Threaded.Named
      { Threaded.loaded heap garbage nprocessors with threadpool := threadpool } :=
    fun _ started => absurd rfl started
  refine (Execution.run_delivers stepped ⟨Threaded.reached_loaded _, start⟩ fun _ _ => trivial).mono
    (fun _ => id) ?_
  rintro s ⟨reached, named⟩
  exact ⟨Threaded.Reached.safe reached named known few, Threaded.Reached.threadpool_of_initialized reached,
    fun turn => (Threaded.Reached.step reached known few turn).1⟩

/-- The arenas that are made before the allocator is initialised have no threads. -/
theorem Booting.nthreads {arena : Arena} {ind : Nat} (boot : Booting loaded s)
    (empty : loaded.arenas = fun _ => none) (here : s.arenas ind = some arena) :
    arena.nthreads = 0 := by
  have first : ∀ p₁, arenasExtend loaded.bare 0 = .ok p₁ → p₁.arenas ind = some arena →
      arena.nthreads = 0 := by
    intro p₁ extended there
    obtain ⟨heap, made, noThreads, rfl⟩ := arenasExtend_effect extended
    change Function.update (fun _ => none) 0 (some made) ind = some arena at there
    by_cases same : ind = 0
    · subst same
      rw [Function.update_self] at there
      rwa [← Option.some.inj there]
    · rw [Function.update_of_ne same] at there
      cases there
  have none_made : s.arenas = (fun _ => none) → arena.nthreads = 0 := by
    intro none
    rw [none] at here
    cases here
  by_cases free : s.initLock = none
  · exact none_made (by rw [boot.untouched free, empty])
  obtain ⟨t, held⟩ := Option.ne_none_iff_exists'.mp free
  have body := boot.body t held
  cases place : s.pc t with
  | initTest | initAuto =>
      rw [place] at body
      exact none_made ((congrArg Process.arenas body).trans empty)
  | initTable =>
      rw [place] at body
      exact none_made ((congrArg Process.arenas body).trans empty)
  | initExtend =>
      rw [place] at body
      exact none_made (congrArg Process.arenas body)
  | initTsd =>
      rw [place] at body
      exact first _ body here
  | initNarenas =>
      rw [place] at body
      exact first _ body.2 here
  | initRealTable | initPool =>
      rw [place] at body
      obtain ⟨_, p₁, extended, same⟩ := body
      exact first p₁ extended ((congrArg (·.arenas ind) same).symm.trans here)
  | initFirst =>
      rw [place] at body
      obtain ⟨_, p₁, _, _, same⟩ := body
      exact none_made (congrArg Process.arenas same)
  | initPublish =>
      rw [place] at body
      obtain ⟨_, _, p₁, extended, same⟩ := body
      exact first p₁ extended ((congrArg (·.arenas ind) same).symm.trans here)
  | _ =>
      rw [place] at body
      exact body.elim

/-- **Interleaved threads are counted.** Whenever `arenas_lock` is free, `nthreads` of each arena
is the number of threads that have it. -/
theorem threadedRun_counted {turns : List Turn} (known : -1 ≤ nprocessors)
    (few : nprocessors < 2 ^ 30) (reached : threadedRun heap garbage nprocessors turns = .ok s)
    (free : s.arenasLock = none) :
    ∃ threads : List Nat, threads.Nodup ∧ (∀ t, t ∈ threads ↔ s.counted t ≠ none) ∧
      ∀ ind arena, s.arenas ind = some arena →
        arena.nthreads = threads.countP fun t => s.counted t = some ind := by
  rcases Threaded.reached_of_run known few reached with boot | ⟨p, ops, r, init, ran, lin⟩
  · refine ⟨[], List.nodup_nil, fun t => ?_, fun ind arena here => boot.nthreads rfl here⟩
    simp [boot.uncounted t]
  · obtain ⟨_, threadsOk⟩ := threadRun_ok known few init ran
    have same : r.arenas = s.arenas := by rw [lin.free free]; rfl
    have tsd : r.arenasTsd = s.counted := funext lin.counted
    refine ⟨r.threads, threadsOk.distinct, lin.threads, fun ind arena here => ?_⟩
    rw [← tsd]
    exact threadsOk.counted ind arena (by rwa [same])

/-- Two threads that take turns, on two processors. -/
def twoThreads : List Turn := (List.replicate 45 [⟨0, false⟩, ⟨1, false⟩]).flatten

theorem threadedRun_linearizes_of_twoThreads :
    ∃ s, threadedRun (.fresh [chunksize, 2 ^ 30] []) (fun _ => .zeroed) 2 twoThreads = .ok s ∧
      ∃ p ops r, mallocInitHard (.loaded (.fresh [chunksize, 2 ^ 30] []) (fun _ => .zeroed) 2) =
          .ok p ∧ threadRun p p.narenasAuto ops = .ok r ∧ r.arenasTsd = s.counted ∧
        (∀ t, t ∈ r.threads ↔ s.counted t ≠ none) ∧
        (s.arenasLock = none → r.toProcess = s.toProcess.withTsd s.counted) := by
  obtain ⟨s, reached, initialized⟩ : ∃ s, threadedRun (.fresh [chunksize, 2 ^ 30] [])
      (fun _ => .zeroed) 2 twoThreads = .ok s ∧ s.mallocInitialized = true :=
    Execution.exists_eq_ok_and (by decide +kernel)
  exact ⟨s, reached, threadedRun_linearizes (by decide) (by decide) reached initialized⟩

/-- With a pool of threads, and with none, where the process aborts. -/
theorem threadedRun_safe_of_twoThreads :
    (∃ s, threadedRunWith (.fresh [chunksize, 2 ^ 30] []) (fun _ => .zeroed) 2 true twoThreads =
        .ok s ∧ s.mallocInitialized = true ∧ s.Safe) ∧
      threadedRunWith (.fresh [chunksize, 2 ^ 30] []) (fun _ => .zeroed) 2 false twoThreads =
        .error .abort ∧
      Delivers (fun fault => fault.FromEnvironment ∨ false = false ∧ fault = .abort)
        (fun s => s.Safe ∧ (s.mallocInitialized = true → false = true) ∧
          ∀ turn : Turn, Execution.FailsOnly (s.FailsIn turn.thread) (s.step turn))
        (threadedRunWith (.fresh [chunksize, 2 ^ 30] []) (fun _ => .zeroed) 2 false twoThreads) := by
  obtain ⟨s, reached, initialized⟩ : ∃ s, threadedRunWith (.fresh [chunksize, 2 ^ 30] [])
      (fun _ => .zeroed) 2 true twoThreads = .ok s ∧ s.mallocInitialized = true :=
    Execution.exists_eq_ok_and (by decide +kernel)
  have safe := (threadedRun_safe (by decide) (by decide) true twoThreads).2 s reached
  refine ⟨⟨s, reached, initialized, safe.1⟩, Execution.eq_error (by decide +kernel), ?_⟩
  exact threadedRun_safe (by decide) (by decide) false twoThreads

theorem threadedRun_counted_of_twoThreads :
    ∃ s, threadedRun (.fresh [chunksize, 2 ^ 30] []) (fun _ => .zeroed) 2 twoThreads = .ok s ∧
      s.arenasTsd 0 = some 0 ∧ s.arenasTsd 1 = some 1 ∧
      ∃ threads : List Nat, threads.Nodup ∧ (∀ t, t ∈ threads ↔ s.counted t ≠ none) ∧
        ∀ ind arena, s.arenas ind = some arena →
          arena.nthreads = threads.countP fun t => s.counted t = some ind := by
  obtain ⟨s, reached, free, first, second⟩ : ∃ s,
      threadedRun (.fresh [chunksize, 2 ^ 30] []) (fun _ => .zeroed) 2 twoThreads = .ok s ∧
        s.arenasLock = none ∧ s.arenasTsd 0 = some 0 ∧
        s.arenasTsd 1 = some 1 := Execution.exists_eq_ok_and (by decide +kernel)
  exact ⟨s, reached, first, second,
    threadedRun_counted (by decide) (by decide) reached free⟩

end Lsmalloc
