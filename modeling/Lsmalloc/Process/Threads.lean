import Mathlib.Data.List.Range
import Lsmalloc.Process.Model

/-!
# Threads and their arenas

A thread is given an arena by `choose_arena_hard` and leaves it in `arenas_cleanup`. In any
order of arrivals and exits `nthreads` counts the threads an arena has, an arriving thread
gets an arena with the fewest threads, and a slot that is in use is never given another
arena (`threadRun_balanced`).
-/

namespace Lsmalloc

/-- `arenas_cleanup`, for the arena of the given index. -/
def arenasCleanup (p : Process) (ind : Nat) : Except Fault Process := do
  let arena ← p.arena ind
  .ok (p.putArena ind { arena with nthreads := (arena.nthreads + (2 ^ 32 - 1)) % 2 ^ 32 })

/-- The threads assigned to a slot, by its `nthreads`; an uninitialised slot has none. -/
def Process.load (p : Process) (ind : Nat) : Nat := ((p.arenas ind).map Arena.nthreads).getD 0

/-- A process with the threads that have come and not gone. -/
structure ThreadRun extends Process where
  threads : List Nat

/-- What threads do to the arenas. -/
inductive ThreadOp
  /-- The first `choose_arena` of a thread. -/
  | arrive (thread : Nat)
  /-- The end of a thread. -/
  | exit (thread : Nat)
deriving DecidableEq, Repr

/-- One arrival or exit. A thread goes by its thread id, a `pid_t`. At its end the
destructor of `arenas_tsd` is called for the arena it was given, if there is one. -/
def ThreadRun.step (s : ThreadRun) : ThreadOp → Except Fault ThreadRun
  | .arrive thread =>
      if thread < 2 ^ 31 ∧ thread ∉ s.threads then do
        let (_, p) ← chooseArena s.toProcess thread
        .ok ⟨p, thread :: s.threads⟩
      else .error .contract
  | .exit thread =>
      if thread ∈ s.threads then
        match s.arenasTsd thread with
        | none => .ok { s with threads := s.threads.erase thread }
        | some ind => do
            let p ← arenasCleanup s.toProcess ind
            .ok ⟨{ p with arenasTsd := Function.update p.arenasTsd thread none },
              s.threads.erase thread⟩
      else .error .contract

/-- The threads that were given the arena and have not exited. -/
def ThreadRun.assigned (s : ThreadRun) (ind : Nat) : Nat :=
  s.threads.countP fun t => s.arenasTsd t = some ind

/-- `malloc_init_hard` with any `narenas_auto`, then arrivals and exits. -/
def threadRun (p : Process) (narenasAuto : Nat) (ops : List ThreadOp) : Except Fault ThreadRun :=
  Execution.run ThreadRun.step ⟨{ p with narenasAuto := narenasAuto }, []⟩ ops

/-! ## The choice -/

variable {p p' : Process} {thread ind : Nat} {arena : Arena}

theorem Process.load_of_some (present : p.arenas ind = some arena) :
    p.load ind = arena.nthreads := by
  simp [Process.load, present]

theorem Process.load_of_none (missing : p.arenas ind = none) : p.load ind = 0 := by
  simp [Process.load, missing]

/-- What the loop of `choose_arena_hard` has found among the slots below `bound`. -/
structure Scanned (p : Process) (bound : Nat) (found : Nat × Nat) : Prop where
  below : found.1 < bound
  present : p.arenas found.1 ≠ none
  least : ∀ j < bound, p.arenas j ≠ none → p.load found.1 ≤ p.load j
  full : found.2 = p.narenasAuto → ∀ j < bound, p.arenas j ≠ none
  hole : found.2 ≠ p.narenasAuto → found.2 < bound ∧ p.arenas found.2 = none

/-- One round looks at the next slot. -/
theorem Scanned.round {bound : Nat} {found : Nat × Nat} (scanned : Scanned p bound found)
    (inside : bound < p.narenasAuto) : Scanned p (bound + 1) (chooseRound p found bound) := by
  obtain ⟨below, present, least, full, hole⟩ := scanned
  have step : ∀ {P : Nat → Prop}, (∀ j < bound, P j) → P bound → ∀ j < bound + 1, P j := by
    intro P before here j small
    rcases Nat.lt_or_eq_of_le (Nat.le_of_lt_succ small) with earlier | rfl
    · exact before j earlier
    · exact here
  unfold chooseRound
  cases slot : p.arenas bound with
  | some arena =>
      have load : p.load bound = arena.nthreads := Process.load_of_some slot
      have there : p.arenas bound ≠ none := by simp [slot]
      simp only
      split
      · rename_i fewer
        have fewer : p.load bound < p.load found.1 := by
          rw [load]
          exact fewer
        refine ⟨Nat.lt_succ_self _, there, ?_, fun same => step (full same) there, ?_⟩
        · refine step (fun j earlier here => ?_) fun _ => Nat.le_refl _
          exact Nat.le_trans (Nat.le_of_lt fewer) (least j earlier here)
        · intro other
          exact ⟨Nat.lt_succ_of_lt (hole other).1, (hole other).2⟩
      · rename_i notFewer
        have notFewer : p.load found.1 ≤ p.load bound := by
          rw [load]
          exact Nat.le_of_not_lt notFewer
        refine ⟨Nat.lt_succ_of_lt below, present, step least fun _ => notFewer,
          fun same => step (full same) there, ?_⟩
        intro other
        exact ⟨Nat.lt_succ_of_lt (hole other).1, (hole other).2⟩
  | none =>
      have kept : ∀ j < bound + 1, p.arenas j ≠ none → p.load found.1 ≤ p.load j :=
        step least fun here => absurd slot here
      simp only
      split
      · exact ⟨Nat.lt_succ_of_lt below, present, kept, fun same => absurd same (Nat.ne_of_lt inside),
          fun _ => ⟨Nat.lt_succ_self _, slot⟩⟩
      · rename_i already
        exact ⟨Nat.lt_succ_of_lt below, present, kept, fun same => absurd same already,
          fun other => ⟨Nat.lt_succ_of_lt (hole other).1, (hole other).2⟩⟩

/-- The loop looks at every slot. -/
theorem scanned_all (first : p.arenas 0 ≠ none) (count : Nat) (inside : count < p.narenasAuto) :
    Scanned p (count + 1) ((List.range' 1 count).foldl (chooseRound p) (0, p.narenasAuto)) := by
  induction count with
  | zero =>
      have only : ∀ j < 1, j = 0 := by omega
      refine ⟨Nat.lt_one_iff.mpr rfl, first, ?_, ?_, fun other => absurd rfl other⟩
      · intro j below _
        rw [only j below]
        exact Nat.le_refl _
      · intro _ j below
        rw [only j below]
        exact first
  | succ count ih =>
      rw [List.range'_1_concat, List.foldl_append, Nat.add_comm 1 count]
      exact (ih (Nat.lt_of_succ_lt inside)).round inside

/-- What `choose_arena_hard` leaves: one thread more in a slot with the fewest, which is a
new arena as long as some slot has none and no arena is idle. -/
structure ArenaChosen (p p' : Process) (thread ind : Nat) : Prop where
  inside : ind < p.narenasAuto
  least : ∀ j < p.narenasAuto, p.load ind ≤ p.load j
  full : p.load ind ≠ 0 → ∀ j < p.narenasAuto, p.arenas j ≠ none
  arenas : ∃ arena, arena.nthreads = p.load ind ∧ (∀ old, p.arenas ind = some old → arena = old) ∧
    p'.arenas = Function.update p.arenas ind
      (some { arena with nthreads := (arena.nthreads + 1) % 2 ^ 32 })
  arenasTsd : p'.arenasTsd = Function.update p.arenasTsd thread (some ind)
  narenasAuto : p'.narenasAuto = p.narenasAuto

/-- `arenas_extend` puts an arena without threads in the slot. -/
theorem arenasExtend_effect (extended : arenasExtend p ind = .ok p') :
    ∃ heap arena, arena.nthreads = 0 ∧ p' = { p.putArena ind arena with heap := heap } := by
  obtain ⟨⟨heap, arena⟩, made, extended⟩ := Execution.bind_eq_ok.mp extended
  obtain ⟨⟨w, pool⟩, _, made⟩ := Execution.bind_eq_ok.mp made
  cases made
  cases extended
  exact ⟨_, _, rfl, rfl⟩

/-- The arena that is assigned gets one thread more. -/
theorem assignArena_effect {made : Nat × Process} (assigned : assignArena p thread ind = .ok made) :
    made.1 = ind ∧ ∃ arena, p.arenas ind = some arena ∧
      made.2 = { p.putArena ind { arena with nthreads := (arena.nthreads + 1) % 2 ^ 32 } with
        arenasTsd := Function.update p.arenasTsd thread (some ind) } := by
  obtain ⟨arena, found, assigned⟩ := Execution.bind_eq_ok.mp assigned
  cases assigned
  refine ⟨rfl, arena, ?_, rfl⟩
  unfold Process.arena at found
  cases slot : p.arenas ind with
  | none => simp [slot] at found
  | some other => simpa [slot] using found

/-- The slot that is chosen gets one thread more. -/
theorem assignArena_chosen {made : Nat × Process} (assigned : assignArena p thread ind = .ok made)
    (inside : ind < p.narenasAuto) (least : ∀ j < p.narenasAuto, p.load ind ≤ p.load j)
    (full : p.load ind ≠ 0 → ∀ j < p.narenasAuto, p.arenas j ≠ none) :
    made.1 = ind ∧ ArenaChosen p made.2 thread ind := by
  obtain ⟨same, arena, present, effect⟩ := assignArena_effect assigned
  rw [effect]
  refine ⟨same, inside, least, full, ⟨arena, (Process.load_of_some present).symm, ?_, rfl⟩, rfl, rfl⟩
  intro old here
  exact Option.some.inj (present.symm.trans here)

/-- A slot without an arena gets one, with its first thread. -/
theorem arenasExtend_chosen {p₁ : Process} {made : Nat × Process}
    (extended : arenasExtend p ind = .ok p₁) (assigned : assignArena p₁ thread ind = .ok made)
    (inside : ind < p.narenasAuto) (missing : p.arenas ind = none) :
    made.1 = ind ∧ ArenaChosen p made.2 thread ind := by
  obtain ⟨heap, arena, noThreads, rfl⟩ := arenasExtend_effect extended
  obtain ⟨same, arena', found, effect⟩ := assignArena_effect assigned
  have isNew : arena' = arena :=
    Option.some.inj (found.symm.trans (Process.putArena_self p ind arena))
  have zero : p.load ind = 0 := Process.load_of_none missing
  rw [effect, isNew]
  refine ⟨same, inside, ?_, fun loaded => absurd zero loaded, ?_, rfl, rfl⟩
  · intro j _
    rw [zero]
    exact Nat.zero_le _
  · refine ⟨arena, noThreads.trans zero.symm, ?_, Function.update_idem ..⟩
    intro old here
    rw [missing] at here
    cases here

/-- **The choice.** `choose_arena_hard` gives the thread a slot with the fewest threads. -/
theorem chooseArenaHard_chosen {made : Nat × Process} (first : p.arenas 0 ≠ none)
    (nonempty : 1 ≤ p.narenasAuto) (chose : chooseArenaHard p thread = .ok made) :
    ArenaChosen p made.2 thread made.1 := by
  unfold chooseArenaHard at chose
  split at chose
  · rename_i several
    cases slot : p.arenas 0 with
    | none => exact absurd slot first
    | some arena₀ =>
        simp only [slot] at chose
        have scanned := scanned_all first (p.narenasAuto - 1) (by omega)
        have whole : p.narenasAuto - 1 + 1 = p.narenasAuto := by omega
        rw [whole] at scanned
        generalize (List.range' 1 (p.narenasAuto - 1)).foldl (chooseRound p) (0, p.narenasAuto) =
          found at chose scanned
        obtain ⟨choose, firstNull⟩ := found
        obtain ⟨below, present, least, full, hole⟩ := scanned
        simp only at chose below present least full hole
        split at chose
        · -- An idle arena, or the least loaded one when every slot has an arena.
          rename_i reuse
          have fewest : ∀ j < p.narenasAuto, p.load choose ≤ p.load j := by
            intro j small
            rcases reuse with idle | noHole
            · have zero : p.load choose = 0 := idle
              rw [zero]
              exact Nat.zero_le _
            · exact least j small (full noHole j small)
          have occupied : p.load choose ≠ 0 → ∀ j < p.narenasAuto, p.arenas j ≠ none := by
            intro busy
            rcases reuse with idle | noHole
            · exact absurd idle busy
            · exact full noHole
          obtain ⟨same, chosen⟩ := assignArena_chosen chose below fewest occupied
          rw [same]
          exact chosen
        · -- A new arena, in the first slot without one.
          rename_i fresh
          obtain ⟨inside, missing⟩ := hole (not_or.mp fresh).2
          obtain ⟨p₁, extended, assigned⟩ := Execution.bind_eq_ok.mp chose
          obtain ⟨same, chosen⟩ := arenasExtend_chosen extended assigned inside missing
          rw [same]
          exact chosen
  · rename_i single
    have only : ∀ j < p.narenasAuto, j = 0 := by omega
    have fewest : ∀ j < p.narenasAuto, p.load 0 ≤ p.load j := by
      intro j below
      rw [only j below]
    have occupied : ∀ j < p.narenasAuto, p.arenas j ≠ none := by
      intro j below
      rw [only j below]
      exact first
    obtain ⟨same, chosen⟩ := assignArena_chosen chose (by omega) fewest fun _ => occupied
    rw [same]
    exact chosen

/-! ## Runs -/

variable {s s' : ThreadRun} {op : ThreadOp}

/-- The threads with an arena are those that have come and not gone, and `nthreads` counts
them. -/
structure ThreadsOk (s : ThreadRun) : Prop where
  nonempty : 1 ≤ s.narenasAuto
  first : s.arenas 0 ≠ none
  distinct : s.threads.Nodup
  named : ∀ t ∈ s.threads, t < 2 ^ 31
  absent : ∀ t, t ∉ s.threads → s.arenasTsd t = none
  present : ∀ t ∈ s.threads, ∃ ind, s.arenasTsd t = some ind ∧ s.arenas ind ≠ none
  counted : ∀ ind arena, s.arenas ind = some arena → arena.nthreads = s.assigned ind

/-- There are fewer threads than thread ids, so `nthreads` does not wrap. -/
theorem ThreadsOk.assigned_lt (ok : ThreadsOk s) (ind : Nat) : s.assigned ind + 1 < 2 ^ 32 := by
  have inRange : s.threads ⊆ List.range (2 ^ 31) :=
    fun t member => List.mem_range.mpr (ok.named t member)
  have fewer : s.threads.length ≤ 2 ^ 31 := by
    simpa using (List.Nodup.subperm ok.distinct inRange).length_le
  have part : s.assigned ind ≤ s.threads.length := List.countP_le_length
  omega

/-- The load of any slot is the number of its threads. -/
theorem ThreadsOk.load_eq (ok : ThreadsOk s) (ind : Nat) : s.load ind = s.assigned ind := by
  cases slot : s.arenas ind with
  | some arena => exact (Process.load_of_some slot).trans (ok.counted ind arena slot)
  | none =>
      refine (Process.load_of_none slot).trans (Eq.symm (List.countP_eq_zero.mpr ?_))
      intro t member
      obtain ⟨other, given, there⟩ := ok.present t member
      rw [given, decide_eq_true_eq, Option.some.injEq]
      rintro rfl
      exact there slot

/-- An arrival adds the thread to the slot it was given, and to no other. -/
theorem ThreadsOk.arrive {thread ind : Nat} {p : Process} (ok : ThreadsOk s)
    (fresh : thread ∉ s.threads) (named : thread < 2 ^ 31)
    (chosen : ArenaChosen s.toProcess p thread ind) : ThreadsOk ⟨p, thread :: s.threads⟩ := by
  obtain ⟨inside, least, full, ⟨arena, load, same, arenas⟩, tsd, auto⟩ := chosen
  have others : ∀ t ∈ s.threads, p.arenasTsd t = s.arenasTsd t := by
    intro t member
    rw [tsd, Function.update_of_ne (by rintro rfl; exact fresh member)]
  have kept : ∀ i, s.arenas i ≠ none → p.arenas i ≠ none := by
    intro i there
    rw [arenas]
    by_cases here : i = ind
    · simp [here]
    · rwa [Function.update_of_ne here]
  have assigned : ∀ i, ThreadRun.assigned ⟨p, thread :: s.threads⟩ i =
      s.assigned i + if i = ind then 1 else 0 := by
    intro i
    have before : s.threads.countP (fun t => p.arenasTsd t = some i) = s.assigned i :=
      List.countP_congr fun t member => by rw [others t member]
    change (thread :: s.threads).countP (fun t => p.arenasTsd t = some i) = _
    rw [List.countP_cons, before, tsd, Function.update_self]
    by_cases here : ind = i
    · simp [here]
    · simp [here, Ne.symm here]
  refine ⟨auto ▸ ok.nonempty, kept 0 ok.first, List.nodup_cons.mpr ⟨fresh, ok.distinct⟩,
    List.forall_mem_cons.mpr ⟨named, ok.named⟩, ?_, ?_, ?_⟩
  · intro t outside
    obtain ⟨other, old⟩ := not_or.mp (List.mem_cons.not.mp outside)
    rw [tsd, Function.update_of_ne other]
    exact ok.absent t old
  · refine List.forall_mem_cons.mpr ⟨⟨ind, ?_, ?_⟩, ?_⟩
    · rw [tsd, Function.update_self]
    · rw [arenas, Function.update_self]
      exact nofun
    · intro t member
      obtain ⟨i, given, there⟩ := ok.present t member
      exact ⟨i, (others t member).trans given, kept i there⟩
  · intro i arena' here
    rw [assigned]
    rw [arenas] at here
    by_cases isInd : i = ind
    · subst isInd
      rw [Function.update_self] at here
      cases here
      have bound := ok.assigned_lt i
      rw [if_pos rfl, load, ok.load_eq, Nat.mod_eq_of_lt bound]
    · rw [Function.update_of_ne isInd] at here
      rw [if_neg isInd]
      exact ok.counted i arena' here

/-- An exit takes the thread out of its slot. -/
structure ArenaLeft (s s' : ThreadRun) (thread ind : Nat) (arena : Arena) : Prop where
  slot : s.arenas ind = some arena
  arenas : s'.arenas =
    Function.update s.arenas ind (some { arena with nthreads := arena.nthreads - 1 })
  arenasTsd : s'.arenasTsd = Function.update s.arenasTsd thread none
  threads : s'.threads = s.threads.erase thread
  narenasAuto : s'.narenasAuto = s.narenasAuto

/-- The arena a thread leaves had counted it. -/
theorem ThreadsOk.left {thread ind : Nat} (ok : ThreadsOk s) (member : thread ∈ s.threads)
    (given : s.arenasTsd thread = some ind) (stepped : s.step (.exit thread) = .ok s') :
    ∃ arena, 0 < arena.nthreads ∧ ArenaLeft s s' thread ind arena := by
  simp only [ThreadRun.step, if_pos member, given] at stepped
  obtain ⟨p, cleaned, stepped⟩ := Execution.bind_eq_ok.mp stepped
  cases stepped
  obtain ⟨other, given', there⟩ := ok.present thread member
  obtain rfl : other = ind := Option.some.inj (given'.symm.trans given)
  obtain ⟨arena, slot⟩ := Option.ne_none_iff_exists'.mp there
  have counted := ok.counted other arena slot
  have bound := ok.assigned_lt other
  have positive : 0 < s.assigned other :=
    List.countP_pos_iff.mpr ⟨thread, member, decide_eq_true given⟩
  have fewer : (arena.nthreads + (2 ^ 32 - 1)) % 2 ^ 32 = arena.nthreads - 1 := by omega
  obtain ⟨arena', found, cleaned⟩ := Execution.bind_eq_ok.mp cleaned
  rw [Process.arena_eq_ok slot] at found
  cases found
  cases cleaned
  refine ⟨arena, by omega, slot, ?_, rfl, rfl, rfl⟩
  rw [← fewer]
  rfl

/-- An exit keeps the counts. -/
theorem ThreadsOk.exit {thread ind : Nat} {arena : Arena} (ok : ThreadsOk s)
    (member : thread ∈ s.threads) (given : s.arenasTsd thread = some ind)
    (left : ArenaLeft s s' thread ind arena) : ThreadsOk s' := by
  have others : ∀ t ∈ s'.threads, s'.arenasTsd t = s.arenasTsd t := by
    intro t still
    rw [left.threads] at still
    have different : t ≠ thread := fun same => (ok.distinct.mem_erase_iff.mp (same ▸ still)).1 rfl
    rw [left.arenasTsd, Function.update_of_ne different]
  have kept : ∀ i, s.arenas i ≠ none → s'.arenas i ≠ none := by
    intro i here
    rw [left.arenas]
    by_cases same : i = ind
    · simp [same]
    · rwa [Function.update_of_ne same]
  have old : ∀ t ∈ s'.threads, t ∈ s.threads := by
    intro t still
    rw [left.threads] at still
    exact List.mem_of_mem_erase still
  refine ⟨left.narenasAuto ▸ ok.nonempty, kept 0 ok.first, ?_, fun t still => ok.named t (old t still),
    ?_, ?_, ?_⟩
  · rw [left.threads]
    exact ok.distinct.erase thread
  · intro t outside
    rw [left.arenasTsd]
    by_cases same : t = thread
    · rw [same, Function.update_self]
    · rw [Function.update_of_ne same]
      rw [left.threads, ok.distinct.mem_erase_iff] at outside
      exact ok.absent t fun here => outside ⟨same, here⟩
  · intro t still
    obtain ⟨i, here, there⟩ := ok.present t (old t still)
    exact ⟨i, (others t still).trans here, kept i there⟩
  · intro i arena' here
    have count : s.assigned i = s'.assigned i + if ind = i then 1 else 0 := by
      have still : s'.assigned i = s'.threads.countP fun t => s.arenasTsd t = some i :=
        List.countP_congr fun t still => by rw [others t still]
      have split := (List.perm_cons_erase member).countP_eq fun t => s.arenasTsd t = some i
      rw [still, left.threads]
      refine split.trans ?_
      rw [List.countP_cons, given]
      by_cases here : ind = i
      · simp [here]
      · simp [here]
    rw [left.arenas] at here
    by_cases same : i = ind
    · subst same
      rw [Function.update_self] at here
      cases here
      have counted := ok.counted i arena left.slot
      rw [if_pos rfl] at count
      change arena.nthreads - 1 = s'.assigned i
      omega
    · rw [Function.update_of_ne same] at here
      rw [if_neg (Ne.symm same)] at count
      exact (ok.counted i arena' here).trans count

/-- What one arrival or exit does. -/
structure BalancedStep (s : ThreadRun) (op : ThreadOp) (s' : ThreadRun) : Prop where
  /-- The slot has the fewest threads, and is shared only when every slot is in use. -/
  arrival : ∀ thread, op = .arrive thread → ∃ ind, s'.arenasTsd thread = some ind ∧
    ind < s.narenasAuto ∧ (∀ j < s.narenasAuto, s.load ind ≤ s.load j) ∧
    ((∃ other ∈ s.threads, s.arenasTsd other = some ind) →
      ∀ j < s.narenasAuto, s.arenas j ≠ none ∧ 0 < s.load j)
  /-- The count of the arena that is left does not underflow. -/
  departure : ∀ thread, op = .exit thread → ∃ ind arena, s.arenasTsd thread = some ind ∧
    s.arenas ind = some arena ∧ 0 < arena.nthreads
  /-- No slot is given another arena. -/
  kept : ∀ ind arena, s.arenas ind = some arena →
    ∃ nthreads, s'.arenas ind = some { arena with nthreads := nthreads }

/-- One arrival or exit keeps the counts. -/
theorem ThreadsOk.step (ok : ThreadsOk s) (stepped : s.step op = .ok s') :
    ThreadsOk s' ∧ BalancedStep s op s' := by
  cases op with
  | arrive thread =>
      simp only [ThreadRun.step] at stepped
      split at stepped
      · rename_i admitted
        obtain ⟨named, fresh⟩ := admitted
        obtain ⟨⟨ind, p⟩, chose, stepped⟩ := Execution.bind_eq_ok.mp stepped
        cases stepped
        rw [chooseArena, ok.absent thread fresh] at chose
        have chosen := chooseArenaHard_chosen ok.first ok.nonempty chose
        refine ⟨ok.arrive fresh named chosen, ?_, nofun, ?_⟩
        · intro other same
          cases same
          refine ⟨ind, ?_, chosen.inside, chosen.least, ?_⟩
          · rw [chosen.arenasTsd, Function.update_self]
          · rintro ⟨other, member, shared⟩ j below
            have busy : 0 < s.load ind := by
              rw [ok.load_eq]
              exact List.countP_pos_iff.mpr ⟨other, member, decide_eq_true shared⟩
            exact ⟨chosen.full (Nat.ne_of_gt busy) j below,
              Nat.lt_of_lt_of_le busy (chosen.least j below)⟩
        · intro i arena here
          obtain ⟨given, _, same, arenas⟩ := chosen.arenas
          rw [arenas]
          by_cases isInd : i = ind
          · subst isInd
            rw [Function.update_self, same arena here]
            exact ⟨_, rfl⟩
          · rw [Function.update_of_ne isInd]
            exact ⟨arena.nthreads, here⟩
      · cases stepped
  | exit thread =>
      by_cases member : thread ∈ s.threads
      · obtain ⟨ind, given, _⟩ := ok.present thread member
        obtain ⟨arena, positive, left⟩ := ok.left member given stepped
        refine ⟨ok.exit member given left, nofun, ?_, ?_⟩
        · intro other same
          cases same
          exact ⟨ind, arena, given, left.slot, positive⟩
        · intro i arena' here
          rw [left.arenas]
          by_cases same : i = ind
          · subst same
            rw [Function.update_self, Option.some.inj (here.symm.trans left.slot)]
            exact ⟨_, rfl⟩
          · rw [Function.update_of_ne same]
            exact ⟨arena'.nthreads, here⟩
      · simp only [ThreadRun.step, if_neg member] at stepped
        cases stepped

/-- `malloc_init_hard` leaves one arena, which no thread has. -/
theorem mallocInitHard_arenas {heap : Heap} {garbage : Nat → Arena} {nprocessors : Int}
    (init : mallocInitHard (.loaded heap garbage nprocessors) = .ok p) :
    ∃ arena, arena.nthreads = 0 ∧ p.arenas = Function.update (fun _ => none) 0 (some arena) ∧
      p.arenasTsd = fun _ => none := by
  obtain ⟨p₁, extended, _, rfl⟩ := mallocInitHard_effect rfl init
  obtain ⟨heap', arena, noThreads, rfl⟩ := arenasExtend_effect extended
  exact ⟨arena, noThreads, rfl, rfl⟩

theorem mallocInitHard_threadsOk {heap : Heap} {garbage : Nat → Arena} {nprocessors : Int}
    {narenasAuto : Nat} (init : mallocInitHard (.loaded heap garbage nprocessors) = .ok p)
    (nonempty : 1 ≤ narenasAuto) : ThreadsOk ⟨{ p with narenasAuto := narenasAuto }, []⟩ := by
  obtain ⟨arena, noThreads, arenas, tsd⟩ := mallocInitHard_arenas init
  refine ⟨nonempty, ?_, by simp, by simp, fun t _ => ?_, by simp, ?_⟩
  · simp [arenas]
  · simp [tsd]
  · intro ind arena' here
    change p.arenas ind = some arena' at here
    rw [arenas] at here
    by_cases same : ind = 0
    · subst same
      rw [Function.update_self] at here
      cases here
      exact noThreads
    · rw [Function.update_of_ne same] at here
      cases here

/-- **Threads are counted and balanced.** After any arrivals and exits each arena counts the
threads it has; the next arrival is given a slot with the fewest, the next exit does not
underflow, and neither gives a slot another arena. -/
theorem threadRun_balanced {heap : Heap} {garbage : Nat → Arena} {nprocessors : Int}
    {narenasAuto : Nat} {ops : List ThreadOp}
    (init : mallocInitHard (.loaded heap garbage nprocessors) = .ok p)
    (nonempty : 1 ≤ narenasAuto) (reached : threadRun p narenasAuto ops = .ok s) :
    (∀ ind arena, s.arenas ind = some arena → arena.nthreads = s.assigned ind) ∧
      ∀ op s', s.step op = .ok s' → BalancedStep s op s' := by
  have kept : ∀ (s : ThreadRun) op s', ThreadsOk s → s.step op = .ok s' → ThreadsOk s' :=
    fun _ _ _ ok stepped => (ok.step stepped).1
  have ok := Execution.run_kept kept (mallocInitHard_threadsOk init nonempty) reached
  exact ⟨ok.counted, fun _ _ stepped => (ok.step stepped).2⟩

/-- Two threads come to three slots, and the first one goes. -/
theorem threadRun_balanced_of_three :
    ∃ p s, mallocInitHard (.loaded (.fresh [chunksize, 2 ^ 30] []) (fun _ => .zeroed) 4) = .ok p ∧
      threadRun p 3 [.arrive 7, .arrive 8, .exit 7] = .ok s ∧
      (∀ ind arena, s.arenas ind = some arena → arena.nthreads = s.assigned ind) ∧
      ∀ op s', s.step op = .ok s' → BalancedStep s op s' := by
  obtain ⟨s, ran⟩ : ∃ s, (mallocInitHard
      (.loaded (.fresh [chunksize, 2 ^ 30] []) (fun _ => .zeroed) 4) >>= fun p =>
        threadRun p 3 [.arrive 7, .arrive 8, .exit 7]) = .ok s :=
    Execution.exists_eq_ok (by decide +kernel)
  obtain ⟨p, init, reached⟩ := Execution.bind_eq_ok.mp ran
  exact ⟨p, s, init, reached, threadRun_balanced init (by decide) reached⟩

end Lsmalloc
