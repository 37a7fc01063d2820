import Mathlib.Init
import Mathlib.Data.List.Induction

/-!
# Finite runs of a fallible step function

A deterministic program is driven by a list of operations. Each operation
either moves the state or ends the run with a fault, so a completed run visits
one state after each operation. The rules below turn facts about one step into
facts about every state a completed run visits.
-/

namespace Execution

universe u v w

variable {State : Type u} {Op : Type v} {Fault : Type w}

/-- A sequenced computation succeeds exactly when both halves do. -/
theorem bind_eq_ok {α β : Type u} {first : Except Fault α} {next : α → Except Fault β} {b : β} :
    (first >>= next) = .ok b ↔ ∃ a, first = .ok a ∧ next a = .ok b := by
  cases first with
  | error fault => simp [bind, Except.bind]
  | ok a => simp [bind, Except.bind]

/-- Computations that begin alike and go on alike from each result are alike. -/
theorem bind_congr_ok {α β : Type u} {first : Except Fault α} {next next' : α → Except Fault β}
    (same : ∀ a, first = .ok a → next a = next' a) : (first >>= next) = (first >>= next') := by
  cases first with
  | error fault => rfl
  | ok a => exact same a rfl

/-- A computation that is seen to succeed has a result. -/
theorem exists_eq_ok {α : Type u} {computation : Except Fault α}
    (succeeds : computation.isOk = true) : ∃ a, computation = .ok a := by
  cases computation with
  | error fault => cases succeeds
  | ok a => exact ⟨a, rfl⟩

/-- A computation that is seen to succeed with a property has such a result. -/
theorem exists_eq_ok_and {α : Type u} {computation : Except Fault α} {P : α → Prop}
    [DecidablePred P]
    (succeeds : (match computation with
      | .ok a => decide (P a)
      | .error _ => false) = true) : ∃ a, computation = .ok a ∧ P a := by
  cases computation with
  | error fault => cases succeeds
  | ok a => exact ⟨a, rfl, of_decide_eq_true succeeds⟩

/-- A computation that is seen to end with a fault ends with it. -/
theorem eq_error {α : Type u} [DecidableEq Fault] {computation : Except Fault α} {fault : Fault}
    (fails : (match computation with
      | .ok _ => false
      | .error cause => decide (cause = fault)) = true) : computation = .error fault := by
  cases computation with
  | error cause => rw [of_decide_eq_true fails]
  | ok a => cases fails

/-! ## Which faults a computation can end with -/

/-- The computation fails with admitted faults at most. -/
def FailsOnly {α : Type u} (admitted : Fault → Prop) (computation : Except Fault α) : Prop :=
  ∀ fault, computation = .error fault → admitted fault

theorem failsOnly_ok {α : Type u} {admitted : Fault → Prop} (a : α) :
    FailsOnly admitted (.ok a : Except Fault α) := nofun

theorem failsOnly_error {α : Type u} {admitted : Fault → Prop} {fault : Fault}
    (allowed : admitted fault) : FailsOnly admitted (.error fault : Except Fault α) := by
  rintro other same
  cases same
  exact allowed

/-- A computation that has a result does not fail. -/
theorem FailsOnly.of_eq_ok {α : Type u} {admitted : Fault → Prop}
    {computation : Except Fault α} {a : α} (succeeds : computation = .ok a) :
    FailsOnly admitted computation := by
  rw [succeeds]
  exact failsOnly_ok a

/-- A sequenced computation fails in its first half or, from a result of that, in its second. -/
theorem FailsOnly.bind {α β : Type u} {admitted : Fault → Prop} {first : Except Fault α}
    {next : α → Except Fault β} (here : FailsOnly admitted first)
    (later : ∀ a, first = .ok a → FailsOnly admitted (next a)) :
    FailsOnly admitted (first >>= next) := by
  intro fault failed
  cases outcome : first with
  | error cause =>
      rw [outcome] at failed
      cases failed
      exact here fault outcome
  | ok a =>
      rw [outcome] at failed
      exact later a outcome fault failed

/-- The computation fails with admitted faults at most, and its result has the property. -/
def Delivers {α : Type u} (admitted : Fault → Prop) (Post : α → Prop)
    (computation : Except Fault α) : Prop :=
  FailsOnly admitted computation ∧ ∀ a, computation = .ok a → Post a

theorem delivers_ok {α : Type u} {admitted : Fault → Prop} {Post : α → Prop} {a : α}
    (holds : Post a) : Delivers admitted Post (.ok a : Except Fault α) := by
  refine ⟨failsOnly_ok a, ?_⟩
  rintro b same
  cases same
  exact holds

theorem delivers_error {α : Type u} {admitted : Fault → Prop} {Post : α → Prop} {fault : Fault}
    (allowed : admitted fault) : Delivers admitted Post (.error fault : Except Fault α) :=
  ⟨failsOnly_error allowed, nofun⟩

/-- What the first half delivers is what the second half may rely on. -/
theorem Delivers.bind {α β : Type u} {admitted : Fault → Prop} {Mid : α → Prop} {Post : β → Prop}
    {first : Except Fault α} {next : α → Except Fault β} (here : Delivers admitted Mid first)
    (later : ∀ a, Mid a → Delivers admitted Post (next a)) :
    Delivers admitted Post (first >>= next) := by
  refine ⟨here.1.bind fun a outcome => (later a (here.2 a outcome)).1, ?_⟩
  intro b succeeds
  obtain ⟨a, outcome, rest⟩ := bind_eq_ok.mp succeeds
  exact (later a (here.2 a outcome)).2 b rest

/-- More faults may be admitted, and less be said of the result. -/
theorem Delivers.mono {α : Type u} {admitted allowed : Fault → Prop} {Strong Weak : α → Prop}
    {computation : Except Fault α} (delivers : Delivers admitted Strong computation)
    (faults : ∀ fault, admitted fault → allowed fault) (results : ∀ a, Strong a → Weak a) :
    Delivers allowed Weak computation :=
  ⟨fun fault failed => faults fault (delivers.1 fault failed),
    fun a succeeds => results a (delivers.2 a succeeds)⟩

/-- Run the operations in order, stopping at the first fault. -/
def run (step : State → Op → Except Fault State) (state : State) : List Op → Except Fault State
  | [] => .ok state
  | op :: ops => step state op >>= fun next => run step next ops

variable {step : State → Op → Except Fault State}

@[simp] theorem run_nil (state : State) : run step state [] = .ok state := rfl

/-- The first operation of a completed run completes, and so does the rest. -/
theorem run_cons_eq_ok {state final : State} {op : Op} {ops : List Op} :
    run step state (op :: ops) = .ok final ↔
      ∃ next, step state op = .ok next ∧ run step next ops = .ok final :=
  bind_eq_ok

/-- Runs compose at the state where the first one ends. -/
theorem run_append_eq_ok {state final : State} {first rest : List Op} :
    run step state (first ++ rest) = .ok final ↔
      ∃ middle, run step state first = .ok middle ∧ run step middle rest = .ok final := by
  induction first generalizing state with
  | nil => simp
  | cons op ops ih =>
      simp only [List.cons_append, run_cons_eq_ok, ih]
      constructor
      · rintro ⟨next, stepped, middle, reached, rested⟩
        exact ⟨middle, ⟨next, stepped, reached⟩, rested⟩
      · rintro ⟨middle, ⟨next, stepped, reached⟩, rested⟩
        exact ⟨next, stepped, middle, reached, rested⟩

/-- An invariant kept by every admitted step holds wherever an admitted run ends. -/
theorem run_invariant {Inv : State → Prop} {Admitted : Op → Prop}
    (preserved : ∀ state op next, Inv state → Admitted op → step state op = .ok next → Inv next)
    {state final : State} {ops : List Op} (holds : Inv state)
    (admitted : ∀ op ∈ ops, Admitted op) (reached : run step state ops = .ok final) :
    Inv final := by
  induction ops generalizing state with
  | nil => cases reached; exact holds
  | cons op ops ih =>
      obtain ⟨next, stepped, rested⟩ := run_cons_eq_ok.mp reached
      have here : Inv next := preserved state op next holds (admitted op (by simp)) stepped
      exact ih here (fun other member => admitted other (by simp [member])) rested

/-- An invariant kept by every step holds wherever a run ends. -/
theorem run_kept {Inv : State → Prop}
    (kept : ∀ state op next, Inv state → step state op = .ok next → Inv next)
    {state final : State} {ops : List Op} (holds : Inv state)
    (reached : run step state ops = .ok final) : Inv final := by
  have preserved : ∀ state op next, Inv state → True → step state op = .ok next → Inv next :=
    fun state op next inv _ stepped => kept state op next inv stepped
  exact run_invariant preserved holds (fun _ _ => trivial) reached

/-- Every operation of the run is admitted in the state it is met in. -/
def Meets (step : State → Op → Except Fault State) (Admitted : State → Op → Prop) :
    State → List Op → Prop
  | _, [] => True
  | state, op :: ops =>
      Admitted state op ∧ match step state op with
        | .ok next => Meets step Admitted next ops
        | .error _ => True

instance Meets.decidable (step : State → Op → Except Fault State) (Admitted : State → Op → Prop)
    [∀ state op, Decidable (Admitted state op)] (state : State) (ops : List Op) :
    Decidable (Meets step Admitted state ops) :=
  match ops with
  | [] => isTrue trivial
  | op :: ops =>
      match outcome : step state op with
      | .ok next =>
          have := Meets.decidable step Admitted next ops
          decidable_of_iff (Admitted state op ∧ Meets step Admitted next ops)
            (by simp only [Meets, outcome])
      | .error _ =>
          decidable_of_iff (Admitted state op) (by simp only [Meets, outcome, and_true])

/-- An invariant kept by steps that are admitted where they are taken holds wherever a run of
such steps ends. -/
theorem run_invariant_of_meets {Inv : State → Prop} {Admitted : State → Op → Prop}
    (preserved : ∀ state op next, Inv state → Admitted state op → step state op = .ok next →
      Inv next)
    {state final : State} {ops : List Op} (holds : Inv state)
    (meets : Meets step Admitted state ops) (reached : run step state ops = .ok final) :
    Inv final := by
  induction ops generalizing state with
  | nil => cases reached; exact holds
  | cons op ops ih =>
      obtain ⟨next, stepped, rested⟩ := run_cons_eq_ok.mp reached
      obtain ⟨here, later⟩ := meets
      rw [stepped] at later
      exact ih (preserved state op next holds here stepped) later rested

/-- When a step can always be taken and keeps the invariant, it can be taken any number of
times. -/
theorem run_replicate (Inv : State → Prop) {op : Op}
    (progress : ∀ state, Inv state → ∃ next, step state op = .ok next ∧ Inv next)
    {state : State} (holds : Inv state) (count : Nat) :
    ∃ final, run step state (List.replicate count op) = .ok final ∧ Inv final := by
  induction count generalizing state with
  | zero => exact ⟨state, rfl, holds⟩
  | succ count ih =>
      obtain ⟨next, stepped, here⟩ := progress state holds
      obtain ⟨final, reached, there⟩ := ih here
      exact ⟨final, run_cons_eq_ok.mpr ⟨next, stepped, reached⟩, there⟩

/-- When every admitted step delivers the invariant, so does every admitted run. -/
theorem run_delivers {Inv : State → Prop} {Admitted : Op → Prop} {admitted : Fault → Prop}
    (delivers : ∀ state op, Inv state → Admitted op → Delivers admitted Inv (step state op))
    {state : State} {ops : List Op} (holds : Inv state) (allowed : ∀ op ∈ ops, Admitted op) :
    Delivers admitted Inv (run step state ops) := by
  induction ops generalizing state with
  | nil => exact delivers_ok holds
  | cons op ops ih =>
      have here : Admitted op := allowed op (by simp)
      refine (delivers state op holds here).bind fun next inv => ?_
      exact ih inv fun other member => allowed other (by simp [member])

/-- When every step keeps the invariant and a step that is not admitted never completes,
all steps of a completed run are admitted. -/
theorem admitted_of_run {Inv : State → Prop} {Admitted : Op → Prop}
    (preserved : ∀ state op next, Inv state → step state op = .ok next → Inv next)
    (stops : ∀ state op next, Inv state → step state op = .ok next → Admitted op)
    {state final : State} {ops : List Op} (holds : Inv state)
    (reached : run step state ops = .ok final) : ∀ op ∈ ops, Admitted op := by
  induction ops generalizing state with
  | nil => simp
  | cons op ops ih =>
      obtain ⟨next, stepped, rested⟩ := run_cons_eq_ok.mp reached
      exact List.forall_mem_cons.mpr ⟨stops state op next holds stepped,
        ih (preserved state op next holds stepped) rested⟩

/-- A property of every state a run visits, its first and last included. -/
def Along (step : State → Op → Except Fault State) (state : State) (ops : List Op)
    (P : State → Prop) : Prop :=
  ∀ before after reached, ops = before ++ after → run step state before = .ok reached → P reached

/-- When admitted steps keep an invariant that gives `P`, and a step that is not
admitted breaks `P` at once, a completed run satisfies `P` throughout exactly
when all its steps are admitted. -/
theorem along_iff_admitted {Inv P : State → Prop} {Admitted : Op → Prop}
    (preserved : ∀ state op next, Inv state → Admitted op → step state op = .ok next → Inv next)
    (gives : ∀ state, Inv state → P state)
    (breaks : ∀ state op next, Inv state → ¬ Admitted op → step state op = .ok next → ¬ P next)
    {state final : State} {ops : List Op} (holds : Inv state)
    (reached : run step state ops = .ok final) :
    Along step state ops P ↔ ∀ op ∈ ops, Admitted op := by
  constructor
  · intro along op member
    by_contra rejected
    -- Cut the run at its first rejected operation: before it the invariant still holds.
    classical
    obtain ⟨before, bad, after, rfl, good, isBad⟩ :
        ∃ before bad after, ops = before ++ bad :: after ∧
          (∀ op ∈ before, Admitted op) ∧ ¬ Admitted bad := by
      clear along reached holds
      induction ops with
      | nil => simp at member
      | cons head tail ih =>
          by_cases headGood : Admitted head
          · have inTail : op ∈ tail := by
              rcases List.mem_cons.mp member with rfl | inTail
              · exact absurd headGood rejected
              · exact inTail
            obtain ⟨before, bad, after, rfl, good, isBad⟩ := ih inTail
            exact ⟨head :: before, bad, after, rfl, by simpa [headGood] using good, isBad⟩
          · exact ⟨[], head, tail, rfl, by simp, headGood⟩
    obtain ⟨middle, first, rest⟩ := run_append_eq_ok.mp reached
    obtain ⟨next, stepped, _⟩ := run_cons_eq_ok.mp rest
    have invMiddle : Inv middle := run_invariant preserved holds good first
    have upToBad : run step state (before ++ [bad]) = .ok next :=
      run_append_eq_ok.mpr ⟨middle, first, run_cons_eq_ok.mpr ⟨next, stepped, rfl⟩⟩
    exact breaks middle bad next invMiddle isBad stepped
      (along (before ++ [bad]) after next (by simp) upToBad)
  · intro admitted before after visited split toVisited
    subst split
    exact gives visited (run_invariant preserved holds
      (fun op member => admitted op (by simp [member])) toVisited)

/-- When admitted steps keep `Inv`, a rejected step from `Inv` gives `Broken`, and
`Broken` is never repaired, the end of a run shows whether a step was rejected. -/
theorem run_split {Inv Broken : State → Prop} {Admitted : Op → Prop}
    (preserved : ∀ state op next, Inv state → Admitted op → step state op = .ok next → Inv next)
    (breaks : ∀ state op next, Inv state → ¬ Admitted op → step state op = .ok next → Broken next)
    (stays : ∀ state op next, Broken state → step state op = .ok next → Broken next)
    {state final : State} {ops : List Op} (holds : Inv state)
    (reached : run step state ops = .ok final) :
    ((∀ op ∈ ops, Admitted op) ∧ Inv final) ∨ ((∃ op ∈ ops, ¬ Admitted op) ∧ Broken final) := by
  by_cases admitted : ∀ op ∈ ops, Admitted op
  · exact .inl ⟨admitted, run_invariant preserved holds admitted reached⟩
  · refine .inr ⟨by simpa using admitted, ?_⟩
    induction ops generalizing state with
    | nil => simp at admitted
    | cons op ops ih =>
        obtain ⟨next, stepped, rested⟩ := run_cons_eq_ok.mp reached
        by_cases here : Admitted op
        · exact ih (preserved state op next holds here stepped) rested
            (fun all => admitted (by simpa [here] using all))
        · have broken : Broken next := breaks state op next holds here stepped
          exact run_kept stays broken rested

/-! ## What a run has done -/

/-- A step wrote at most one entry, of the given kind, to a log that is kept latest first. -/
def Logged {Entry : Type u} (Kind : Entry → Prop) (log log' : List Entry) : Prop :=
  log' = log ∨ ∃ entry, Kind entry ∧ log' = entry :: log

section Logged

variable {Entry : Type u} {Kind : Entry → Prop} {log log' : List Entry} {entry : Entry}

/-- What is in the log was there before the step or was written by it. -/
theorem Logged.mem (logged : Logged Kind log log') (member : entry ∈ log') :
    entry ∈ log ∨ Kind entry := by
  rcases logged with same | ⟨written, kind, added⟩
  · exact .inl (same ▸ member)
  · rw [added] at member
    rcases List.mem_cons.mp member with rfl | before
    · exact .inr kind
    · exact .inl before

/-- A log in which no entry occurs twice stays so if the step writes none again. -/
theorem Logged.nodup (logged : Logged Kind log log') (fresh : ∀ entry, Kind entry → entry ∉ log)
    (once : log.Nodup) : log'.Nodup := by
  rcases logged with same | ⟨written, kind, added⟩
  · rw [same]
    exact once
  · rw [added, List.nodup_cons]
    exact ⟨fresh written kind, once⟩

end Logged

end Execution
