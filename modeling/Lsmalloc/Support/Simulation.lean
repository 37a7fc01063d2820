import Lsmalloc.Support.Execution

/-!
# Simulation between fallible programs

A program on concrete states follows one on abstract states when each of its steps ends as the
abstract step does: with the same fault, or in states that are related again. Whole runs then
end alike.
-/

namespace Execution

universe u v w

variable {Fault : Type w}

/-- The computations end with one fault, or their results are related. -/
inductive Follows {α : Type u} {β : Type v} (Related : α → β → Prop) :
    Except Fault α → Except Fault β → Prop
  | ok {a : α} {b : β} (related : Related a b) : Follows Related (.ok a) (.ok b)
  | error (fault : Fault) : Follows Related (.error fault) (.error fault)

section Follows

variable {α γ : Type u} {β δ : Type v} {Related : α → β → Prop} {concrete : Except Fault α}
  {abstract : Except Fault β}

theorem Follows.refl (computation : Except Fault α) : Follows Eq computation computation := by
  cases computation with
  | ok a => exact .ok rfl
  | error fault => exact .error fault

/-- Sequenced computations end alike if their halves do. -/
theorem Follows.bind {Next : γ → δ → Prop} {next : α → Except Fault γ} {next' : β → Except Fault δ}
    (here : Follows Related concrete abstract)
    (later : ∀ a b, Related a b → Follows Next (next a) (next' b)) :
    Follows Next (concrete >>= next) (abstract >>= next') := by
  cases here with
  | ok related => exact later _ _ related
  | error fault => exact .error fault

/-- Computations that end alike end alike in a weaker sense. -/
theorem Follows.mono {Weaker : α → β → Prop} (follows : Follows Related concrete abstract)
    (weaker : ∀ a b, Related a b → Weaker a b) : Follows Weaker concrete abstract := by
  cases follows with
  | ok related => exact .ok (weaker _ _ related)
  | error fault => exact .error fault

/-- What is known of a result of the abstract computation may be added. -/
theorem Follows.and_right {Post : β → Prop} (follows : Follows Related concrete abstract)
    (post : ∀ b, abstract = .ok b → Post b) :
    Follows (fun a b => Related a b ∧ Post b) concrete abstract := by
  cases follows with
  | ok related => exact .ok ⟨related, post _ rfl⟩
  | error fault => exact .error fault

/-- So may what is known of a result of the concrete one. -/
theorem Follows.and_left {Post : α → Prop} (follows : Follows Related concrete abstract)
    (post : ∀ a, concrete = .ok a → Post a) :
    Follows (fun a b => Related a b ∧ Post a) concrete abstract := by
  cases follows with
  | ok related => exact .ok ⟨related, post _ rfl⟩
  | error fault => exact .error fault

/-- A result is related to one of the abstract computation. -/
theorem Follows.exists_ok {a : α} (follows : Follows Related concrete abstract)
    (result : concrete = .ok a) : ∃ b, abstract = .ok b ∧ Related a b := by
  subst result
  cases follows with
  | ok related => exact ⟨_, rfl, related⟩

/-- So is a result of the abstract computation to a result. -/
theorem Follows.exists_ok_of_abstract {b : β} (follows : Follows Related concrete abstract)
    (result : abstract = .ok b) : ∃ a, concrete = .ok a ∧ Related a b := by
  subst result
  cases follows with
  | ok related => exact ⟨_, rfl, related⟩

/-- A fault is one of the abstract computation. -/
theorem Follows.error_eq {fault : Fault} (follows : Follows Related concrete abstract)
    (failed : concrete = .error fault) : abstract = .error fault := by
  subst failed
  cases follows with
  | error fault => rfl

end Follows

/-- Where the first computation has a result the second has one that is related. The first may
fail where the second does not. -/
def Covers {α : Type u} {β : Type v} (Related : α → β → Prop) (concrete : Except Fault α)
    (abstract : Except Fault β) : Prop :=
  ∀ a, concrete = .ok a → ∃ b, abstract = .ok b ∧ Related a b

section Covers

variable {α γ : Type u} {β δ : Type v} {Related : α → β → Prop} {concrete : Except Fault α}
  {abstract : Except Fault β}

theorem covers_ok {a : α} {b : β} (related : Related a b) :
    Covers Related (.ok a : Except Fault α) (.ok b) := by
  rintro _ same
  cases same
  exact ⟨b, rfl, related⟩

theorem covers_error (fault : Fault) : Covers Related (.error fault) abstract := by
  rintro _ same
  cases same

/-- Sequenced computations are covered if their halves are. -/
theorem Covers.bind {Next : γ → δ → Prop} {next : α → Except Fault γ} {next' : β → Except Fault δ}
    (here : Covers Related concrete abstract)
    (later : ∀ a b, Related a b → Covers Next (next a) (next' b)) :
    Covers Next (concrete >>= next) (abstract >>= next') := by
  intro c succeeds
  obtain ⟨a, outcome, rest⟩ := bind_eq_ok.mp succeeds
  obtain ⟨b, outcome', related⟩ := here a outcome
  obtain ⟨d, rest', related'⟩ := later a b related c rest
  exact ⟨d, bind_eq_ok.mpr ⟨b, outcome', rest'⟩, related'⟩

end Covers

variable {State : Type u} {State' : Type v} {Op Op' : Type*}
  {step : State → Op → Except Fault State} {step' : State' → Op' → Except Fault State'}

/-- A condition that holds in every state is met. -/
theorem meets_of_forall {Admitted : Op → Prop} {ops : List Op} (admitted : ∀ op ∈ ops, Admitted op)
    (state : State) : Meets step (fun _ op => Admitted op) state ops := by
  induction ops generalizing state with
  | nil => exact trivial
  | cons op ops ih =>
      refine ⟨admitted op (by simp), ?_⟩
      split
      · exact ih (fun other member => admitted other (by simp [member])) _
      · exact trivial

/-- A run of one operation is a step. -/
theorem run_singleton (state : State) (op : Op) : run step state [op] = step state op := by
  simp only [run]
  cases step state op <;> rfl

/-- Two conditions that are met are met together. -/
theorem Meets.and {Admitted Admitted' : State → Op → Prop} {state : State} {ops : List Op}
    (meets : Meets step Admitted state ops) (meets' : Meets step Admitted' state ops) :
    Meets step (fun state op => Admitted state op ∧ Admitted' state op) state ops := by
  induction ops generalizing state with
  | nil => exact trivial
  | cons op ops ih =>
      obtain ⟨here, later⟩ := meets
      obtain ⟨here', later'⟩ := meets'
      refine ⟨⟨here, here'⟩, ?_⟩
      cases outcome : step state op with
      | ok next =>
          rw [outcome] at later later'
          exact ih later later'
      | error fault => exact trivial

/-- A run of two lists of operations is a run of one, then of the other. -/
theorem run_append (state : State) (first rest : List Op) :
    run step state (first ++ rest) = run step state first >>= fun next => run step next rest := by
  induction first generalizing state with
  | nil => rfl
  | cons op ops ih =>
      simp only [List.cons_append, run]
      cases step state op with
      | ok next => exact ih next
      | error fault => rfl

/-- When each admitted step ends as some abstract steps do, so do runs of them. -/
theorem run_follows_runs {Related : State → State' → Prop} {Admitted : State → Op → Prop}
    (abstract : Op → List Op')
    (simulated : ∀ state state' op, Related state state' → Admitted state op →
      Follows Related (step state op) (run step' state' (abstract op)))
    {state : State} {state' : State'} {ops : List Op} (related : Related state state')
    (meets : Meets step Admitted state ops) :
    Follows Related (run step state ops) (run step' state' (ops.flatMap abstract)) := by
  induction ops generalizing state state' with
  | nil => exact .ok related
  | cons op ops ih =>
      obtain ⟨here, later⟩ := meets
      have first := simulated state state' op related here
      rw [List.flatMap_cons, run_append]
      simp only [run]
      generalize step state op = outcome at first later ⊢
      generalize run step' state' (abstract op) = outcome' at first ⊢
      cases first with
      | ok related => exact ih related later
      | error fault => exact .error fault

/-- When each admitted step ends as the abstract one does, so do runs of them. -/
theorem run_follows {Related : State → State' → Prop} {Admitted : State → Op → Prop}
    (abstract : Op → Op')
    (simulated : ∀ state state' op, Related state state' → Admitted state op →
      Follows Related (step state op) (step' state' (abstract op)))
    {state : State} {state' : State'} {ops : List Op} (related : Related state state')
    (meets : Meets step Admitted state ops) :
    Follows Related (run step state ops) (run step' state' (ops.map abstract)) := by
  have follows := run_follows_runs (fun op => [abstract op])
    (fun state state' op related admitted => by
      rw [run_singleton]
      exact simulated state state' op related admitted) related meets
  rwa [List.map_eq_flatMap]

end Execution
