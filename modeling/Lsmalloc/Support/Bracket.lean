import Mathlib.Logic.Function.Basic

/-!
# Bracketed critical sections

Parties share some data. Each waits for its lock, takes it, works on the data and gives
the lock back, and the steps of different parties interleave in any order. Two parties
are never inside their brackets at once exactly when they take the same lock
(`excludes_iff`).
-/

namespace Bracket

universe u v w

/-- The parties: the lock each takes, and what each can do to the data inside its bracket. -/
structure System (Party : Type u) (Lock : Type v) (Data : Type w) where
  lock : Party → Lock
  work : Party → Data → Data → Prop

/-- Who holds each lock, who is inside its bracket, and the data. -/
structure State (Party : Type u) (Lock : Type v) (Data : Type w) where
  holder : Lock → Option Party
  inside : Party → Bool
  data : Data

variable {Party : Type u} {Lock : Type v} {Data : Type w}

/-- No lock is held, and nobody is inside. -/
def start (data : Data) : State Party Lock Data := ⟨fun _ => none, fun _ => false, data⟩

/-- Whoever is inside holds its lock. -/
def State.Guarded (s : State Party Lock Data) (system : System Party Lock Data) : Prop :=
  ∀ p, s.inside p = true → s.holder (system.lock p) = some p

variable {system : System Party Lock Data} {s s' : State Party Lock Data} {data : Data} {p q : Party}

/-- A lock has one holder. -/
theorem State.Guarded.unique (guarded : s.Guarded system) (first : s.inside p = true)
    (second : s.inside q = true) (same : system.lock p = system.lock q) : p = q := by
  have holds := guarded p first
  rw [same, guarded q second] at holds
  exact (Option.some.inj holds).symm

variable [DecidableEq Party] [DecidableEq Lock]

/-- The party takes its lock. -/
def State.enter (s : State Party Lock Data) (system : System Party Lock Data) (p : Party) :
    State Party Lock Data :=
  { s with
    holder := Function.update s.holder (system.lock p) (some p)
    inside := Function.update s.inside p true }

/-- The party gives its lock back. -/
def State.leave (s : State Party Lock Data) (system : System Party Lock Data) (p : Party) :
    State Party Lock Data :=
  { s with
    holder := Function.update s.holder (system.lock p) none
    inside := Function.update s.inside p false }

/-- One step of one party. -/
inductive Step (system : System Party Lock Data) :
    State Party Lock Data → State Party Lock Data → Prop
  | enter (s : State Party Lock Data) (p : Party) (outside : s.inside p = false)
      (free : s.holder (system.lock p) = none) : Step system s (s.enter system p)
  | work (s : State Party Lock Data) (p : Party) (data : Data) (inside : s.inside p = true)
      (works : system.work p s.data data) : Step system s { s with data := data }
  | leave (s : State Party Lock Data) (p : Party) (inside : s.inside p = true) :
      Step system s (s.leave system p)

/-- The states the parties can reach from the data, in whatever order they step. -/
inductive Reaches (system : System Party Lock Data) (data : Data) : State Party Lock Data → Prop
  | start : Reaches system data (start data)
  | step {s s' : State Party Lock Data} (reached : Reaches system data s)
      (stepped : Step system s s') : Reaches system data s'

/-- The two parties are never inside at once. -/
def Excludes (system : System Party Lock Data) (data : Data) (p q : Party) : Prop :=
  ∀ s, Reaches system data s → ¬ (s.inside p = true ∧ s.inside q = true)

/-- A step keeps the locks held. -/
theorem State.Guarded.step (guarded : s.Guarded system) (stepped : Step system s s') :
    s'.Guarded system := by
  cases stepped with
  | enter p outside free =>
      intro q inside
      change Function.update s.inside p true q = true at inside
      change Function.update s.holder (system.lock p) (some p) (system.lock q) = some q
      by_cases same : q = p
      · rw [same, Function.update_self]
      · rw [Function.update_of_ne same] at inside
        have holds := guarded q inside
        have different : system.lock q ≠ system.lock p := by
          intro shared
          rw [shared, free] at holds
          cases holds
        rwa [Function.update_of_ne different]
  | work p data inside works => exact guarded
  | leave p wasInside =>
      intro q inside
      change Function.update s.inside p false q = true at inside
      change Function.update s.holder (system.lock p) none (system.lock q) = some q
      by_cases same : q = p
      · rw [same, Function.update_self] at inside
        cases inside
      · rw [Function.update_of_ne same] at inside
        have different : system.lock q ≠ system.lock p := fun shared =>
          same (guarded.unique inside wasInside shared)
        rw [Function.update_of_ne different]
        exact guarded q inside

/-- Whoever is inside holds its lock, in every state. -/
theorem Reaches.guarded (reached : Reaches system data s) : s.Guarded system := by
  induction reached with
  | start => exact nofun
  | step _ stepped ih => exact ih.step stepped

/-- With different locks both parties get inside, with the data as it was. -/
theorem exists_both_inside (different : system.lock p ≠ system.lock q) (data : Data) :
    ∃ s, Reaches system data s ∧ s.inside p = true ∧ s.inside q = true ∧ s.data = data := by
  have distinct : q ≠ p := by
    rintro rfl
    exact different rfl
  have first : Reaches system data ((start data).enter system p) :=
    .step .start (.enter _ p rfl rfl)
  have outside : ((start data).enter system p).inside q = false :=
    Function.update_of_ne distinct ..
  have free : ((start data).enter system p).holder (system.lock q) = none :=
    Function.update_of_ne different.symm ..
  have still : (((start data).enter system p).enter system q).inside p = true := by
    change Function.update ((start data).enter system p).inside q true p = true
    rw [Function.update_of_ne distinct.symm]
    exact Function.update_self ..
  exact ⟨_, .step first (.enter _ q outside free), still, Function.update_self .., rfl⟩

/-- **Exclusion.** Two parties exclude each other exactly when they take the same lock. -/
theorem excludes_iff (distinct : p ≠ q) (data : Data) :
    Excludes system data p q ↔ system.lock p = system.lock q := by
  constructor
  · intro excludes
    by_contra different
    obtain ⟨s, reached, first, second, _⟩ := exists_both_inside different data
    exact excludes s reached ⟨first, second⟩
  · rintro same s reached ⟨first, second⟩
    exact distinct (reached.guarded.unique first second same)

/-- With different locks one party does its work while the other is inside. -/
theorem exists_work_inside (different : system.lock p ≠ system.lock q) {before after : Data}
    (works : system.work q before after) :
    ∃ s, Reaches system before s ∧ s.inside p = true ∧ s.data = before ∧
      Step system s { s with data := after } := by
  obtain ⟨s, reached, first, second, rfl⟩ := exists_both_inside different before
  exact ⟨s, reached, first, rfl, .work s q after second works⟩

end Bracket
