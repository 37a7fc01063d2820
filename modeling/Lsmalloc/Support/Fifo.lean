import Mathlib.Data.List.Infix
import Lsmalloc.Support.Execution

/-!
# First-in first-out queues

A queue serves its members in the order in which they entered it. Members enter one at
a time at the back, or as a batch when the queue is empty. Whatever is served and
whatever is still queued are, in this order, what was queued before and what entered
since (`Trace.conserves`), so a member waits for everything queued before it
(`Trace.waits`). `Trace.of_run` is the rule that a program which simulates the queue
step by step simulates it over whole runs.
-/

namespace Fifo

universe u v w

variable {α : Type u}

/-- What happens to a queue. -/
inductive Event (α : Type u)
  | push (a : α)
  | pop (a : α)
  /-- An empty queue is filled with a batch. -/
  | refill (batch : List α)

/-- The event takes one queue to the other. -/
inductive Step : List α → Event α → List α → Prop
  | push {queue : List α} (a : α) : Step queue (.push a) (queue ++ [a])
  | pop {queue : List α} (a : α) : Step (a :: queue) (.pop a) queue
  | refill (batch : List α) : Step [] (.refill batch) batch

/-- The events, in order, take one queue to the other. -/
inductive Trace : List α → List (Event α) → List α → Prop
  | nil (queue : List α) : Trace queue [] queue
  | cons {before middle after : List α} {event : Event α} {events : List (Event α)}
      (step : Step before event middle) (later : Trace middle events after) :
      Trace before (event :: events) after

/-- The members an event lets into the queue. -/
def Event.entered : Event α → List α
  | .push a => [a]
  | .pop _ => []
  | .refill batch => batch

/-- The members an event serves. -/
def Event.served : Event α → List α
  | .push _ => []
  | .pop a => [a]
  | .refill _ => []

/-- The members that entered, the earliest first. -/
def entered (events : List (Event α)) : List α := events.flatMap Event.entered

/-- The members that were served, the earliest first. -/
def served (events : List (Event α)) : List α := events.flatMap Event.served

@[simp] theorem served_nil : served ([] : List (Event α)) = [] := rfl

@[simp] theorem served_cons (event : Event α) (events : List (Event α)) :
    served (event :: events) = event.served ++ served events := List.flatMap_cons

@[simp] theorem served_append (first rest : List (Event α)) :
    served (first ++ rest) = served first ++ served rest := List.flatMap_append

variable {before middle after queue : List α} {event : Event α} {events more : List (Event α)}

/-- One event keeps the order. -/
theorem Step.conserves (step : Step before event after) :
    event.served ++ after = before ++ event.entered := by
  cases step with
  | push a => rfl
  | pop a => simp [Event.served, Event.entered]
  | refill batch => rfl

/-- A trace keeps the order. -/
theorem Trace.conserves (trace : Trace before events after) :
    served events ++ after = before ++ entered events := by
  induction trace with
  | nil queue => simp [entered]
  | cons step later ih =>
      have here := step.conserves
      rw [served_cons, List.append_assoc, ih, ← List.append_assoc, here]
      simp [entered, List.append_assoc]

/-- Traces compose. -/
theorem Trace.append (first : Trace before events middle) (rest : Trace middle more after) :
    Trace before (events ++ more) after := by
  induction first with
  | nil queue => exact rest
  | cons step _ ih => exact .cons step (ih rest)

/-- A member at the back of a queue is served after all that was queued before it. -/
theorem Trace.waits {a : α} (trace : Trace (queue ++ [a]) events after) :
    served events <+: queue ∨ queue ++ [a] <+: served events := by
  have order := trace.conserves
  have early : served events <+: queue ++ [a] ++ entered events := ⟨after, order⟩
  have late : queue ++ [a] <+: queue ++ [a] ++ entered events := List.prefix_append _ _
  rcases List.prefix_or_prefix_of_prefix early late with short | long
  · rcases List.prefix_concat_iff.mp short with whole | part
    · exact .inr (whole ▸ List.prefix_refl _)
    · exact .inl part
  · exact .inr long

/-- A program whose every step is a trace of the queue it reads as is one over whole runs;
`log` is where it keeps what it served. -/
theorem Trace.of_run {State : Type v} {Op : Type v} {Fault : Type w}
    {step : State → Op → Except Fault State} {reads : State → List α → Prop}
    {log : State → List α}
    (simulates : ∀ state op next queue, reads state queue → step state op = .ok next →
      ∃ events queue', Trace queue events queue' ∧ reads next queue' ∧
        log next = log state ++ served events)
    {state final : State} {ops : List Op} (start : reads state queue)
    (reached : Execution.run step state ops = .ok final) :
    ∃ events queue', Trace queue events queue' ∧ reads final queue' ∧
      log final = log state ++ served events := by
  induction ops generalizing state queue with
  | nil =>
      cases reached
      exact ⟨[], queue, .nil queue, start, by simp⟩
  | cons op ops ih =>
      obtain ⟨next, stepped, rested⟩ := Execution.run_cons_eq_ok.mp reached
      obtain ⟨events, middle, first, here, logged⟩ := simulates _ _ _ _ start stepped
      obtain ⟨more, last, rest, there, loggedRest⟩ := ih here rested
      refine ⟨events ++ more, last, first.append rest, there, ?_⟩
      rw [loggedRest, logged, served_append, List.append_assoc]

end Fifo
