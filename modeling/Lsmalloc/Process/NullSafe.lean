import Lsmalloc.Process.Run

/-!
# Requests that follow `NULL`

`arena_new` leaves `avail_chunks` empty and only `arena_region_alloc` adds a log chunk to
it, after setting a field of the chunk at its head. Nothing calls `huge_boot`. So a run
follows `NULL` exactly when it makes a request that the small path does not serve.
-/

namespace Lsmalloc

open Execution (Delivers)

/-- No call of the run followed `NULL`. -/
def NullSafe (outcome : Except Fault ProcessRun) : Prop := outcome ≠ .error .null

/-- The environment and the caller did not end the run. -/
def Undisturbed (outcome : Except Fault ProcessRun) : Prop :=
  ∀ fault, outcome = .error fault → ¬ fault.FromEnvironment

variable {heap : Heap} {garbage : Nat → Arena} {nprocessors : Int} {ops : List ProcessOp}

theorem not_fromEnvironment_null : ¬ Fault.FromEnvironment .null := by
  rintro (same | same) <;> cases same

/-- A run of small requests fails only as the environment makes it fail. -/
theorem processRun_small (small : ∀ op ∈ ops, op.Small) :
    Delivers Fault.FromEnvironment ProcessRun.Inv (processRun heap garbage nprocessors ops) := by
  refine (mallocInitHard_ok heap garbage nprocessors).bind fun p ok => ?_
  refine Execution.run_delivers (fun s op inv small => inv.step_small small) ?_ small
  exact ⟨ok, by simp⟩

/-- Any run that fails follows `NULL` or is failed by the environment. -/
theorem processRun_failsOnly :
    Delivers Fault.NullOrEnvironment ProcessRun.Inv (processRun heap garbage nprocessors ops) := by
  have stepped : ∀ (s : ProcessRun) op, s.Inv → True →
      Delivers Fault.NullOrEnvironment ProcessRun.Inv (s.step op) := by
    intro s op inv _
    by_cases small : op.Small
    · exact (inv.step_small small).mono (fun _ => .inr) fun _ here => here
    · exact (inv.step_large small).mono (fun _ here => here) fun _ impossible => impossible.elim
  refine ((mallocInitHard_ok heap garbage nprocessors).mono (fun _ => .inr) fun _ here => here).bind
    fun p ok => ?_
  exact Execution.run_delivers stepped ⟨ok, by simp⟩ fun _ _ => trivial

/-- All requests of a run that completed were small. -/
theorem processRun_admitted {s : ProcessRun}
    (reached : processRun heap garbage nprocessors ops = .ok s) : ∀ op ∈ ops, op.Small := by
  obtain ⟨p, started, ran⟩ := Execution.bind_eq_ok.mp reached
  have ok := (mallocInitHard_ok heap garbage nprocessors).2 p started
  have start : ProcessRun.Inv ⟨p, []⟩ := ⟨ok, by simp⟩
  have stops : ∀ (s : ProcessRun) op s', s.Inv → s.step op = .ok s' → op.Small := by
    intro s op s' inv stepped
    by_contra large
    exact (inv.step_large large).2 s' stepped
  exact Execution.admitted_of_run (fun _ _ _ inv stepped => inv.step stepped) stops start ran

/-- **What follows `NULL`.** A run that is not disturbed follows no `NULL` exactly when each
of its requests is below `arena_maxsmall`. -/
theorem processRun_nullSafe_iff
    (undisturbed : Undisturbed (processRun heap garbage nprocessors ops)) :
    NullSafe (processRun heap garbage nprocessors ops) ↔ ∀ op ∈ ops, op.Small := by
  constructor
  · intro safe
    cases outcome : processRun heap garbage nprocessors ops with
    | ok s => exact processRun_admitted outcome
    | error fault =>
        rcases processRun_failsOnly.1 fault outcome with rfl | disturbed
        · exact absurd outcome safe
        · exact absurd disturbed (undisturbed fault outcome)
  · intro small failed
    exact not_fromEnvironment_null ((processRun_small small).1 _ failed)

/-- The theorem at a run of two small requests and a free. -/
theorem processRun_nullSafe_of_small :
    NullSafe (processRun (.fresh [chunksize] [1024, 2048, 4096]) (fun _ => .zeroed) 1
      [.lsmalloc 0 0 0 0, .lsmalloc 0 100 0 0, .lsfree 4194336]) := by
  refine (processRun_nullSafe_iff ?_).mpr (by decide)
  have reached : ∃ s, processRun (.fresh [chunksize] [1024, 2048, 4096]) (fun _ => .zeroed) 1
      [.lsmalloc 0 0 0 0, .lsmalloc 0 100 0 0, .lsfree 4194336] = .ok s :=
    Execution.exists_eq_ok (by decide +kernel)
  intro fault failed
  obtain ⟨s, completed⟩ := reached
  rw [completed] at failed
  cases failed

/-- The first request of 300 bytes follows `NULL`, and so does the first of 8 MiB. -/
theorem not_nullSafe_of_large :
    ¬ NullSafe (processRun (.fresh [chunksize] [1024]) (fun _ => .zeroed) 1 [.lsmalloc 0 300 0 0]) ∧
      ¬ NullSafe (processRun (.fresh [chunksize, 268435456] []) (fun _ => .zeroed) 1
        [.lsmalloc 0 8388608 0 0]) := by
  have large : processRun (.fresh [chunksize] [1024]) (fun _ => .zeroed) 1
      [.lsmalloc 0 300 0 0] = .error .null := Execution.eq_error (by decide +kernel)
  have huge : processRun (.fresh [chunksize, 268435456] []) (fun _ => .zeroed) 1
      [.lsmalloc 0 8388608 0 0] = .error .null := Execution.eq_error (by decide +kernel)
  exact ⟨fun safe => safe large, fun safe => safe huge⟩

end Lsmalloc
