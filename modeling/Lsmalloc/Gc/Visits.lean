import Lsmalloc.Gc.Completion

/-!
# The chunks a worker visits

`do_slowgc` skips a live head and stops at the first GC chunk, so it is meant to call
`chunk_do_slowgc` on the retired log chunks. It takes its next chunk from the one it has just
unlinked, which is linked to itself: it visits the first retired log chunk and no other
(`slowgc_visits_iff`).
-/

namespace Lsmalloc

open Execution

/-- The chunks that were passed to `chunk_do_slowgc`, in order. -/
def GcRun.visited (s : GcRun) : List Nat := (s.passed.map SlowgcCall.chunk).reverse

/-- Worker `0`, running alone, passes exactly these chunks to `chunk_do_slowgc`, in order: it
comes to have passed them, and never passes another. -/
structure GcRun.Visits (s : GcRun) (chunks : List Nat) : Prop where
  all : ∃ undefined s', run GcRun.step s (alone undefined) = .ok s' ∧ s'.visited = chunks
  only : ∀ undefined s', run GcRun.step s (alone undefined) = .ok s' → s'.visited <+: chunks

variable {s : GcRun} {h h' : Heap} {arena arena' : Arena} {head c d : Nat}
  {retired gcs undefined : List Nat}

/-! ## At most the first -/

/-- A trapped worker has passed its chunk once at most. -/
theorem Trapped.visited (trapped : Trapped s c) : s.visited <+: [c] := by
  obtain ⟨head, rest, ok⟩ := trapped.ok
  have once := ok.once
  have only : ∀ d ∈ s.passed.map SlowgcCall.chunk, d = c := by
    intro d member
    obtain ⟨call, passed, rfl⟩ := List.mem_map.mp member
    exact trapped.only call passed
  rw [GcRun.visited]
  cases passed : s.passed.map SlowgcCall.chunk with
  | nil => exact List.nil_prefix
  | cons d more =>
      rw [passed] at once only
      obtain rfl := only d List.mem_cons_self
      cases more with
      | nil => exact List.prefix_refl _
      | cons e more =>
          -- A second chunk would be the first again.
          obtain rfl := only e (by simp)
          simp at once

/-- With no retired log chunk the worker passes none. -/
theorem GcRun.idle_passes_none (shape : Shape h arena head [] gcs)
    (ran : run GcRun.step (.idle h arena) (alone undefined) = .ok s) : s.passed = [] := by
  match undefined with
  | [] =>
      cases ran
      rfl
  | [u] =>
      obtain ⟨s₁, stepped, ended⟩ := run_cons_eq_ok.mp ran
      cases ended
      obtain ⟨made, _, stepped⟩ := bind_eq_ok.mp stepped
      cases stepped
      rfl
  | u :: v :: undefined =>
      have split : alone (u :: v :: undefined) = alone [u, v] ++ alone undefined := rfl
      rw [split] at ran
      obtain ⟨s₂, first, rested⟩ := run_append_eq_ok.mp ran
      rw [GcRun.idle_gcAlloc] at first
      obtain ⟨⟨c, h₂, arena₂⟩, allocated, first⟩ := bind_eq_ok.mp first
      cases first
      obtain ⟨d, tail, queue, gc⟩ := shape.gc_first allocated
      match undefined with
      | [] =>
          cases rested
          rfl
      | [w] =>
          obtain ⟨s₃, entered, ended⟩ := run_cons_eq_ok.mp rested
          cases ended
          rw [GcRun.idle_enters queue] at entered
          cases entered
          rfl
      | w :: x :: undefined =>
          obtain ⟨s₃, entered, rested⟩ := run_cons_eq_ok.mp rested
          rw [GcRun.idle_enters queue] at entered
          cases entered
          obtain ⟨s₄, stopped, rested⟩ := run_cons_eq_ok.mp rested
          rw [GcRun.idle_stops queue gc] at stopped
          cases stopped
          cases undefined with
          | nil =>
              cases rested
              rfl
          | cons y undefined =>
              -- A worker that has returned takes no further step.
              obtain ⟨s₅, stepped, _⟩ := run_cons_eq_ok.mp rested
              simp [GcRun.step, GcRun.slowgcStep] at stepped

/-! ## The first -/

section First

variable (present : d ≠ 0) (isChunk : ⟨d, .chunk⟩ ∈ h.blocks) (g u : Nat)

include present isChunk

theorem GcRun.idle_looks (log : (h.chunks d).chunktype = .log) :
    ((GcRun.idle h arena).goto 0 (.looking d g)).step (.slowgc 0 u) =
      .ok ((GcRun.idle h arena).goto 0 (.claiming d g)) := by
  have read : h.getChunk d = .ok (h.chunks d) := getChunk_eq_ok.mpr ⟨⟨present, isChunk⟩, rfl⟩
  simp [GcRun.step, GcRun.slowgcStep, GcRun.idle, GcRun.goto, read, log, bind, Except.bind]

theorem GcRun.idle_claims (unclaimed : (h.chunks d).gcing = false) :
    ((GcRun.idle h arena).goto 0 (.claiming d g)).step (.slowgc 0 u) =
      .ok ((GcRun.idle (h.putChunk d { h.chunks d with gcing := true }) arena).goto 0
        (.claimed d g)) := by
  have read : h.getChunk d = .ok (h.chunks d) := getChunk_eq_ok.mpr ⟨⟨present, isChunk⟩, rfl⟩
  simp [GcRun.step, GcRun.slowgcStep, GcRun.idle, GcRun.goto, read, unclaimed, bind, Except.bind]

theorem GcRun.idle_passes :
    ∃ s, ((GcRun.idle h arena).goto 0 (.claimed d g)).step (.slowgc 0 u) = .ok s ∧
      s.visited = [d] := by
  have read : h.getChunk d = .ok (h.chunks d) := getChunk_eq_ok.mpr ⟨⟨present, isChunk⟩, rfl⟩
  refine ⟨{ GcRun.idle h arena with passed := [⟨0, d, (h.chunks d).live⟩] }.goto 0
    (if reclaimTest (h.chunks d) = true then .removing d else .evacuating d (.opening g)), ?_, rfl⟩
  simp [GcRun.step, GcRun.slowgcStep, GcRun.idle, GcRun.goto, read, bind, Except.bind]

end First

/-- The first retired log chunk is passed, unless it is claimed. -/
theorem GcRun.idle_visits_first {r : Nat} {more : List Nat}
    (shape : Shape h arena head (r :: more) gcs) (unclaimed : (h.chunks r).gcing = false)
    (allocated : gcAllocChunk h arena = .ok (c, h', arena')) :
    ∃ s, run GcRun.step (.idle h arena) (alone [0, 0, 0, 0, 0, 0]) = .ok s ∧ s.visited = [r] := by
  have queue := (shape.gcAlloc allocated).queue
  obtain ⟨_, added, _⟩ := shape.queue.gcAlloc allocated
  have isChunk : ⟨r, .chunk⟩ ∈ h'.blocks := queue.isChunk r (by simp)
  have present : r ≠ 0 := h'.placed.nonnull _ isChunk
  have old : r ≠ c := by
    rintro rfl
    exact shape.queue.not_mem added.fresh (by simp)
  have log : (h'.chunks r).chunktype = .log := (shape.gcAlloc allocated).logs r (by simp)
  have unclaimed' : (h'.chunks r).gcing = false :=
    (Chunk.marks_eq (added.others r old)).2.2.trans unclaimed
  let claimed := h'.putChunk r { h'.chunks r with gcing := true }
  have still : ⟨r, .chunk⟩ ∈ claimed.blocks := isChunk
  obtain ⟨s, passed, visited⟩ : ∃ s,
      ((GcRun.idle claimed arena').goto 0 (.claimed r c)).step (.slowgc 0 0) = .ok s ∧
        s.visited = [r] := GcRun.idle_passes present still c 0
  refine ⟨s, ?_, visited⟩
  have split : alone [0, 0, 0, 0, 0, 0] = alone [0, 0] ++ alone [0, 0, 0, 0] := rfl
  rw [split, run_append_eq_ok]
  refine ⟨(GcRun.idle h' arena').goto 0 (.entering c), ?_, ?_⟩
  · rw [GcRun.idle_gcAlloc, allocated]
    rfl
  · refine run_cons_eq_ok.mpr ⟨_, GcRun.idle_enters queue c 0, ?_⟩
    refine run_cons_eq_ok.mpr ⟨_, GcRun.idle_looks present isChunk c 0 log, ?_⟩
    refine run_cons_eq_ok.mpr ⟨_, GcRun.idle_claims present isChunk c 0 unclaimed', ?_⟩
    exact run_cons_eq_ok.mpr ⟨s, passed, rfl⟩

/-! ## The condition -/

/-- A worker that runs alone visits exactly the retired log chunks if and only if there is at
most one of them. -/
theorem visits_retired_iff (shape : Shape h arena head retired gcs)
    (unclaimed : ∀ r ∈ retired, (h.chunks r).gcing = false)
    (allocated : gcAllocChunk h arena = .ok (c, h', arena')) :
    (GcRun.idle h arena).Visits retired ↔ retired.length ≤ 1 := by
  cases retired with
  | nil =>
      refine ⟨fun _ => Nat.zero_le 1, fun _ => ⟨⟨[], _, rfl, rfl⟩, fun undefined s ran => ?_⟩⟩
      rw [GcRun.visited, GcRun.idle_passes_none shape ran]
      exact List.nil_prefix
  | cons r more =>
      have first : ∀ undefined s, run GcRun.step (.idle h arena) (alone undefined) = .ok s →
          s.visited <+: [r] := by
        intro undefined s ran
        rcases GcRun.idle_trapped shape ran with ⟨_, none⟩ | trapped
        · rw [GcRun.visited, none]
          exact List.nil_prefix
        · exact trapped.visited
      constructor
      · rintro ⟨⟨undefined, s, ran, all⟩, _⟩
        have short := (first undefined s ran).length_le
        rwa [all] at short
      · intro one
        obtain rfl : more = [] := by simpa using one
        obtain ⟨s, ran, visited⟩ :=
          GcRun.idle_visits_first shape (unclaimed r List.mem_cons_self) allocated
        exact ⟨⟨_, s, ran, visited⟩, first⟩

end Lsmalloc
