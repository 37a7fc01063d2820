import Lsmalloc.Arena.Accounting
import Lsmalloc.Gc.Workers

/-!
# The fast sweep

`fastgc_scheduler` walks `avail_chunks` with `ql_foreach`, which reads the links of the
current element after the body. A body that reclaims the chunk has unlinked it by then and
linked it to itself, so the walk comes back to the chunk, finds the reclaim test as it was,
and gives it to the pool again, for ever. A sweep ends exactly when there is nothing to
reclaim (`fastgc_sweeps_iff`).
-/

namespace Lsmalloc

open Execution

variable {h : Heap} {arena : Arena} {c : Nat} {elms front rest : List Nat}

/-- The sweep of an idle arena, at a place of its loop. -/
def sweepAt (h : Heap) (arena : Arena) (pc : FastgcPc) : GcRun :=
  { GcRun.idle h arena with sweep := pc }

/-- One sweep of the arena ends. It has given each chunk that met the reclaim test to the pool
once, and no other, and has left the others on `avail_chunks` in their order. -/
def SweepsExactly (h : Heap) (arena : Arena) (elms : List Nat) : Prop :=
  ∃ steps s, run GcRun.step (.idle h arena) (List.replicate steps .fastgc) = .ok s ∧
    s.sweep = .done ∧
    s.freed.Perm (elms.filter fun c => reclaimTest (h.chunks c) = true) ∧
    IsQl s.heap.availLink s.arena.availChunks
      (elms.filter fun c => reclaimTest (h.chunks c) = false)

/-! ## Nothing to reclaim -/

/-- A chunk that the test passes over is passed over. -/
theorem sweep_passes (queue : IsQl h.availLink arena.availChunks (front ++ c :: rest))
    (isChunk : ⟨c, .chunk⟩ ∈ h.blocks) (passed : reclaimTest (h.chunks c) = false) :
    run GcRun.step (sweepAt h arena (.testing c)) [.fastgc, .fastgc] =
      .ok (sweepAt h arena (.at (rest.headD 0))) := by
  have read : h.getChunk c = .ok (h.chunks c) :=
    getChunk_eq_ok.mpr ⟨⟨queue.nonnull c (by simp), isChunk⟩, rfl⟩
  have tested : (sweepAt h arena (.testing c)).step .fastgc =
      .ok (sweepAt h arena (.advancing c)) := by
    simp [GcRun.step, GcRun.fastgcStep, sweepAt, GcRun.idle, read, passed, bind, Except.bind]
  have advanced : (sweepAt h arena (.advancing c)).step .fastgc =
      .ok (sweepAt h arena (.at (rest.headD 0))) := by
    rw [← queue.foreach_next]
    simp only [GcRun.step, GcRun.fastgcStep, sweepAt, GcRun.idle, read]
    rfl
  exact run_cons_eq_ok.mpr ⟨_, tested, run_cons_eq_ok.mpr ⟨_, advanced, rfl⟩⟩

/-- From a chunk on, a sweep that has nothing to reclaim ends. -/
theorem sweep_ends (queue : IsQl h.availLink arena.availChunks (front ++ rest))
    (isChunk : ∀ c ∈ rest, ⟨c, .chunk⟩ ∈ h.blocks)
    (passed : ∀ c ∈ rest, reclaimTest (h.chunks c) = false) :
    ∃ steps, run GcRun.step (sweepAt h arena (.at (rest.headD 0)))
      (List.replicate steps .fastgc) = .ok (sweepAt h arena .done) := by
  induction rest generalizing front with
  | nil => exact ⟨0, rfl⟩
  | cons c rest ih =>
      have present : c ≠ 0 := queue.nonnull c (by simp)
      have behind : IsQl h.availLink arena.availChunks ((front ++ [c]) ++ rest) := by
        simpa using queue
      obtain ⟨steps, ended⟩ := ih behind
        (fun d member => isChunk d (List.mem_cons_of_mem _ member))
        (fun d member => passed d (List.mem_cons_of_mem _ member))
      have here : FastgcPc.at ((c :: rest).headD 0) = .testing c := if_neg present
      rw [here]
      refine ⟨2 + steps, ?_⟩
      rw [List.replicate_add]
      exact run_append_eq_ok.mpr ⟨_, sweep_passes queue (isChunk c (by simp)) (passed c (by simp)),
        ended⟩

/-! ## Something to reclaim -/

/-- The sweep is at a chunk that is to be reclaimed, off the queue, and linked to itself. -/
structure SweepTrapped (s : GcRun) (c : Nat) : Prop where
  nonnull : c ≠ 0
  isChunk : ⟨c, .chunk⟩ ∈ s.heap.blocks
  test : reclaimTest (s.heap.chunks c) = true
  self : s.heap.availLink.IsRing [c]
  unlinked : s.arena.availChunks ≠ c
  here : s.sweep ∈ [.testing c, .removing c, .freeing c, .advancing c]

/-- It goes round there. -/
theorem SweepTrapped.step {s : GcRun} (trapped : SweepTrapped s c) :
    ∃ s', s.step .fastgc = .ok s' ∧ SweepTrapped s' c := by
  obtain ⟨nonnull, isChunk, test, self, unlinked, here⟩ := trapped
  obtain ⟨next, prev⟩ := Links.isRing_singleton.mp self
  have read : s.heap.getChunk c = .ok (s.heap.chunks c) :=
    getChunk_eq_ok.mpr ⟨⟨nonnull, isChunk⟩, rfl⟩
  simp only [List.mem_cons, List.not_mem_nil, or_false] at here
  rcases here with place | place | place | place
  · refine ⟨{ s with sweep := .removing c }, ?_, nonnull, isChunk, test, self, unlinked, by simp⟩
    simp [GcRun.step, GcRun.fastgcStep, place, read, test, bind, Except.bind]
  · -- The removal of a chunk that is linked to itself does nothing.
    have removed : s.heap.availRemove s.arena.availChunks c =
        .ok (s.arena.availChunks, s.heap) := by
      refine availRemove_eq_ok.mpr ⟨?_, ?_, ?_⟩
      · intro n member
        simp only [qlRemoveNodes, if_neg unlinked, next, prev, List.mem_cons, List.not_mem_nil,
          or_false, or_self] at member
        rw [member]
        exact ⟨nonnull, isChunk⟩
      · rw [qlRemove_self self unlinked]
      · rw [qlRemove_self self unlinked]
    refine ⟨{ s with
      sweep := .freeing c
      swept := (c, (s.heap.chunks c).gcing) :: s.swept }, ?_, nonnull, isChunk, test, self,
      unlinked, by simp⟩
    simp [GcRun.step, GcRun.fastgcStep, place, removed, bind, Except.bind]
  · refine ⟨{ s with
      arena := { s.arena with pool := pmempoolFree s.arena.pool c }
      sweep := .advancing c
      freed := c :: s.freed
      swept := (c, (s.heap.chunks c).gcing) :: s.swept }, ?_, nonnull, isChunk, test, self,
      unlinked, by simp⟩
    simp [GcRun.step, GcRun.fastgcStep, place]
  · -- `qre_next` is the chunk itself, which the head of the queue is not.
    refine ⟨{ s with sweep := .testing c }, ?_, nonnull, isChunk, test, self, unlinked, by simp⟩
    simp [GcRun.step, GcRun.fastgcStep, place, read, next, unlinked.symm, FastgcPc.at, nonnull,
      bind, Except.bind]

/-- The sweep has yet to come to a chunk that is to be reclaimed. -/
inductive SweepAhead (h : Heap) (arena : Arena) (elms : List Nat) : GcRun → Prop
  | start : SweepAhead h arena elms (sweepAt h arena .start)
  | testing {front rest : List Nat} {c : Nat} (split : elms = front ++ c :: rest)
      (ahead : ∃ d ∈ c :: rest, reclaimTest (h.chunks d) = true) :
      SweepAhead h arena elms (sweepAt h arena (.testing c))
  | advancing {front rest : List Nat} {c : Nat} (split : elms = front ++ c :: rest)
      (ahead : ∃ d ∈ rest, reclaimTest (h.chunks d) = true) :
      SweepAhead h arena elms (sweepAt h arena (.advancing c))
  | removing {c : Nat} (member : c ∈ elms) (test : reclaimTest (h.chunks c) = true) :
      SweepAhead h arena elms (sweepAt h arena (.removing c))

/-- A place of the walk with something to reclaim from there on. -/
theorem SweepAhead.at_headD (queue : IsQl h.availLink arena.availChunks elms)
    (split : elms = front ++ rest) (ahead : ∃ d ∈ rest, reclaimTest (h.chunks d) = true) :
    SweepAhead h arena elms (sweepAt h arena (.at (rest.headD 0))) := by
  cases rest with
  | nil => simp at ahead
  | cons c rest =>
      have present : c ≠ 0 := queue.nonnull c (by simp [split])
      rw [List.headD_cons, FastgcPc.at, if_neg present]
      exact .testing split ahead

/-- A chunk of the queue that is to be reclaimed is taken off it, and linked to itself. -/
theorem sweep_removes (queue : IsQl h.availLink arena.availChunks elms)
    (isChunk : ∀ c ∈ elms, ⟨c, .chunk⟩ ∈ h.blocks) (member : c ∈ elms)
    (test : reclaimTest (h.chunks c) = true) :
    ∃ s, (sweepAt h arena (.removing c)).step .fastgc = .ok s ∧ SweepTrapped s c := by
  have nonnull := queue.nonnull c member
  have removed := availRemove_eq_ok.mpr
    ⟨fun n isNode => ⟨queue.nonnull n (queue.mem_of_qlRemoveNodes member isNode),
      isChunk n (queue.mem_of_qlRemoveNodes member isNode)⟩, rfl, rfl⟩
  have left := queue.remove member
  have outside : c ∉ elms.erase c := fun again =>
    (List.nodup_cons.mp ((List.perm_cons_erase member).nodup_iff.mp queue.nodup)).1 again
  have stepped : (sweepAt h arena (.removing c)).step .fastgc = .ok { sweepAt
      { h with availLink := (qlRemove h.availLink arena.availChunks c).1 }
      { arena with availChunks := (qlRemove h.availLink arena.availChunks c).2 } (.freeing c) with
      swept := [(c, (h.chunks c).gcing)] } := by
    simp only [GcRun.step, GcRun.fastgcStep, sweepAt, GcRun.idle, removed]
    rfl
  refine ⟨_, stepped, nonnull, isChunk c member, test, queue.removed_self member, ?_, by
    simp [sweepAt]⟩
  intro same
  change (qlRemove h.availLink arena.availChunks c).2 = c at same
  have entry := left.first_mem (by rwa [same])
  rw [same] at entry
  exact outside entry

/-- It goes on towards the chunk, and is trapped there. -/
theorem SweepAhead.step {s : GcRun} (queue : IsQl h.availLink arena.availChunks elms)
    (isChunk : ∀ c ∈ elms, ⟨c, .chunk⟩ ∈ h.blocks)
    (some : ∃ d ∈ elms, reclaimTest (h.chunks d) = true) (ahead : SweepAhead h arena elms s) :
    ∃ s', s.step .fastgc = .ok s' ∧ (SweepAhead h arena elms s' ∨ ∃ c, SweepTrapped s' c) := by
  have read : ∀ c ∈ elms, h.getChunk c = .ok (h.chunks c) := fun c member =>
    getChunk_eq_ok.mpr ⟨⟨queue.nonnull c member, isChunk c member⟩, rfl⟩
  cases ahead with
  | start =>
      refine ⟨sweepAt h arena (.at arena.availChunks), rfl, .inl ?_⟩
      rw [queue.first_eq]
      exact .at_headD queue (List.nil_append elms).symm some
  | @testing front rest c split ahead =>
      have member : c ∈ elms := by simp [split]
      by_cases test : reclaimTest (h.chunks c) = true
      · refine ⟨sweepAt h arena (.removing c), ?_, .inl (.removing member test)⟩
        simp [GcRun.step, GcRun.fastgcStep, sweepAt, GcRun.idle, read c member, test, bind,
          Except.bind]
      · obtain ⟨d, inRest, testD⟩ := ahead
        have later : d ∈ rest := (List.mem_cons.mp inRest).resolve_left fun same =>
          test (same ▸ testD)
        refine ⟨sweepAt h arena (.advancing c), ?_, .inl (.advancing split ⟨d, later, testD⟩)⟩
        simp [GcRun.step, GcRun.fastgcStep, sweepAt, GcRun.idle, read c member, test, bind,
          Except.bind]
  | @advancing front rest c split ahead =>
      have member : c ∈ elms := by simp [split]
      have reread : elms = (front ++ [c]) ++ rest := by simp [split]
      refine ⟨sweepAt h arena (.at (rest.headD 0)), ?_, .inl (.at_headD queue reread ahead)⟩
      rw [split] at queue
      rw [← queue.foreach_next]
      simp only [GcRun.step, GcRun.fastgcStep, sweepAt, GcRun.idle, read c member]
      rfl
  | removing member test =>
      obtain ⟨s', stepped, trapped⟩ := sweep_removes queue isChunk member test
      exact ⟨s', stepped, .inr ⟨_, trapped⟩⟩

/-- A sweep with something to reclaim takes any number of steps and is never done. -/
theorem sweep_forever (queue : IsQl h.availLink arena.availChunks elms)
    (isChunk : ∀ c ∈ elms, ⟨c, .chunk⟩ ∈ h.blocks)
    (some : ∃ d ∈ elms, reclaimTest (h.chunks d) = true) (steps : Nat) :
    ∃ s, run GcRun.step (.idle h arena) (List.replicate steps .fastgc) = .ok s ∧
      s.sweep ≠ .done := by
  have progress : ∀ s, (SweepAhead h arena elms s ∨ ∃ c, SweepTrapped s c) →
      ∃ s', s.step .fastgc = .ok s' ∧ (SweepAhead h arena elms s' ∨ ∃ c, SweepTrapped s' c) := by
    rintro s (ahead | ⟨c, trapped⟩)
    · exact ahead.step queue isChunk some
    · obtain ⟨s', stepped, still⟩ := trapped.step
      exact ⟨s', stepped, .inr ⟨c, still⟩⟩
  obtain ⟨s, reached, inv⟩ := run_replicate _ progress (.inl .start) steps
  refine ⟨s, reached, ?_⟩
  rcases inv with ahead | ⟨c, trapped⟩
  · cases ahead <;> simp [sweepAt]
  · intro done
    simpa [done] using trapped.here

/-- So it is not what it should be. -/
theorem not_sweepsExactly (queue : IsQl h.availLink arena.availChunks elms)
    (isChunk : ∀ c ∈ elms, ⟨c, .chunk⟩ ∈ h.blocks)
    (some : ∃ d ∈ elms, reclaimTest (h.chunks d) = true) : ¬ SweepsExactly h arena elms := by
  rintro ⟨steps, s, reached, done, -⟩
  obtain ⟨s', reached', notDone⟩ := sweep_forever queue isChunk some steps
  rw [reached] at reached'
  cases reached'
  exact notDone done

/-- **The sweep ends exactly when there is nothing to reclaim.** With a chunk that meets the
reclaim test, wherever it is on the queue, it goes on for ever. -/
theorem fastgc_sweeps_iff (queue : IsQl h.availLink arena.availChunks elms)
    (isChunk : ∀ c ∈ elms, ⟨c, .chunk⟩ ∈ h.blocks) :
    (SweepsExactly h arena elms ↔ ∀ c ∈ elms, reclaimTest (h.chunks c) = false) ∧
      ((∃ c ∈ elms, reclaimTest (h.chunks c) = true) → ∀ steps, ∃ s,
        run GcRun.step (.idle h arena) (List.replicate steps .fastgc) = .ok s ∧
          s.sweep ≠ .done) := by
  refine ⟨⟨?_, ?_⟩, fun some => sweep_forever queue isChunk some⟩
  · intro exactly c member
    by_contra test
    rw [Bool.not_eq_false] at test
    exact not_sweepsExactly queue isChunk ⟨c, member, test⟩ exactly
  · intro nothing
    have whole : IsQl h.availLink arena.availChunks ([] ++ elms) := queue
    obtain ⟨steps, ended⟩ := sweep_ends whole isChunk nothing
    rw [← queue.first_eq] at ended
    have swept : run GcRun.step (.idle h arena) (List.replicate (steps + 1) .fastgc) =
        .ok (sweepAt h arena .done) := by
      rw [List.replicate_succ]
      exact run_cons_eq_ok.mpr ⟨_, rfl, ended⟩
    refine ⟨steps + 1, _, swept, rfl, ?_, ?_⟩
    · have none : elms.filter (fun c => reclaimTest (h.chunks c) = true) = [] := by
        rw [List.filter_eq_nil_iff]
        intro c member
        simp [nothing c member]
      rw [none]
      exact List.Perm.refl _
    · have all : elms.filter (fun c => reclaimTest (h.chunks c) = false) = elms := by
        rw [List.filter_eq_self]
        intro c member
        simp [nothing c member]
      rw [all]
      exact queue

/-- `avail_chunks` of an arena that a run leaves. -/
theorem logRun_queue {ind : Nat} {ops : List LogOp} {s : ArenaState}
    (reached : logRun h arena ind ops = .ok s) :
    IsQl s.heap.availLink s.arena.availChunks (s.heap.availList s.arena.availChunks) ∧
      ∀ c ∈ s.heap.availList s.arena.availChunks, ⟨c, .chunk⟩ ∈ s.heap.blocks := by
  obtain ⟨logs, regions, accounts⟩ := logRun_accounted reached
  rw [accounts.chunks.availList_eq.1]
  refine ⟨accounts.chunks.logRing, fun c member => ?_⟩
  exact ((accounts.chunks.out.new c).mp (List.mem_append_left _ member)).1

/-- A retired chunk with a live region behind the head: there is nothing to reclaim. -/
theorem fastgc_sweeps_iff_of_alive :
    ∃ s, logRun (.fresh [chunksize] [1024, 2048, 3072, 4096]) .zeroed 0
        [.regionAlloc 240 0 0, .regionAlloc 4194296 0 0] = .ok s ∧
      s.heap.availList s.arena.availChunks = [4096, 1024] ∧
      SweepsExactly s.heap s.arena (s.heap.availList s.arena.availChunks) := by
  obtain ⟨s, reached, listed, nothing⟩ : ∃ s,
      logRun (.fresh [chunksize] [1024, 2048, 3072, 4096]) .zeroed 0
        [.regionAlloc 240 0 0, .regionAlloc 4194296 0 0] = .ok s ∧
      s.heap.availList s.arena.availChunks = [4096, 1024] ∧
      ∀ c ∈ s.heap.availList s.arena.availChunks, reclaimTest (s.heap.chunks c) = false :=
    exists_eq_ok_and (by decide +kernel)
  obtain ⟨queue, isChunk⟩ := logRun_queue reached
  exact ⟨s, reached, listed, (fastgc_sweeps_iff queue isChunk).1.mpr nothing⟩

/-- Of two chunks the one behind the head meets the reclaim test. -/
theorem not_fastgc_sweeps :
    ∃ s, logRun (.fresh [chunksize] [1024, 2048, 3072, 4096]) .zeroed 0
        [.regionAlloc 152 0 0, .regionAlloc 4194288 0 0] = .ok s ∧
      s.heap.availList s.arena.availChunks = [4096, 1024] ∧
      reclaimTest (s.heap.chunks 1024) = true ∧
      (∀ steps, ∃ s', run GcRun.step (.idle s.heap s.arena) (List.replicate steps .fastgc) =
        .ok s' ∧ s'.sweep ≠ .done) ∧
      ¬ SweepsExactly s.heap s.arena (s.heap.availList s.arena.availChunks) := by
  obtain ⟨s, reached, listed, test⟩ : ∃ s,
      logRun (.fresh [chunksize] [1024, 2048, 3072, 4096]) .zeroed 0
        [.regionAlloc 152 0 0, .regionAlloc 4194288 0 0] = .ok s ∧
      s.heap.availList s.arena.availChunks = [4096, 1024] ∧
      reclaimTest (s.heap.chunks 1024) = true := exists_eq_ok_and (by decide +kernel)
  obtain ⟨queue, isChunk⟩ := logRun_queue reached
  have some : ∃ c ∈ s.heap.availList s.arena.availChunks, reclaimTest (s.heap.chunks c) = true :=
    ⟨1024, by simp [listed], test⟩
  exact ⟨s, reached, listed, test, sweep_forever queue isChunk some,
    not_sweepsExactly queue isChunk some⟩

end Lsmalloc
