import Lsmalloc.Huge.Records

/-!
# The files of the huge blocks

`huge_malloc` forms its path from `mmap_file` and advances the counter before it records
`file_no` from it, so a record names the file after its own. `huge_dalloc` removes the file
its record names: the file of the next mapping, if there is one, and never the block's own.
-/

namespace Lsmalloc

open Execution

/-- Every `huge_dalloc` so far removed the file that `huge_malloc` made for the block. -/
def HugeRun.FilesMatched (s : HugeRun) : Prop := ∀ own gone, (own, gone) ∈ s.removed → own = gone

/-- The call frees a block. -/
def HugeOp.isDalloc : HugeOp → Bool
  | .dalloc _ => true
  | _ => false

/-- The record of every outstanding block names the file after its own. -/
def HugeRun.NamesNext (s : HugeRun) : Prop :=
  ∀ b ∈ s.live, ∃ m, b.path = .huge m ∧ (s.huge.nodes b.node).fileNo = (m + 1) % 2 ^ 32

/-- Every file removed so far was the one after the block's own. -/
def HugeRun.RemovesNext (s : HugeRun) : Prop :=
  ∀ own gone, (own, gone) ∈ s.removed → ∃ m, own = .huge m ∧ gone = .huge ((m + 1) % 2 ^ 32)

/-- A 32 bit counter is not where it was after one step. -/
theorem next_ne (m : Nat) : (m + 1) % 2 ^ 32 ≠ m := by
  omega

/-- The file after a block's own is another. -/
theorem HugeRun.RemovesNext.ne {s : HugeRun} (next : s.RemovesNext) {own gone : PmemPath}
    (member : (own, gone) ∈ s.removed) : own ≠ gone := by
  obtain ⟨m, rfl, rfl⟩ := next own gone member
  rintro same
  exact next_ne m (PmemPath.huge.inj same).symm

/-- What a run keeps: the blocks are recorded, and the records name the files after theirs. -/
structure FilesOk (s : HugeRun) : Prop where
  records : HugeOk s
  names : s.NamesNext
  removes : s.RemovesNext

theorem FilesOk.booted (w : World) (huge : HugeMap) (pools : Nat → Pmempool) :
    FilesOk (.booted w huge pools) where
  records := .booted w huge pools
  names := by simp [HugeRun.NamesNext, HugeRun.booted]
  removes := by simp [HugeRun.RemovesNext, HugeRun.booted]

variable {s s' : HugeRun} {op : HugeOp} {node size ptr : Nat}

/-- `huge_malloc` records the counter after it has advanced it. -/
theorem FilesOk.malloc (ok : FilesOk s) (stepped : s.step (.malloc node size) = .ok s') :
    FilesOk s' ∧ s'.removed = s.removed := by
  obtain ⟨unused, records⟩ := ok.records.malloc stepped
  obtain ⟨_, ret, allocated, live, removed⟩ := HugeRun.step_malloc stepped
  refine ⟨⟨records, ?_, ?_⟩, removed⟩
  · unfold HugeRun.NamesNext
    rw [live]
    refine List.forall_mem_cons.mpr ⟨?_, fun b outstanding => ?_⟩
    · refine ⟨s.world.mmapFile, rfl, ?_⟩
      rw [allocated.nodes, Function.update_self]
      rfl
    · obtain ⟨m, path, fileNo⟩ := ok.names b outstanding
      refine ⟨m, path, ?_⟩
      rw [allocated.nodes, Function.update_of_ne (unused b outstanding), fileNo]
  · unfold HugeRun.RemovesNext
    rw [removed]
    exact ok.removes

/-- `huge_dalloc` removes the file after the block's own. -/
theorem FilesOk.dalloc (ok : FilesOk s) (stepped : s.step (.dalloc ptr) = .ok s') :
    FilesOk s' ∧ ∃ pair, s'.removed = pair :: s.removed := by
  obtain ⟨records, b, outstanding, _, live, _, removed, nodes⟩ := ok.records.dalloc stepped
  refine ⟨⟨records, ?_, ?_⟩, _, removed⟩
  · intro c member
    rw [nodes]
    exact ok.names c (List.mem_of_mem_erase (live ▸ member))
  · intro own gone member
    rw [removed] at member
    rcases List.mem_cons.mp member with same | old
    · obtain ⟨m, path, fileNo⟩ := ok.names b outstanding
      cases same
      exact ⟨m, path, by rw [fileNo]⟩
    · exact ok.removes own gone old

/-- A pool that grows advances the counter and touches no record. -/
theorem FilesOk.createOne (ok : FilesOk s) {pool : Nat}
    (stepped : s.step (.createOne pool) = .ok s') : FilesOk s' ∧ s'.removed = s.removed := by
  have records := ok.records.step stepped
  obtain ⟨_, huge, live, removed⟩ := HugeRun.step_createOne stepped
  refine ⟨⟨records, ?_, ?_⟩, removed⟩
  · unfold HugeRun.NamesNext
    rw [huge, live]
    exact ok.names
  · unfold HugeRun.RemovesNext
    rw [removed]
    exact ok.removes

theorem FilesOk.step (ok : FilesOk s) (stepped : s.step op = .ok s') : FilesOk s' := by
  cases op with
  | malloc node size => exact (ok.malloc stepped).1
  | dalloc ptr => exact (ok.dalloc stepped).1
  | createOne pool => exact (ok.createOne stepped).1

/-- A call that frees no block removes no file. -/
theorem FilesOk.removed_eq (ok : FilesOk s) (frees : ¬ op.isDalloc = true)
    (stepped : s.step op = .ok s') : s'.removed = s.removed := by
  cases op with
  | malloc node size => exact (ok.malloc stepped).2
  | dalloc ptr => exact absurd rfl frees
  | createOne pool => exact (ok.createOne stepped).2

/-- One that does removes a file that is not the block's own. -/
theorem FilesOk.not_matched (ok : FilesOk s) (frees : op.isDalloc = true)
    (stepped : s.step op = .ok s') : ¬ s'.FilesMatched := by
  cases op with
  | malloc node size => cases frees
  | createOne pool => cases frees
  | dalloc ptr =>
      obtain ⟨after, ⟨own, gone⟩, removed⟩ := ok.dalloc stepped
      have here : (own, gone) ∈ s'.removed := by
        rw [removed]
        exact List.mem_cons_self
      intro agree
      exact after.removes.ne here (agree own gone here)

/-- The files stay matched to their blocks through exactly the runs that free no block: every
`huge_dalloc` removes the file after the one of its block. -/
theorem hugeRun_files {w : World} {huge : HugeMap} {pools : Nat → Pmempool} {ops : List HugeOp}
    {s : HugeRun} (reached : run HugeRun.step (.booted w huge pools) ops = .ok s) :
    (Along HugeRun.step (.booted w huge pools) ops HugeRun.FilesMatched ↔
      ∀ op ∈ ops, ¬ op.isDalloc = true) ∧
    s.RemovesNext := by
  constructor
  · have kept : ∀ s op s', FilesOk s ∧ s.removed = [] → ¬ op.isDalloc = true →
        HugeRun.step s op = .ok s' → FilesOk s' ∧ s'.removed = [] := by
      rintro s op s' ⟨ok, none⟩ frees stepped
      exact ⟨ok.step stepped, (ok.removed_eq frees stepped).trans none⟩
    apply along_iff_admitted kept ?_ ?_ ⟨.booted w huge pools, rfl⟩ reached
    · rintro s ⟨_, none⟩ own gone member
      rw [none] at member
      cases member
    · rintro s op s' ⟨ok, _⟩ frees stepped
      exact ok.not_matched (not_not.mp frees) stepped
  · have ok : FilesOk s := run_kept (fun _ _ _ ok stepped => ok.step stepped)
      (FilesOk.booted w huge pools) reached
    exact ok.removes

/-- Two blocks beside a growing pool, the first of them freed. -/
def HugeOp.mixed : List HugeOp :=
  [.malloc 100 4096, .malloc 200 4096, .createOne 0, .dalloc chunksize]

/-- A process in which `HugeOp.mixed` runs: the pool is mapped above the two blocks. -/
def HugeRun.mixed : HugeRun :=
  .booted (.fresh [chunksize, 2 * chunksize, 4 * chunksize] []) .zeroed fun _ => .zeroed

theorem hugeRun_files_of_mixed :
    ∃ s, run HugeRun.step .mixed HugeOp.mixed = .ok s ∧
      (Along HugeRun.step .mixed HugeOp.mixed HugeRun.FilesMatched ↔
        ∀ op ∈ HugeOp.mixed, ¬ op.isDalloc = true) ∧
      s.RemovesNext := by
  obtain ⟨s, reached⟩ : ∃ s, run HugeRun.step .mixed HugeOp.mixed = .ok s :=
    exists_eq_ok (by decide +kernel)
  exact ⟨s, reached, hugeRun_files reached⟩

/-- `huge_dalloc` of the first of two blocks removes the file of the second, which is
outstanding, and leaves the first one's. -/
theorem not_hugeRun_files :
    ∃ s, run HugeRun.step .mixed [.malloc 100 4096, .malloc 200 4096, .dalloc chunksize] = .ok s ∧
      s.live.map HugeBlock.path = [.huge 1] ∧ s.world.files = [.huge 0] ∧
      ¬ s.FilesMatched := by
  obtain ⟨s, reached, live, files, removed⟩ : ∃ s,
      run HugeRun.step .mixed [.malloc 100 4096, .malloc 200 4096, .dalloc chunksize] = .ok s ∧
      s.live.map HugeBlock.path = [.huge 1] ∧ s.world.files = [.huge 0] ∧
      s.removed = [(.huge 0, .huge 1)] := exists_eq_ok_and (by decide +kernel)
  refine ⟨s, reached, live, files, fun agree => ?_⟩
  have same := agree (.huge 0) (.huge 1) (by simp [removed])
  cases same

end Lsmalloc
