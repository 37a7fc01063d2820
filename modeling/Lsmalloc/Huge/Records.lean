import Lsmalloc.Huge.Run

/-!
# The records of the huge blocks

The record of a huge block is the local variable `node` of the `huge_malloc` that returned
the block, so `huge_tree` keeps the address of a frame that is gone. What becomes of the
record is up to the calls that come after: the frame of any of them may be laid over it.
While none is laid over the record of an outstanding block the tree records exactly the
outstanding blocks, and the first that is ends that (`hugeRun_recorded`).
-/

namespace Lsmalloc

open Execution

/-- What a program does with the stack frames of its calls. -/
inductive FrameOp
  | call (op : HugeOp)
  /-- The frame of a later call is laid over the address `node`, and `record` is what the
  call leaves there. -/
  | overlay (node : Nat) (record : HugeNode)
deriving DecidableEq, Repr

/-- One call, or what its frame does to a record. -/
def HugeRun.frameStep (s : HugeRun) : FrameOp → Except Fault HugeRun
  | .call op => s.step op
  | .overlay node record =>
      .ok { s with huge := { s.huge with nodes := Function.update s.huge.nodes node record } }

/-- The nodes of the tree are distinct records, one for each outstanding block and holding
its address and size, and a search for the address finds it. -/
structure HugeRun.Recorded (s : HugeRun) : Prop where
  tree : ∃ nodes, s.huge.tree = some nodes ∧ nodes.Perm (s.live.map HugeBlock.node)
  nodup : (s.live.map HugeBlock.node).Nodup
  paddr : ∀ b ∈ s.live, (s.huge.nodes b.node).paddr = b.addr
  size : ∀ b ∈ s.live, (s.huge.nodes b.node).size = b.size
  found : ∀ b ∈ s.live, hugeTreeSearch s.huge b.addr = .ok (some b.node)

/-- No frame is laid over the record of an outstanding block, or the one that is leaves the
address and the size as they were. A frame that starts elsewhere and covers part of the record is
an overlay too, with what the record then holds. -/
def HugeRun.Clear (s : HugeRun) : FrameOp → Prop
  | .call (.malloc node _) => ∀ b ∈ s.live, b.node ≠ node
  | .call _ => True
  | .overlay node record => ∀ b ∈ s.live, b.node = node →
      record.paddr = b.addr ∧ record.size = b.size

instance (s : HugeRun) (op : FrameOp) : Decidable (s.Clear op) := by
  unfold HugeRun.Clear
  split <;> infer_instance

/-- The pages of two blocks are apart. -/
def HugeBlock.Apart (a b : HugeBlock) : Prop := a.pages.Apart b.pages

instance : Std.Symm HugeBlock.Apart := ⟨fun _ _ apart => Span.Apart.symm apart⟩

/-- The tree holds one record for each outstanding block, and the pages of the blocks are
mapped and apart from each other. -/
structure HugeOk (s : HugeRun) : Prop where
  tree : ∃ nodes, s.huge.tree = some nodes ∧ nodes.Perm (s.live.map HugeBlock.node)
  nodup : (s.live.map HugeBlock.node).Nodup
  paddr : ∀ b ∈ s.live, (s.huge.nodes b.node).paddr = b.addr
  size : ∀ b ∈ s.live, (s.huge.nodes b.node).size = b.size
  positive : ∀ b ∈ s.live, 0 < b.pages.len
  mapped : ∀ b ∈ s.live, Mapped s.world.maps b.pages
  apart : s.live.Pairwise HugeBlock.Apart

variable {s s' : HugeRun} {op : HugeOp} {node size ptr : Nat}

/-- Outstanding blocks are told apart by their addresses. -/
theorem HugeOk.eq_of_addr (ok : HugeOk s) {a b : HugeBlock} (left : a ∈ s.live)
    (right : b ∈ s.live) (same : a.addr = b.addr) : a = b := by
  by_contra different
  have apart : a.pages.Apart b.pages := ok.apart.forall left right different
  exact apart.start_ne (ok.positive a left) (ok.positive b right) same

/-- A node of the tree with the address of an outstanding block is the record of the block. -/
theorem HugeOk.node_eq (ok : HugeOk s) {nodes : List Nat} (present : s.huge.tree = some nodes)
    {b : HugeBlock} (outstanding : b ∈ s.live) {n : Nat} (member : n ∈ nodes)
    (key : (s.huge.nodes n).paddr = b.addr) : n = b.node := by
  obtain ⟨_, same, perm⟩ := ok.tree
  cases present.symm.trans same
  obtain ⟨c, other, rfl⟩ := List.mem_map.mp (perm.mem_iff.mp member)
  have equal : c = b := ok.eq_of_addr other outstanding ((ok.paddr c other).symm.trans key)
  rw [equal]

/-- The search for the address of an outstanding block finds its record. -/
theorem HugeOk.search (ok : HugeOk s) {b : HugeBlock} (outstanding : b ∈ s.live) :
    hugeTreeSearch s.huge b.addr = .ok (some b.node) := by
  obtain ⟨nodes, present, perm⟩ := ok.tree
  have member : b.node ∈ nodes := perm.mem_iff.mpr (List.mem_map_of_mem outstanding)
  have succeeds : (nodes.find? fun n => (s.huge.nodes n).paddr = b.addr).isSome := by
    rw [List.find?_isSome]
    exact ⟨b.node, member, by simp [ok.paddr b outstanding]⟩
  obtain ⟨n, found⟩ := Option.isSome_iff_exists.mp succeeds
  have key : (s.huge.nodes n).paddr = b.addr := by simpa using List.find?_some found
  have same := ok.node_eq present outstanding (List.mem_of_find?_eq_some found) key
  simp only [hugeTreeSearch, present, found, same]

theorem HugeOk.recorded (ok : HugeOk s) : s.Recorded where
  tree := ok.tree
  nodup := ok.nodup
  paddr := ok.paddr
  size := ok.size
  found _ outstanding := ok.search outstanding

/-- Nothing is outstanding after `huge_boot`. -/
theorem HugeOk.booted (w : World) (huge : HugeMap) (pools : Nat → Pmempool) :
    HugeOk (.booted w huge pools) := by
  constructor
  case tree => exact ⟨[], rfl, List.Perm.refl _⟩
  all_goals simp [HugeRun.booted]

/-! ## Steps keep the records -/

/-- Whatever a call does beside the blocks, the records are kept as long as what is mapped is. -/
theorem HugeOk.of_mapped (ok : HugeOk s)
    (keeps : ∀ r : Span, 0 < r.len → Mapped s.world.maps r → Mapped s'.world.maps r)
    (huge : s'.huge = s.huge) (live : s'.live = s.live) : HugeOk s' := by
  obtain ⟨tree, nodup, paddr, size, positive, mapped, apart⟩ := ok
  constructor
  case mapped =>
    intro b outstanding
    rw [live] at outstanding
    exact keeps b.pages (positive b outstanding) (mapped b outstanding)
  all_goals simpa [huge, live]

/-- `huge_malloc` returned a block: no block had its record, and the tree has one more. -/
theorem HugeOk.malloc (ok : HugeOk s) (stepped : s.step (.malloc node size) = .ok s') :
    (∀ b ∈ s.live, b.node ≠ node) ∧ HugeOk s' := by
  obtain ⟨length, ret, allocated, live, _⟩ := HugeRun.step_malloc stepped
  obtain ⟨nodes, present, perm⟩ := ok.tree
  obtain ⟨before, after, old, now, added⟩ := allocated.tree
  cases present.symm.trans old
  -- The record was not in the tree: it has the address of the new block now.
  have fresh : node ∉ nodes := by
    intro member
    apply allocated.differs nodes old node member
    rw [allocated.nodes, Function.update_self]
    rfl
  have unused : ∀ b ∈ s.live, b.node ≠ node := by
    rintro b outstanding rfl
    exact fresh (perm.mem_iff.mpr (List.mem_map_of_mem outstanding))
  have record : ∀ b ∈ s.live, s'.huge.nodes b.node = s.huge.nodes b.node := fun b outstanding => by
    rw [allocated.nodes, Function.update_of_ne (unused b outstanding)]
  have rounds := le_pageCeiling size
  have positive := length.1
  refine ⟨unused, ?_⟩
  constructor
  case tree =>
    refine ⟨after, now, added.trans ?_⟩
    rw [live]
    exact perm.cons node
  case nodup =>
    rw [live, List.map_cons, List.nodup_cons]
    exact ⟨fun member => fresh (perm.mem_iff.mpr member), ok.nodup⟩
  all_goals rw [live]
  case paddr =>
    refine List.forall_mem_cons.mpr ⟨?_, fun b outstanding => ?_⟩
    · simp [allocated.nodes, newRecord]
    · rw [record b outstanding, ok.paddr b outstanding]
  case size =>
    refine List.forall_mem_cons.mpr ⟨?_, fun b outstanding => ?_⟩
    · simp [allocated.nodes, newRecord]
    · rw [record b outstanding, ok.size b outstanding]
  case positive =>
    refine List.forall_mem_cons.mpr ⟨?_, ok.positive⟩
    simp only [HugeBlock.pages]
    omega
  case mapped =>
    refine List.forall_mem_cons.mpr ⟨allocated.grows.mapped, fun b outstanding => ?_⟩
    exact (allocated.grows.keeps b.pages (ok.positive b outstanding) (ok.mapped b outstanding)).1
  case apart =>
    refine List.pairwise_cons.mpr ⟨fun b outstanding => ?_, ok.apart⟩
    exact (allocated.grows.keeps b.pages (ok.positive b outstanding)
      (ok.mapped b outstanding)).2.symm

/-- `huge_dalloc` of an outstanding block finds its record, unmaps what the block asked for
and takes the record out of the tree. -/
theorem HugeOk.dalloc (ok : HugeOk s) (stepped : s.step (.dalloc ptr) = .ok s') :
    HugeOk s' ∧ ∃ b ∈ s.live, b.addr = ptr ∧ s'.live = s.live.erase b ∧
      s'.world.maps = (pmemUnmap s.world b.addr b.size).maps ∧
      s'.removed = (b.path, .huge (s.huge.nodes b.node).fileNo) :: s.removed ∧
      s'.huge.nodes = s.huge.nodes := by
  obtain ⟨b, n, outstanding, rfl, freed, live, removed⟩ := HugeRun.step_dalloc stepped
  obtain rfl : n = b.node := by
    have both := freed.found.symm.trans (ok.search outstanding)
    simpa using both
  have maps : s'.world.maps = (pmemUnmap s.world b.addr b.size).maps := by
    rw [freed.maps, ok.paddr b outstanding, ok.size b outstanding]
  have records : s'.huge.nodes = s.huge.nodes := by
    rw [freed.huge]
    rfl
  have split : s.live.Perm (b :: s.live.erase b) := List.perm_cons_erase outstanding
  have kept : ∀ c ∈ s'.live, c ∈ s.live := fun c member =>
    List.mem_of_mem_erase (live ▸ member)
  have apart := (split.pairwise_iff symm).mp ok.apart
  rw [List.pairwise_cons] at apart
  refine ⟨?_, b, outstanding, rfl, live, maps, removed, records⟩
  constructor
  case tree =>
    obtain ⟨nodes, present, perm⟩ := ok.tree
    refine ⟨nodes.erase b.node, by simp [freed.huge, hugeTreeRemove, present], ?_⟩
    have names : (s.live.map HugeBlock.node).Perm (b.node :: s'.live.map HugeBlock.node) := by
      rw [live]
      exact split.map HugeBlock.node
    simpa using (perm.trans names).erase b.node
  case nodup =>
    rw [live]
    exact ok.nodup.sublist (List.erase_sublist.map HugeBlock.node)
  case paddr => exact fun c member => by rw [records, ok.paddr c (kept c member)]
  case size => exact fun c member => by rw [records, ok.size c (kept c member)]
  case positive => exact fun c member => ok.positive c (kept c member)
  case mapped =>
    intro c member
    have separate : b.pages.Apart c.pages := apart.1 c (live ▸ member)
    rw [maps]
    exact (ok.mapped c (kept c member)).unmap (ok.positive c (kept c member)) separate.symm
  case apart =>
    rw [live]
    exact apart.2

/-- Every call that returns keeps the records. -/
theorem HugeOk.step (ok : HugeOk s) (stepped : s.step op = .ok s') : HugeOk s' := by
  cases op with
  | malloc node size => exact (ok.malloc stepped).2
  | dalloc ptr => exact (ok.dalloc stepped).1
  | createOne pool =>
      obtain ⟨⟨_, grows⟩, huge, live, _⟩ := HugeRun.step_createOne stepped
      exact ok.of_mapped (fun r nonempty old => (grows.keeps r nonempty old).1) huge live

/-- A frame laid over no record of an outstanding block, or one that leaves the record. -/
theorem HugeOk.overlay (ok : HugeOk s) {record : HugeNode} (clear : s.Clear (.overlay node record))
    (stepped : s.frameStep (.overlay node record) = .ok s') : HugeOk s' := by
  cases stepped
  obtain ⟨tree, nodup, paddr, size, positive, mapped, apart⟩ := ok
  constructor
  case paddr =>
    intro b outstanding
    simp only
    rw [Function.update_apply]
    split
    · exact (clear b outstanding ‹_›).1
    · exact paddr b outstanding
  case size =>
    intro b outstanding
    simp only
    rw [Function.update_apply]
    split
    · exact (clear b outstanding ‹_›).2
    · exact size b outstanding
  all_goals assumption

theorem HugeOk.frameStep (ok : HugeOk s) {op : FrameOp} (clear : s.Clear op)
    (stepped : s.frameStep op = .ok s') : HugeOk s' := by
  cases op with
  | call op => exact ok.step stepped
  | overlay node record => exact ok.overlay clear stepped

/-- A call whose frame is laid over the record of an outstanding block does not return with the
blocks recorded. -/
theorem HugeOk.clear_of_recorded (ok : HugeOk s) {op : FrameOp}
    (stepped : s.frameStep op = .ok s') (recorded : s'.Recorded) : s.Clear op := by
  cases op with
  | call op =>
      cases op with
      | malloc node size => exact (ok.malloc stepped).1
      | dalloc ptr => exact trivial
      | createOne pool => exact trivial
  | overlay node record =>
      cases stepped
      rintro b outstanding rfl
      have paddr := recorded.paddr b outstanding
      have size := recorded.size b outstanding
      simp only [Function.update_self] at paddr size
      exact ⟨paddr, size⟩

/-! ## Calls do not fail -/

/-- The insertion meets no equal key: the new block has pages of its own. -/
theorem HugeOk.malloc_failsOnly (ok : HugeOk s) (clear : s.Clear (.call (.malloc node size))) :
    FailsOnly Fault.FromEnvironment (s.step (.malloc node size)) := by
  simp only [HugeRun.step]
  split
  · rename_i length
    refine FailsOnly.bind ?_ fun _ _ => failsOnly_ok _
    refine (pmemMapAligned_failsOnly _ _ _).bind ?_
    rintro ⟨ret, w⟩ mapped
    have bounded : size + chunksize < 2 ^ 64 := by
      have upper := length.2
      rw [chunksize_eq]
      omega
    obtain ⟨_, grows⟩ := pmemMapAligned_grows length.1 bounded mapped
    have positive := length.1
    have rounds := le_pageCeiling size
    obtain ⟨nodes, present, perm⟩ := ok.tree
    refine FailsOnly.bind ?_ fun _ _ => failsOnly_ok _
    simp only [hugeTreeInsert, present]
    split
    · rename_i equal
      obtain ⟨n, member, key⟩ := equal
      obtain ⟨b, outstanding, rfl⟩ := List.mem_map.mp (perm.mem_iff.mp member)
      rw [Function.update_of_ne (clear b outstanding), Function.update_self,
        ok.paddr b outstanding] at key
      have apart := (grows.keeps b.pages (ok.positive b outstanding) (ok.mapped b outstanding)).2
      exact absurd key (apart.start_ne (ok.positive b outstanding) (by simp only; omega))
    · exact failsOnly_ok _
  · exact failsOnly_error (.inl rfl)

/-- `huge_dalloc` of an outstanding block returns. -/
theorem HugeOk.dalloc_returns (ok : HugeOk s) {b : HugeBlock} (outstanding : b ∈ s.live) :
    ∃ s', s.step (.dalloc b.addr) = .ok s' := by
  have present : (s.live.find? fun c => c.addr = b.addr).isSome := by
    rw [List.find?_isSome]
    exact ⟨b, outstanding, by simp⟩
  obtain ⟨c, found⟩ := Option.isSome_iff_exists.mp present
  simp only [HugeRun.step, found, hugeDalloc, ok.search outstanding]
  exact ⟨_, rfl⟩

/-- A step clear of the records fails only when a mapping does or when the block is not
outstanding. -/
theorem HugeOk.failsOnly (ok : HugeOk s) {op : FrameOp} (clear : s.Clear op) :
    FailsOnly Fault.FromEnvironment (s.frameStep op) := by
  cases op with
  | overlay node record => exact failsOnly_ok _
  | call op =>
      cases op with
      | malloc node size => exact ok.malloc_failsOnly clear
      | createOne pool => exact (pmempoolCreateOne_failsOnly _ _).bind fun _ _ => failsOnly_ok _
      | dalloc ptr =>
          by_cases outstanding : ∃ b ∈ s.live, b.addr = ptr
          · obtain ⟨b, member, rfl⟩ := outstanding
            obtain ⟨_, returned⟩ := ok.dalloc_returns member
            exact FailsOnly.of_eq_ok returned
          · have missing : (s.live.find? fun b => b.addr = ptr) = none := by
              rw [List.find?_eq_none]
              intro b member equal
              exact outstanding ⟨b, member, by simpa using equal⟩
            simp only [HugeRun.frameStep, HugeRun.step, missing]
            exact failsOnly_error (.inr rfl)

/-! ## Runs -/

/-- While no frame is laid over the record of an outstanding block the tree records exactly the
outstanding blocks, no insertion meets an equal key, and every `huge_dalloc` finds the record
and unmaps what was asked for. The step that lays one over ends this or does not return. -/
theorem hugeRun_recorded {w : World} {huge : HugeMap} {pools : Nat → Pmempool}
    {ops : List FrameOp} {s : HugeRun}
    (clear : Meets HugeRun.frameStep HugeRun.Clear (.booted w huge pools) ops)
    (reached : run HugeRun.frameStep (.booted w huge pools) ops = .ok s) :
    s.Recorded ∧
    (∀ op, s.Clear op → FailsOnly Fault.FromEnvironment (s.frameStep op)) ∧
    (∀ op s', s.frameStep op = .ok s' → (s'.Recorded ↔ s.Clear op)) ∧
    ∀ b ∈ s.live, ∃ s', s.frameStep (.call (.dalloc b.addr)) = .ok s' ∧
      s'.world.maps = (pmemUnmap s.world b.addr b.size).maps ∧ s'.live = s.live.erase b := by
  have ok : HugeOk s := run_invariant_of_meets
    (fun _ _ _ ok clear stepped => ok.frameStep clear stepped) (.booted w huge pools) clear reached
  refine ⟨ok.recorded, fun op here => ok.failsOnly here, fun op s' stepped => ?_,
    fun b outstanding => ?_⟩
  · constructor
    · exact fun recorded => ok.clear_of_recorded stepped recorded
    · exact fun here => (ok.frameStep here stepped).recorded
  · obtain ⟨s', returned⟩ := ok.dalloc_returns outstanding
    obtain ⟨_, c, other, same, live, maps, _⟩ := ok.dalloc returned
    obtain rfl : c = b := ok.eq_of_addr other outstanding same
    exact ⟨s', returned, maps, live⟩

/-- Two blocks of `4096` bytes whose records have frames of their own, freed in the order they
were made. -/
def FrameOp.apartFrames : List FrameOp :=
  [.call (.malloc 100 4096), .overlay 300 ⟨0, 0, 0⟩, .call (.malloc 200 4096),
    .call (.dalloc chunksize)]

theorem hugeRun_recorded_of_apartFrames :
    ∃ s, run HugeRun.frameStep
        (.booted (.fresh [chunksize, 2 * chunksize] []) .zeroed fun _ => .zeroed)
        FrameOp.apartFrames = .ok s ∧
      s.Recorded ∧ (∀ op, s.Clear op → FailsOnly Fault.FromEnvironment (s.frameStep op)) ∧
      (∀ op s', s.frameStep op = .ok s' → (s'.Recorded ↔ s.Clear op)) ∧
      ∀ b ∈ s.live, ∃ s', s.frameStep (.call (.dalloc b.addr)) = .ok s' ∧
        s'.world.maps = (pmemUnmap s.world b.addr b.size).maps ∧ s'.live = s.live.erase b := by
  obtain ⟨s, reached⟩ : ∃ s, run HugeRun.frameStep
      (.booted (.fresh [chunksize, 2 * chunksize] []) .zeroed fun _ => .zeroed)
      FrameOp.apartFrames = .ok s := exists_eq_ok (by decide +kernel)
  exact ⟨s, reached, hugeRun_recorded (by decide +kernel) reached⟩

/-- Two calls from one place lay the second record over the first and fail the assertion of the
insertion; a record that another call writes over is wrong, and `huge_dalloc` does not find it. -/
theorem not_hugeRun_recorded :
    run HugeRun.frameStep
        (.booted (.fresh [chunksize, 2 * chunksize] []) .zeroed fun _ => .zeroed)
        [.call (.malloc 100 4096), .call (.malloc 100 4096)] = .error .abort ∧
    (∃ s, run HugeRun.frameStep (.booted (.fresh [chunksize] []) .zeroed fun _ => .zeroed)
        [.call (.malloc 100 4096), .overlay 100 ⟨0, 0, 0⟩] = .ok s ∧ ¬ s.Recorded) ∧
    run HugeRun.frameStep (.booted (.fresh [chunksize] []) .zeroed fun _ => .zeroed)
        [.call (.malloc 100 4096), .overlay 100 ⟨0, 0, 0⟩, .call (.dalloc chunksize)] =
      .error .abort := by
  refine ⟨eq_error (by decide +kernel), ?_, eq_error (by decide +kernel)⟩
  obtain ⟨s, reached, b, outstanding, changed⟩ : ∃ s, run HugeRun.frameStep
      (.booted (.fresh [chunksize] []) .zeroed fun _ => .zeroed)
      [.call (.malloc 100 4096), .overlay 100 ⟨0, 0, 0⟩] = .ok s ∧
      ∃ b ∈ s.live, (s.huge.nodes b.node).size ≠ b.size := exists_eq_ok_and (by decide +kernel)
  exact ⟨s, reached, fun recorded => changed (recorded.size b outstanding)⟩

end Lsmalloc
