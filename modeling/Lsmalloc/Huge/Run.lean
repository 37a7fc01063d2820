import Lsmalloc.Huge.Model
import Lsmalloc.Pool.Safety

/-!
# Runs of huge requests

`huge_malloc` and `huge_dalloc` in any order, beside pools that grow. The run keeps the
blocks that are outstanding, each with the file `huge_malloc` made for it and the address of
its record, and the file each `huge_dalloc` removed.
-/

namespace Lsmalloc

/-- A block `huge_malloc` returned: the bytes asked for, the frame of the call that holds its
record, and the path the call formed. -/
structure HugeBlock where
  addr : Nat
  size : Nat
  node : Nat
  path : PmemPath
deriving DecidableEq, Repr

/-- The pages of a block. -/
def HugeBlock.pages (b : HugeBlock) : Span := ⟨b.addr, pageCeiling b.size⟩

/-- The huge blocks of a process with its pools. -/
structure HugeRun where
  world : World
  huge : HugeMap
  pools : Nat → Pmempool
  /-- The blocks that are outstanding, the latest first. -/
  live : List HugeBlock
  /-- For each `huge_dalloc`, the latest first, the path of the block's own file and the one
  that was removed. -/
  removed : List (PmemPath × PmemPath)

/-- After `huge_boot`. -/
def HugeRun.booted (w : World) (huge : HugeMap) (pools : Nat → Pmempool) : HugeRun where
  world := w
  huge := hugeBoot huge
  pools := pools
  live := []
  removed := []

/-- The calls that map and remove files. -/
inductive HugeOp
  /-- `huge_malloc(size)`, its local variable at the address `node`. -/
  | malloc (node size : Nat)
  /-- `huge_dalloc` of a block that is outstanding. -/
  | dalloc (ptr : Nat)
  /-- `pmempool_create_one` of one of the pools. -/
  | createOne (pool : Nat)
deriving DecidableEq, Repr

/-- A length `pmem_map_file` accepts for a file it creates: a positive `off_t`. -/
def IsFileLength (len : Nat) : Prop := 0 < len ∧ len < 2 ^ 63

instance (len : Nat) : Decidable (IsFileLength len) := by
  unfold IsFileLength
  infer_instance

/-- One call. -/
def HugeRun.step (s : HugeRun) : HugeOp → Except Fault HugeRun
  | .malloc node size =>
      if IsFileLength size then do
        let (ret, world, huge) ← hugeMalloc s.world s.huge node size
        let block := ⟨ret, size, node, .huge s.world.mmapFile⟩
        .ok { s with world := world, huge := huge, live := block :: s.live }
      else .error .exit
  | .dalloc ptr =>
      match s.live.find? fun b => b.addr = ptr with
      | none => .error .contract
      | some b => do
          let found ← hugeTreeSearch s.huge ptr
          let (world, huge) ← hugeDalloc s.world s.huge ptr
          let path := PmemPath.huge (s.huge.nodes (found.getD 0)).fileNo
          .ok { s with
            world := world
            huge := huge
            live := s.live.erase b
            removed := (b.path, path) :: s.removed }
  | .createOne pool => do
      let (world, pp) ← pmempoolCreateOne s.world (s.pools pool)
      .ok { s with world := world, pools := Function.update s.pools pool pp }

variable {w w' : World} {huge huge' : HugeMap} {node size ptr ret : Nat}

/-! ## The counters -/

/-- Mapping a file leaves the counters alone. -/
theorem pmemMapFile_counters {path : PmemPath} {len addr : Nat}
    (mapped : pmemMapFile w path len = .ok (addr, w')) :
    w'.mmapFile = w.mmapFile ∧ w'.pmemConsmp = w.pmemConsmp := by
  unfold pmemMapFile at mapped
  split at mapped
  · cases mapped
  · split at mapped
    · cases mapped
      exact ⟨rfl, rfl⟩
    · split at mapped
      · cases mapped
        exact ⟨rfl, rfl⟩
      · cases mapped

theorem pmemUnmap_counters (w : World) (addr len : Nat) :
    (pmemUnmap w addr len).mmapFile = w.mmapFile ∧
      (pmemUnmap w addr len).pmemConsmp = w.pmemConsmp := by
  unfold pmemUnmap
  split <;> exact ⟨rfl, rfl⟩

/-- So does the whole mapping phase. -/
theorem pmemMapAligned_counters {str : PmemPath} {base : Nat}
    (mapped : pmemMapAligned w str size = .ok (base, w')) :
    w'.mmapFile = w.mmapFile ∧ w'.pmemConsmp = w.pmemConsmp := by
  obtain ⟨⟨addr, w₁⟩, first, mapped⟩ := Execution.bind_eq_ok.mp mapped
  obtain ⟨file, consmp⟩ := pmemMapFile_counters first
  simp only at mapped
  split at mapped
  · cases mapped
  split at mapped
  · cases mapped
    exact ⟨file, consmp⟩
  · obtain ⟨⟨addr₂, w₂⟩, second, mapped⟩ := Execution.bind_eq_ok.mp mapped
    obtain ⟨file₂, consmp₂⟩ := pmemMapFile_counters second
    simp only at mapped
    split at mapped
    · cases mapped
    cases mapped
    simp only [removeFile, pmemUnmap_counters] at file₂ consmp₂ ⊢
    exact ⟨file₂.trans file, consmp₂.trans consmp⟩

/-! ## What the calls do -/

/-- The record of `huge_malloc`. -/
def newRecord (w : World) (size ret : Nat) : HugeNode := ⟨size, (w.mmapFile + 1) % 2 ^ 32, ret⟩

/-- `huge_malloc` mapped a room and inserted its record. -/
structure HugeAllocated (w w' : World) (huge huge' : HugeMap) (node size ret : Nat) : Prop where
  isBase : IsBase ret size
  grows : Grows w w' ⟨ret, pageCeiling size⟩
  nodes : huge'.nodes = Function.update huge.nodes node (newRecord w size ret)
  tree : ∃ before after, huge.tree = some before ∧ huge'.tree = some after ∧
    after.Perm (node :: before)
  differs : ∀ before, huge.tree = some before → ∀ n ∈ before, (huge'.nodes n).paddr ≠ ret
  pmemConsmp : w'.pmemConsmp = (w.pmemConsmp + size) % 2 ^ 32

/-- `huge_tree_insert` adds a node whose key no node has. -/
theorem hugeTreeInsert_effect (inserted : hugeTreeInsert huge node = .ok huge') :
    huge'.nodes = huge.nodes ∧ ∃ before after, huge.tree = some before ∧
      huge'.tree = some after ∧ after.Perm (node :: before) ∧
      ∀ n ∈ before, (huge.nodes n).paddr ≠ (huge.nodes node).paddr := by
  unfold hugeTreeInsert at inserted
  split at inserted
  · cases inserted
  · rename_i before present
    split at inserted
    · cases inserted
    · rename_i noneEqual
      cases inserted
      refine ⟨rfl, before, _, present, rfl, List.perm_orderedInsert _ _ _, ?_⟩
      intro n member equal
      exact noneEqual ⟨n, member, equal⟩

theorem hugeMalloc_effect (length : IsFileLength size)
    (allocated : hugeMalloc w huge node size = .ok (ret, w', huge')) :
    HugeAllocated w w' huge huge' node size ret := by
  obtain ⟨⟨base, w₁⟩, mapped, allocated⟩ := Execution.bind_eq_ok.mp allocated
  obtain ⟨inner, inserted, allocated⟩ := Execution.bind_eq_ok.mp allocated
  simp only [Except.ok.injEq, Prod.mk.injEq] at allocated
  obtain ⟨rfl, rfl, rfl⟩ := allocated
  have bounded : size + chunksize < 2 ^ 64 := by
    have upper := length.2
    rw [chunksize_eq]
    omega
  obtain ⟨isBase, grows⟩ := pmemMapAligned_grows length.1 bounded mapped
  obtain ⟨counter, consmp⟩ := pmemMapAligned_counters mapped
  obtain ⟨nodes, before, after, present, now, perm, differs⟩ := hugeTreeInsert_effect inserted
  simp only [counter] at nodes differs
  refine ⟨isBase, grows.of_fields rfl rfl rfl rfl rfl rfl, nodes, ⟨before, after, present, now, perm⟩,
    ?_, by rw [consmp]⟩
  intro other same n member
  obtain rfl : before = other := Option.some.inj (present.symm.trans same)
  have key := differs n member
  rw [Function.update_self] at key
  rw [nodes]
  exact key

/-- `huge_dalloc` found a record and did with it what its fields say. -/
structure HugeFreed (w w' : World) (huge huge' : HugeMap) (ptr node : Nat) : Prop where
  found : hugeTreeSearch huge ptr = .ok (some node)
  maps : w'.maps = (pmemUnmap w (huge.nodes node).paddr (huge.nodes node).size).maps
  files : w'.files = (pmemUnmap w (huge.nodes node).paddr (huge.nodes node).size).files.erase
    (.huge (huge.nodes node).fileNo)
  pmemConsmp : w'.pmemConsmp =
    (w.pmemConsmp + (2 ^ 32 - (huge.nodes node).size % 2 ^ 32)) % 2 ^ 32
  huge : huge' = hugeTreeRemove huge node

theorem hugeDalloc_effect (freed : hugeDalloc w huge ptr = .ok (w', huge')) :
    ∃ node, HugeFreed w w' huge huge' ptr node := by
  obtain ⟨found, searched, freed⟩ := Execution.bind_eq_ok.mp freed
  cases found with
  | none => cases freed
  | some node =>
      cases freed
      refine ⟨node, searched, rfl, rfl, ?_, rfl⟩
      simp only [removeFile, pmemUnmap_counters]

/-- A growing pool is one more mapping; its bookkeeping touches no other. -/
theorem pmempoolCreateOne_grows {pp pp' : Pmempool}
    (created : pmempoolCreateOne w pp = .ok (w', pp')) :
    ∃ base, Grows w w' ⟨base, pmempoolSize⟩ := by
  obtain ⟨⟨base, w₁⟩, mapped, created⟩ := Execution.bind_eq_ok.mp created
  cases created
  exact ⟨base, (pmemMapAligned_pool mapped).2.of_fields rfl rfl rfl rfl rfl rfl⟩

/-! ## Inversion of a step -/

variable {s s' : HugeRun}

/-- `huge_malloc` returned a block. -/
theorem HugeRun.step_malloc (stepped : s.step (.malloc node size) = .ok s') :
    IsFileLength size ∧ ∃ ret,
      HugeAllocated s.world s'.world s.huge s'.huge node size ret ∧
      s'.live = ⟨ret, size, node, .huge s.world.mmapFile⟩ :: s.live ∧
      s'.removed = s.removed := by
  simp only [HugeRun.step] at stepped
  split at stepped
  · rename_i length
    obtain ⟨⟨ret, world, huge⟩, allocated, stepped⟩ := Execution.bind_eq_ok.mp stepped
    cases stepped
    exact ⟨length, ret, hugeMalloc_effect length allocated, rfl, rfl⟩
  · cases stepped

/-- `huge_dalloc` freed a block that was outstanding. -/
theorem HugeRun.step_dalloc (stepped : s.step (.dalloc ptr) = .ok s') :
    ∃ b node, b ∈ s.live ∧ b.addr = ptr ∧
      HugeFreed s.world s'.world s.huge s'.huge ptr node ∧ s'.live = s.live.erase b ∧
      s'.removed = (b.path, .huge (s.huge.nodes node).fileNo) :: s.removed := by
  simp only [HugeRun.step] at stepped
  split at stepped
  · cases stepped
  · rename_i b outstanding
    obtain ⟨found, searched, stepped⟩ := Execution.bind_eq_ok.mp stepped
    obtain ⟨⟨world, huge⟩, freed, stepped⟩ := Execution.bind_eq_ok.mp stepped
    cases stepped
    obtain ⟨node, effect⟩ := hugeDalloc_effect freed
    have same : found = some node := by
      have both := searched.symm.trans effect.found
      simpa using both
    subst same
    exact ⟨b, node, List.mem_of_find?_eq_some outstanding,
      by simpa using List.find?_some outstanding, effect, rfl, rfl⟩

/-- A pool grew. -/
theorem HugeRun.step_createOne {pool : Nat} (stepped : s.step (.createOne pool) = .ok s') :
    (∃ base, Grows s.world s'.world ⟨base, pmempoolSize⟩) ∧ s'.huge = s.huge ∧
      s'.live = s.live ∧ s'.removed = s.removed := by
  obtain ⟨⟨world, pp⟩, created, stepped⟩ := Execution.bind_eq_ok.mp stepped
  cases stepped
  exact ⟨pmempoolCreateOne_grows created, rfl, rfl, rfl⟩

end Lsmalloc
