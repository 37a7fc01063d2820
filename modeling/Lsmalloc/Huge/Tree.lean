import Mathlib.Data.List.Find
import Lsmalloc.Rb.Run
import Lsmalloc.Huge.Records

/-!
# The tree of the huge blocks in memory

`huge_tree` with its links and the records in frames of the stack, where the model of `huge.c` keeps
the nodes in a list. While no frame is laid over a record that is in the tree, every call that goes
through the links ends as it does on the list.
-/

namespace Lsmalloc

open Execution RbTree

/-- The address of a frame, as `HugeMap` has it. -/
def NodeAddr.word (node : NodeAddr) : Nat := node.addr.toNat

theorem NodeAddr.word_injective : Function.Injective NodeAddr.word :=
  fun _ _ same => NodeAddr.ext (BitVec.eq_of_toNat_eq same)

/-! ## The calls -/

/-- `huge_ad_cmp`. -/
def hugeAdCmp (a b : HugeNode) : Int :=
  (if a.paddr > b.paddr then 1 else 0) - (if a.paddr < b.paddr then 1 else 0)

/-- `huge_tree` and the `huge_t` records, their links apart. -/
structure HugeTree where
  rb : RbTree
  nodes : NodeAddr → HugeNode

namespace HugeTree

/-- What `rb_gen` learns from `huge_ad_cmp` about two nodes. -/
def cmp (h : HugeTree) (a b : NodeAddr) : Ordering := compare (hugeAdCmp (h.nodes a) (h.nodes b)) 0

/-- A store to a record. -/
def setRecord (h : HugeTree) (node : NodeAddr) (record : HugeNode) : HugeTree :=
  { h with nodes := Function.update h.nodes node record }

/-- `huge_boot`. -/
def boot (h : HugeTree) : HugeTree := { h with rb := h.rb.rbNew }

/-- `huge_malloc`, with `node` the address of its local variable. -/
def malloc (w : World) (h : HugeTree) (node : NodeAddr) (size : Nat) :
    Except Fault (Nat × World × HugeTree) := do
  let str := PmemPath.huge w.mmapFile
  let w := { w with mmapFile := (w.mmapFile + 1) % 2 ^ 32 }
  let (ret, w) ← pmemMapAligned w str size
  let w := { w with pmemConsmp := (w.pmemConsmp + size) % 2 ^ 32 }
  let h := h.setRecord node ⟨size, w.mmapFile, ret⟩
  let rb ← rbInsert h.cmp h.rb node
  .ok (ret, w, { h with rb := rb })

/-- `huge_dalloc`, with `key` the address of its local variable, and the file it removes. -/
def dalloc (fuel : Nat) (w : World) (h : HugeTree) (key : NodeAddr) (ptr : Nat) :
    Except Fault (World × HugeTree × PmemPath) := do
  let h := h.setRecord key { h.nodes key with paddr := ptr }
  let found ← rbSearch h.cmp fuel h.rb key
  match found with
  | none => .error .abort
  | some node =>
      if (h.nodes node).paddr ≠ ptr then .error .abort
      else do
        let rb ← rbRemove h.cmp h.rb node
        let n := h.nodes node
        let str := PmemPath.huge n.fileNo
        let w := pmemUnmap w n.paddr n.size
        let w := { w with pmemConsmp := (w.pmemConsmp + (2 ^ 32 - n.size % 2 ^ 32)) % 2 ^ 32 }
        .ok (removeFile w str, { h with rb := rb }, str)

end HugeTree

/-- The huge blocks of a process whose tree is in memory, beside its pools. -/
structure TreeRun where
  world : World
  huge : HugeTree
  pools : Nat → Pmempool
  live : List HugeBlock
  removed : List (PmemPath × PmemPath)

/-- After `huge_boot`. -/
def TreeRun.booted (w : World) (h : HugeTree) (pools : Nat → Pmempool) : TreeRun where
  world := w
  huge := h.boot
  pools := pools
  live := []
  removed := []

/-- The calls, with the frames of their local variables, and the stores of other frames. -/
inductive TreeOp
  | malloc (node : NodeAddr) (size : Nat)
  | dalloc (key : NodeAddr) (ptr : Nat)
  | createOne (pool : Nat)
  /-- The frame of another call is laid over the address. -/
  | overlay (node : NodeAddr) (links : RbNode) (record : HugeNode)
deriving DecidableEq

/-- One call. -/
def TreeRun.step (fuel : Nat) (s : TreeRun) : TreeOp → Except Fault TreeRun
  | .malloc node size =>
      if IsFileLength size then do
        let (ret, world, huge) ← s.huge.malloc s.world node size
        let block := ⟨ret, size, node.word, .huge s.world.mmapFile⟩
        .ok { s with world := world, huge := huge, live := block :: s.live }
      else .error .exit
  | .dalloc key ptr =>
      match s.live.find? fun b => b.addr = ptr with
      | none => .error .contract
      | some b => do
          let (world, huge, path) ← s.huge.dalloc fuel s.world key ptr
          .ok { s with
            world := world
            huge := huge
            live := s.live.erase b
            removed := (b.path, path) :: s.removed }
  | .createOne pool => do
      let (world, pp) ← pmempoolCreateOne s.world (s.pools pool)
      .ok { s with world := world, pools := Function.update s.pools pool pp }
  | .overlay node links record =>
      let huge := s.huge.setRecord node record
      .ok { s with huge := { huge with rb := huge.rb.store node links } }

/-- The call as the model of `huge.c` has it. -/
def TreeOp.onList : TreeOp → FrameOp
  | .malloc node size => .call (.malloc node.word size)
  | .dalloc _ ptr => .call (.dalloc ptr)
  | .createOne pool => .call (.createOne pool)
  | .overlay node _ record => .overlay node.word record

/-- The frame of the call lies neither over the sentinel of `huge_tree` nor over the record of an
outstanding block. A frame that covers part of a record is an overlay of that record. -/
def TreeRun.Clear (s : TreeRun) : TreeOp → Prop
  | .malloc node _ | .overlay node _ _ =>
      node ≠ s.huge.rb.rbtNil ∧ ∀ b ∈ s.live, b.node ≠ node.word
  | .dalloc key _ => ∀ b ∈ s.live, b.node ≠ key.word
  | .createOne _ => True

instance TreeRun.decidableClear (s : TreeRun) (op : TreeOp) : Decidable (s.Clear op) := by
  unfold TreeRun.Clear
  split <;> infer_instance

/-! ## One call -/

namespace HugeTree

variable {h : HugeTree} {huge : HugeMap} {keys : List NodeAddr} {node key : NodeAddr}
  {record : HugeNode} {fuel : Nat}

/-- The nodes are in the order of their addresses. -/
theorem cmp_eq (h : HugeTree) : h.cmp = compareOn fun node => (h.nodes node).paddr := by
  funext a b
  simp only [cmp, hugeAdCmp, compareOn, compare, compareOfLessAndEq]
  split_ifs <;> first | rfl | omega

instance : Std.TransCmp h.cmp := by
  rw [cmp_eq]
  infer_instance

theorem cmp_eq_eq {a b : NodeAddr} : h.cmp a b = .eq ↔ (h.nodes b).paddr = (h.nodes a).paddr := by
  rw [cmp_eq, compareOn, Nat.compare_eq_eq, eq_comm]

theorem cmp_ne_gt {a b : NodeAddr} : h.cmp a b ≠ .gt ↔ (h.nodes a).paddr ≤ (h.nodes b).paddr := by
  rw [cmp_eq, compareOn, Nat.compare_ne_gt]

/-- The tree in memory stands for the nodes, and they are those of the list with their records. -/
structure Models (h : HugeTree) (huge : HugeMap) (keys : List NodeAddr) : Prop where
  represents : Represents h.cmp h.rb keys
  tree : huge.tree = some (keys.map NodeAddr.word)
  nodes : ∀ key ∈ keys, huge.nodes key.word = h.nodes key

/-- A frame that is not in the tree may change. -/
theorem Models.setRecord (models : Models h huge keys) (off : node ∉ keys) (record : HugeNode) :
    Models (h.setRecord node record) huge keys := by
  have kept : ∀ key ∈ keys, (h.setRecord node record).nodes key = h.nodes key := by
    intro key mem
    refine Function.update_of_ne ?_ _ _
    rintro rfl
    exact off mem
  constructor
  case represents =>
    refine models.represents.congr fun a memA b memB => ?_
    simp only [cmp, kept a memA, kept b memB]
  case tree => exact models.tree
  case nodes => exact fun key mem => (models.nodes key mem).trans (kept key mem).symm

/-- So may it in both. -/
theorem Models.update (models : Models h huge keys) (off : node ∉ keys) (record : HugeNode) :
    Models (h.setRecord node record)
      { huge with nodes := Function.update huge.nodes node.word record } keys := by
  obtain ⟨represents, tree, nodes⟩ := models.setRecord off record
  refine ⟨represents, tree, fun key mem => ?_⟩
  have differs : key.word ≠ node.word :=
    fun same => off (NodeAddr.word_injective same ▸ mem)
  exact (Function.update_of_ne differs _ _).trans (nodes key mem)

/-- `huge_tree_insert` of a node that is not in the tree. -/
theorem Models.insert (models : Models h huge keys) (proper : node ≠ h.rb.rbtNil)
    (same : huge.nodes node.word = h.nodes node) :
    Follows (fun rb huge' => ∃ keys', Models { h with rb := rb } huge' keys')
      (rbInsert h.cmp h.rb node) (hugeTreeInsert huge node.word) := by
  obtain ⟨represents, tree, nodes⟩ := models
  simp only [hugeTreeInsert, tree]
  by_cases equal : ∃ other ∈ keys, h.cmp node other = .eq
  · obtain ⟨other, mem, there⟩ := equal
    rw [if_pos, represents.rejects mem there]
    · exact .error _
    · refine ⟨other.word, List.mem_map_of_mem mem, ?_⟩
      rw [nodes other mem, same]
      exact cmp_eq_eq.mp there
  · have new : ∀ key ∈ keys, h.cmp node key ≠ .eq := fun key mem there => equal ⟨key, mem, there⟩
    obtain ⟨rb, inserted, represents', _⟩ := represents.inserts proper new
    rw [if_neg, inserted]
    · refine .ok ⟨_, represents', ?_, ?_⟩
      · refine congrArg some (List.map_orderedInsert _ _ NodeAddr.word keys node ?_ ?_).symm
        all_goals
          intro key mem
          simp only [HugeMap.le, nodes key mem, same]
          exact cmp_ne_gt
      · intro key mem
        rcases List.mem_cons.mp ((List.perm_orderedInsert _ _ _).mem_iff.mp mem) with rfl | old
        · exact same
        · exact nodes key old
    · rintro ⟨_, member, there⟩
      obtain ⟨key, mem, rfl⟩ := List.mem_map.mp member
      rw [nodes key mem, same] at there
      exact new key mem (cmp_eq_eq.mpr there)

/-- `huge_malloc` with its frame off the tree. -/
theorem Models.malloc (models : Models h huge keys) (proper : node ≠ h.rb.rbtNil)
    (off : node ∉ keys) (w : World) (size : Nat) :
    Follows (fun made made' => made.1 = made'.1 ∧ made.2.1 = made'.2.1 ∧
        ∃ keys', Models made.2.2 made'.2.2 keys')
      (h.malloc w node size) (hugeMalloc w huge node.word size) := by
  unfold HugeTree.malloc hugeMalloc
  refine (Follows.refl _).bind ?_
  rintro ⟨ret, w⟩ _ rfl
  have recorded := models.update off ⟨size, w.mmapFile, ret⟩
  have same : Function.update huge.nodes node.word ⟨size, w.mmapFile, ret⟩ node.word =
      (h.setRecord node ⟨size, w.mmapFile, ret⟩).nodes node := by
    simp [HugeTree.setRecord]
  exact (recorded.insert proper same).bind fun rb huge' inserted => .ok ⟨rfl, rfl, inserted⟩

/-- A search for an address. -/
theorem Models.search (models : Models h huge keys) (key : NodeAddr)
    (enough : 2 * Nat.log 2 (keys.length + 1) < fuel) :
    rbSearch h.cmp fuel h.rb key =
        .ok (keys.find? fun n => (h.nodes n).paddr = (h.nodes key).paddr) ∧
      hugeTreeSearch huge (h.nodes key).paddr =
        .ok ((keys.find? fun n => (h.nodes n).paddr = (h.nodes key).paddr).map NodeAddr.word) := by
  obtain ⟨represents, tree, nodes⟩ := models
  constructor
  case left =>
    rw [represents.searches enough]
    simp only [cmp_eq_eq]
  case right =>
    rw [hugeTreeSearch, tree]
    simp only [List.find?_map]
    refine congrArg (fun found => Except.ok (Option.map _ found)) (List.find?_congr fun n mem => ?_)
    simp only [Function.comp_apply, nodes n mem]

/-- `huge_dalloc` with its frame off the tree removes the file of the record that is found. -/
theorem Models.dalloc (models : Models h huge keys) (off : key ∉ keys)
    (enough : pathLength ≤ fuel) (w : World) (ptr : Nat) :
    Follows (fun freed freed' => freed.1 = freed'.1 ∧ (∃ keys', Models freed.2.1 freed'.2 keys') ∧
        ∀ found, hugeTreeSearch huge ptr = .ok found →
          freed.2.2 = .huge (huge.nodes (found.getD 0)).fileNo)
      (h.dalloc fuel w key ptr) (hugeDalloc w huge ptr) := by
  have local_ := models.setRecord off { h.nodes key with paddr := ptr }
  have named : ((h.setRecord key { h.nodes key with paddr := ptr }).nodes key).paddr = ptr := by
    simp [HugeTree.setRecord]
  unfold HugeTree.dalloc hugeDalloc
  generalize h.setRecord key { h.nodes key with paddr := ptr } = h' at local_ named ⊢
  have short := Nat.lt_of_lt_of_le (log_lt_pathLength local_.represents.nodup) enough
  have search := local_.search key short
  rw [named] at search
  simp only [search.1, search.2]
  cases found : keys.find? fun n => (h'.nodes n).paddr = ptr with
  | none => exact .error _
  | some node =>
      have mem := List.mem_of_find?_eq_some found
      have there : (h'.nodes node).paddr = ptr := by simpa using List.find?_some found
      obtain ⟨represents, tree, nodes⟩ := local_
      obtain ⟨rb, removed, represents', _⟩ := represents.removes mem
      simp only [bind, Except.bind, Option.map_some, there, ne_eq, not_true_eq_false, if_false,
        removed, nodes node mem]
      refine .ok ⟨rfl, ⟨keys.erase node, represents', ?_, ?_⟩, ?_⟩
      · simp only [hugeTreeRemove, tree, Option.map_some]
        rw [List.map_erase NodeAddr.word_injective]
      · exact fun other kept => nodes other (List.mem_of_mem_erase kept)
      · intro n searched
        obtain rfl : some node.word = n := Except.ok.inj searched
        simp [nodes node mem]

end HugeTree

/-! ## Runs -/

section Runs

variable {s s' : TreeRun} {r : HugeRun} {op : TreeOp} {fuel : Nat} {w : World} {h : HugeTree}
  {huge : HugeMap} {pools : Nat → Pmempool} {ops : List TreeOp}

/-- Both hold the same blocks, and the list has the nodes of the tree. -/
structure TreeRun.OnList (s : TreeRun) (r : HugeRun) : Prop where
  world : s.world = r.world
  pools : s.pools = r.pools
  live : s.live = r.live
  removed : s.removed = r.removed
  tree : ∃ keys, s.huge.Models r.huge keys

/-- A frame that lies over no record of an outstanding block is not in the tree. -/
theorem HugeOk.notMem (ok : HugeOk r) {keys : List NodeAddr} {node : NodeAddr}
    (models : h.Models huge keys) (same : huge = r.huge)
    (clear : ∀ b ∈ r.live, b.node ≠ node.word) : node ∉ keys := by
  intro mem
  subst same
  obtain ⟨nodes, present, perm⟩ := ok.tree
  obtain rfl : keys.map NodeAddr.word = nodes := Option.some.inj (models.tree.symm.trans present)
  obtain ⟨b, outstanding, there⟩ := List.mem_map.mp (perm.mem_iff.mp (List.mem_map_of_mem mem))
  exact clear b outstanding there

/-- A call that is clear in memory is clear on the list. -/
theorem TreeRun.Clear.onList (clear : s.Clear op) (live : s.live = r.live) : r.Clear op.onList := by
  cases op with
  | malloc node size =>
      intro b outstanding
      exact clear.2 b (live ▸ outstanding)
  | overlay node links record =>
      intro b outstanding same
      exact absurd same (clear.2 b (live ▸ outstanding))
  | dalloc key ptr => exact trivial
  | createOne pool => exact trivial

/-- One call. -/
theorem TreeRun.OnList.step (on : s.OnList r) (ok : HugeOk r) (clear : s.Clear op)
    (enough : pathLength ≤ fuel) :
    Follows TreeRun.OnList (s.step fuel op) (r.frameStep op.onList) := by
  obtain ⟨w, h, pools, live, removed⟩ := s
  obtain ⟨sameWorld, samePools, sameLive, sameRemoved, keys, models⟩ := on
  simp only at sameWorld samePools sameLive sameRemoved models
  subst sameWorld samePools sameLive sameRemoved
  cases op with
  | malloc node size =>
      obtain ⟨proper, apart⟩ := clear
      have off := ok.notMem models rfl apart
      simp only [TreeRun.step, TreeOp.onList, HugeRun.frameStep, HugeRun.step]
      split
      case isFalse => exact .error _
      case isTrue =>
        refine (models.malloc proper off r.world size).bind ?_
        rintro ⟨ret, w, h⟩ ⟨_, _, huge⟩ ⟨rfl, rfl, inserted⟩
        exact .ok ⟨rfl, rfl, rfl, rfl, inserted⟩
  | dalloc key ptr =>
      have off := ok.notMem models rfl clear
      simp only [TreeRun.step, TreeOp.onList, HugeRun.frameStep, HugeRun.step]
      cases r.live.find? fun b => b.addr = ptr with
      | none => exact .error _
      | some b =>
        cases found : hugeTreeSearch r.huge ptr with
        | error fault => simp [hugeTreeSearch, models.tree] at found
        | ok n =>
            refine (models.dalloc off enough r.world ptr).bind ?_
            rintro ⟨w, h, path⟩ ⟨_, huge⟩ ⟨rfl, removed, named⟩
            refine .ok ⟨rfl, rfl, rfl, ?_, removed⟩
            exact congrArg (fun path => (b.path, path) :: r.removed) (named n found)
  | createOne pool =>
      refine (Follows.refl (pmempoolCreateOne r.world (r.pools pool))).bind ?_
      rintro ⟨w, pp⟩ _ rfl
      exact .ok ⟨rfl, rfl, rfl, rfl, keys, models⟩
  | overlay node links record =>
      obtain ⟨proper, apart⟩ := clear
      have off := ok.notMem models rfl apart
      obtain ⟨represents, tree, nodes⟩ := models.update off record
      refine .ok ⟨rfl, rfl, rfl, rfl, keys, ?_, tree, nodes⟩
      have others : Outside [node] h.rb (h.rb.store node links) :=
        ⟨rfl, fun n away => Function.update_of_ne (fun same => away (by simp [same])) _ _⟩
      refine represents.outside others rfl ?_ fun key mem there => ?_
      · exact fun there => proper (List.mem_singleton.mp there).symm
      · exact off (List.mem_singleton.mp there ▸ mem)

/-- Runs of huge requests over the tree in memory end as they do over the list of its nodes. -/
theorem hugeTreeRun_refines (huge : HugeMap) (enough : pathLength ≤ fuel)
    (clear : Meets (TreeRun.step fuel) TreeRun.Clear (.booted w h pools) ops) :
    Follows (fun s r => s.OnList r ∧ HugeOk r) (run (TreeRun.step fuel) (.booted w h pools) ops)
      (run HugeRun.frameStep (.booted w huge pools) (ops.map TreeOp.onList)) := by
  refine run_follows TreeOp.onList ?_ ?_ clear
  · rintro s r op ⟨on, ok⟩ here
    exact (on.step ok here enough).and_right fun r' stepped =>
      ok.frameStep (here.onList on.live) stepped
  · exact ⟨⟨rfl, rfl, rfl, rfl, [], represents_rbNew _ _, rfl, nofun⟩, .booted w huge pools⟩

/-- `huge_tree` of zero bytes. -/
def HugeTree.zeroed : HugeTree := ⟨.zeroed, fun _ => ⟨0, 0, 0⟩⟩

/-- Two blocks with records in frames of their own, the first of them freed. -/
def TreeOp.apartFrames : List TreeOp :=
  [.malloc (.ofWord 128) 4096, .malloc (.ofWord 192) 4096, .dalloc (.ofWord 256) chunksize]

theorem hugeTreeRun_refines_of_apartFrames :
    Follows (fun s r => s.OnList r ∧ HugeOk r)
      (run (TreeRun.step pathLength)
        (.booted (.fresh [chunksize, 2 * chunksize] []) .zeroed fun _ => .zeroed)
        TreeOp.apartFrames)
      (run HugeRun.frameStep
        (.booted (.fresh [chunksize, 2 * chunksize] []) .zeroed fun _ => .zeroed)
        (TreeOp.apartFrames.map TreeOp.onList)) := by
  have clear : Meets (TreeRun.step pathLength) TreeRun.Clear
      (.booted (.fresh [chunksize, 2 * chunksize] []) .zeroed fun _ => .zeroed)
      TreeOp.apartFrames := by decide +kernel
  exact hugeTreeRun_refines .zeroed (Nat.le_refl pathLength) clear

/-- Whatever calls a process has made with frames off the tree, the next one meets no failing
assertion and no stray pointer of `rb.h`. The record of an outstanding block is found in as many
steps as the logarithm of the number of blocks allows, and `huge_dalloc` unmaps what was asked
for. -/
theorem hugeTreeRun_recorded (enough : pathLength ≤ fuel)
    (clear : Meets (TreeRun.step fuel) TreeRun.Clear (.booted w h pools) ops)
    (reached : run (TreeRun.step fuel) (.booted w h pools) ops = .ok s) :
    (∀ op, s.Clear op → FailsOnly Fault.FromEnvironment (s.step fuel op)) ∧
    ∀ b ∈ s.live,
      (∃ node : NodeAddr, node.word = b.node ∧ (s.huge.nodes node).paddr = b.addr ∧
        (s.huge.nodes node).size = b.size ∧
        ∀ key steps, (s.huge.nodes key).paddr = b.addr →
          2 * Nat.log 2 (s.live.length + 1) < steps →
          rbSearch s.huge.cmp steps s.huge.rb key = .ok (some node)) ∧
      ∀ key, s.Clear (.dalloc key b.addr) → ∃ s', s.step fuel (.dalloc key b.addr) = .ok s' ∧
        s'.live = s.live.erase b ∧ s'.world.maps = (pmemUnmap s.world b.addr b.size).maps := by
  obtain ⟨r, _, on, ok⟩ := (hugeTreeRun_refines .zeroed enough clear).exists_ok reached
  constructor
  case left =>
    intro op here fault failed
    exact ok.failsOnly (here.onList on.live) fault ((on.step ok here enough).error_eq failed)
  case right =>
    intro b outstanding
    have listed := on.live ▸ outstanding
    constructor
    case left =>
      obtain ⟨keys, models⟩ := on.tree
      obtain ⟨nodes, present, perm⟩ := ok.tree
      obtain rfl : keys.map NodeAddr.word = nodes :=
        Option.some.inj (models.tree.symm.trans present)
      obtain ⟨node, mem, here⟩ := List.mem_map.mp
        (perm.mem_iff.mpr (List.mem_map_of_mem (f := HugeBlock.node) listed))
      have record := models.nodes node mem
      rw [here] at record
      refine ⟨node, here, by rw [← record, ok.paddr b listed], by rw [← record, ok.size b listed],
        fun key steps named short => ?_⟩
      have count : keys.length = s.live.length := by
        rw [on.live]
        simpa using perm.length_eq
      rw [← count] at short
      obtain ⟨inMemory, onList⟩ := models.search key short
      rw [named] at inMemory onList
      have found := Except.ok.inj (onList.symm.trans (ok.search listed))
      obtain ⟨n, there, same⟩ := Option.map_eq_some_iff.mp found
      rw [inMemory, there, NodeAddr.word_injective (same.trans here.symm)]
    case right =>
      intro key here
      obtain ⟨r', returned⟩ := ok.dalloc_returns listed
      obtain ⟨s', stepped, on'⟩ := (on.step ok here enough).exists_ok_of_abstract returned
      obtain ⟨_, c, other, same, live, maps, _⟩ := ok.dalloc returned
      obtain rfl : c = b := ok.eq_of_addr other listed same
      exact ⟨s', stepped, by rw [on'.live, live, on.live], by rw [on'.world, maps, on.world]⟩

theorem hugeTreeRun_recorded_of_apartFrames :
    ∃ s, run (TreeRun.step pathLength)
        (.booted (.fresh [chunksize, 2 * chunksize] []) .zeroed fun _ => .zeroed)
        TreeOp.apartFrames = .ok s ∧
      s.Clear (.dalloc (.ofWord 256) (2 * chunksize)) ∧
      FailsOnly Fault.FromEnvironment
        (s.step pathLength (.dalloc (.ofWord 256) (2 * chunksize))) := by
  obtain ⟨s, reached, clear⟩ : ∃ s, run (TreeRun.step pathLength)
      (.booted (.fresh [chunksize, 2 * chunksize] []) .zeroed fun _ => .zeroed)
      TreeOp.apartFrames = .ok s ∧ s.Clear (.dalloc (.ofWord 256) (2 * chunksize)) :=
    exists_eq_ok_and (by decide +kernel)
  exact ⟨s, reached, clear, (hugeTreeRun_recorded le_rfl (by decide +kernel) reached).1 _ clear⟩

end Runs

end Lsmalloc
