import Mathlib.Data.List.Sort
import Lsmalloc.Pool.Model

/-!
# The huge blocks of `huge.c`

A request above `arena_maxlarge` is a mapping of its own, recorded in `huge_tree`. The
record is a local variable of `huge_malloc`, so the tree holds the address of a frame;
what the records hold is kept by that address. Of the red-black tree only the order of
its nodes is modelled, and that a tree of zero bytes has `NULL` for a root.
-/

namespace Lsmalloc

/-- `huge_t`, its tree links apart. -/
structure HugeNode where
  size : Nat
  fileNo : Nat
  paddr : Nat
deriving DecidableEq, Repr

/-- `huge_tree` and the `huge_t` records. -/
structure HugeMap where
  /-- The nodes of the tree in the order of their keys; `none` is a tree that
  `huge_tree_new` has not initialised, whose `rbt_root` is `NULL`. -/
  tree : Option (List Nat)
  nodes : Nat → HugeNode

/-- `huge_tree` as the program is loaded. -/
def HugeMap.zeroed : HugeMap where
  tree := none
  nodes := fun _ => ⟨0, 0, 0⟩

/-- `huge_boot`. -/
def hugeBoot (huge : HugeMap) : HugeMap := { huge with tree := some [] }

/-- `huge_ad_cmp` is negative or zero. -/
def HugeMap.le (huge : HugeMap) (a b : Nat) : Prop := (huge.nodes a).paddr ≤ (huge.nodes b).paddr

instance (huge : HugeMap) : DecidableRel huge.le := fun a b =>
  inferInstanceAs (Decidable ((huge.nodes a).paddr ≤ (huge.nodes b).paddr))

/-- `huge_tree_insert`. It compares the new node with the root first, so a tree that is
not initialised makes it read `NULL->paddr`; an equal key fails its assertion. -/
def hugeTreeInsert (huge : HugeMap) (node : Nat) : Except Fault HugeMap :=
  match huge.tree with
  | none => .error .null
  | some nodes =>
      if ∃ n ∈ nodes, (huge.nodes n).paddr = (huge.nodes node).paddr then .error .abort
      else .ok { huge with tree := some (nodes.orderedInsert huge.le node) }

/-- `huge_tree_search` for a key. -/
def hugeTreeSearch (huge : HugeMap) (key : Nat) : Except Fault (Option Nat) :=
  match huge.tree with
  | none => .error .null
  | some nodes => .ok (nodes.find? fun n => (huge.nodes n).paddr = key)

/-- `huge_tree_remove` of a node that was found. -/
def hugeTreeRemove (huge : HugeMap) (node : Nat) : HugeMap :=
  { huge with tree := huge.tree.map fun nodes => nodes.erase node }

/-- `huge_malloc`, with `node` the address of its local variable. -/
def hugeMalloc (w : World) (huge : HugeMap) (node size : Nat) :
    Except Fault (Nat × World × HugeMap) := do
  let str := PmemPath.huge w.mmapFile
  let w := { w with mmapFile := (w.mmapFile + 1) % 2 ^ 32 }
  let (ret, w) ← pmemMapAligned w str size
  let w := { w with pmemConsmp := (w.pmemConsmp + size) % 2 ^ 32 }
  let huge := { huge with nodes := Function.update huge.nodes node ⟨size, w.mmapFile, ret⟩ }
  let huge ← hugeTreeInsert huge node
  .ok (ret, w, huge)

/-- `huge_dalloc`. -/
def hugeDalloc (w : World) (huge : HugeMap) (ptr : Nat) : Except Fault (World × HugeMap) := do
  let found ← hugeTreeSearch huge ptr
  match found with
  | none => .error .abort
  | some node =>
      let n := huge.nodes node
      let w := pmemUnmap w n.paddr n.size
      let w := { w with pmemConsmp := (w.pmemConsmp + (2 ^ 32 - n.size % 2 ^ 32)) % 2 ^ 32 }
      .ok (removeFile w (.huge n.fileNo), hugeTreeRemove huge node)

/-- No block is recorded in a tree that is not initialised. -/
theorem hugeMalloc_ne_ok {w : World} {huge : HugeMap} (missing : huge.tree = none)
    (node size : Nat) : ∀ made, hugeMalloc w huge node size ≠ .ok made := by
  intro made allocated
  obtain ⟨⟨ret, w'⟩, _, allocated⟩ := Execution.bind_eq_ok.mp allocated
  obtain ⟨huge', inserted, _⟩ := Execution.bind_eq_ok.mp allocated
  simp only [hugeTreeInsert, missing] at inserted
  cases inserted

end Lsmalloc
