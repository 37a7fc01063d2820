import Mathlib.Data.Finset.Card
import Lsmalloc.Rb.Successor

/-!
# The set a red-black tree of `rb.h` stands for

A tree in memory stands for a sorted list of nodes. Nodes have even addresses of 64 bits, so
there are fewer than `2 ^ 63` and the `path` arrays are long enough.
-/

namespace Lsmalloc

open RedBlack RedBlack.ColorTree

/-- There are `2 ^ 63` addresses of nodes. -/
theorem NodeAddr.length_le {keys : List NodeAddr} (nodup : keys.Nodup) :
    keys.length ≤ 2 ^ 63 := by
  have even : ∀ a : NodeAddr, a.addr.toNat % 2 = 0 := by
    intro a
    have low := congrArg BitVec.toNat a.aligned
    simpa using low
  have injective : Function.Injective fun a : NodeAddr => a.addr.toNat / 2 := by
    intro a b same
    have evenA := even a
    have evenB := even b
    refine NodeAddr.ext (BitVec.eq_of_toNat_eq ?_)
    simp only at same
    omega
  have bounded : (keys.map fun a : NodeAddr => a.addr.toNat / 2).toFinset ⊆
      Finset.range (2 ^ 63) := by
    intro half mem
    obtain ⟨a, _, rfl⟩ := List.mem_map.mp (List.mem_toFinset.mp mem)
    have bound := a.addr.isLt
    rw [Finset.mem_range]
    omega
  have counted := Finset.card_le_card bounded
  rwa [List.toFinset_card_of_nodup (nodup.map injective), List.length_map,
    Finset.card_range] at counted

namespace RbTree

variable {cmp : NodeAddr → NodeAddr → Ordering} {t t' : RbTree} {keys : List NodeAddr}
  {node : NodeAddr} {tree : ColorTree NodeAddr}

/-- The tree in memory stands for the nodes. -/
structure Represents (cmp : NodeAddr → NodeAddr → Ordering) (t : RbTree) (keys : List NodeAddr) :
    Prop where
  black : t.rbtnRedGet t.rbtNil = false
  sorted : Sorted cmp keys
  shown : ∃ tree height, Shows t tree t.rbtRoot ∧ Balanced height false tree ∧ tree.toList = keys

/-- There are so few nodes beside the sentinel that a way down is shorter than `path`. -/
theorem log_lt_pathLength (nodup : (node :: keys).Nodup) :
    2 * Nat.log 2 (keys.length + 1) < pathLength := by
  have few := NodeAddr.length_le nodup
  have bits : Nat.log 2 (keys.length + 1) ≤ Nat.log 2 (2 ^ 63) := Nat.log_mono_right few
  rw [Nat.log_pow (by decide)] at bits
  simp only [pathLength]
  omega

/-- No way down a balanced tree is longer than `path`. -/
theorem Shows.depth_lt {height : Nat} (shown : Shows t tree node)
    (balanced : Balanced height false tree) (nodup : tree.toList.Nodup) :
    tree.depth ≤ pathLength - 1 := by
  have deep := balanced.depth_le_log
  have short := log_lt_pathLength (List.nodup_cons.mpr ⟨shown.nil_off, nodup⟩)
  omega

/-- Only how the nodes of the set compare matters. -/
theorem Represents.congr {cmp' : NodeAddr → NodeAddr → Ordering} (holds : Represents cmp t keys)
    (agree : ∀ a ∈ keys, ∀ b ∈ keys, cmp' a b = cmp a b) : Represents cmp' t keys where
  black := holds.black
  sorted := holds.sorted.imp_of_mem fun {a b} here there less => (agree a here b there).trans less
  shown := holds.shown

/-- Links of other nodes do not matter. -/
theorem Represents.outside {others : List NodeAddr} (holds : Represents cmp t keys)
    (outside : Outside others t t') (root : t'.rbtRoot = t.rbtRoot) (nil : t.rbtNil ∉ others)
    (apart : ∀ key ∈ keys, key ∉ others) : Represents cmp t' keys := by
  obtain ⟨black, sorted, tree, height, shown, balanced, rfl⟩ := holds
  exact ⟨outside.black black nil, sorted, tree, height, root ▸ outside.shows shown apart, balanced,
    rfl⟩

/-- In a sorted set no node occurs twice, and the sentinel is none of them. -/
theorem Represents.nodup [Std.TransCmp cmp] (holds : Represents cmp t keys) :
    (t.rbtNil :: keys).Nodup := by
  obtain ⟨_, sorted, tree, height, shown, _, rfl⟩ := holds
  exact List.nodup_cons.mpr ⟨shown.nil_off, sorted.nodup⟩

/-- `rb_new` makes the empty set. -/
theorem represents_rbNew (cmp : NodeAddr → NodeAddr → Ordering) (t : RbTree) :
    Represents cmp t.rbNew [] where
  black := by simp [rbNew]
  sorted := List.Pairwise.nil
  shown := ⟨.nil, 0, by simp [rbNew, Shows], .nil, rfl⟩

variable [Std.TransCmp cmp]

/-- `insert` adds a node that is equal to none. -/
theorem Represents.inserts (holds : Represents cmp t keys) (proper : node ≠ t.rbtNil)
    (new : ∀ key ∈ keys, cmp node key ≠ .eq) :
    ∃ t', rbInsert cmp t node = .ok t' ∧
      Represents cmp t' (keys.orderedInsert (fun a b => cmp a b ≠ .gt) node) ∧
      Outside (node :: keys) t t' := by
  obtain ⟨black, sorted, tree, height, shown, balanced, rfl⟩ := holds
  have fresh : node ∉ tree.toList := fun mem => new node mem Std.ReflCmp.compare_self
  obtain ⟨tree', height', inserted, balanced', sorted', keys'⟩ := insert_sound balanced sorted new
  obtain ⟨way, found, rfl⟩ := Option.map_eq_some_iff.mp inserted
  have others : Outside [node] t (t.rbtNodeNew node) :=
    ⟨rbtNodeNew_nil, fun m off => rbtNodeNew_other fun same => off (by simp [same])⟩
  have shown' : Shows (t.rbtNodeNew node) tree (t.rbtNodeNew node).rbtRoot := by
    rw [rbtNodeNew_root]
    exact others.shows shown fun key mem same => fresh (List.mem_singleton.mp same ▸ mem)
  have down := insertWind_eq cmp node shown' (shown.depth_lt balanced sorted.nodup) []
  rw [found] at down
  have path := plug_wind found
  rw [plug] at path
  rw [← path] at shown'
  obtain ⟨above, _⟩ := shows_plug.mp shown'
  have leaf : Shows (t.rbtNodeNew node) (.node true .nil node .nil) node := by
    obtain ⟨left, right, colour⟩ := rbtNodeNew_get (t := t) (n := node)
    exact ⟨rfl, by rwa [rbtNodeNew_nil], colour, left.trans rbtNodeNew_nil.symm,
      right.trans rbtNodeNew_nil.symm⟩
  have perm := perm_plug way (.nil : ColorTree NodeAddr)
  rw [path, toList, List.nil_append] at perm
  have apart : ((ColorTree.node true .nil node .nil).toList ++ around way).Nodup := by
    simp only [toList, List.nil_append, List.cons_append, List.nodup_cons]
    exact ⟨fun mem => fresh (perm.mem_iff.mpr mem), perm.nodup_iff.mp sorted.nodup⟩
  have black' := others.black black (by simpa using proper.symm)
  obtain ⟨shown'', outside⟩ := insertUnwind_shows black' above leaf (by simp) apart
  have among :
      Outside (node :: tree.toList) t ((t.rbtNodeNew node).insertUnwind (trail way) node) := by
    refine (others.mono (by simp)).trans (outside.mono ?_)
    intro key mem
    simpa [perm.mem_iff] using mem
  refine ⟨_, by rw [rbInsert, show ([] : List PathEntry) = trail [] from rfl, down]; rfl, ?_, among⟩
  refine ⟨among.black black ?_, keys' ▸ sorted', _, height', shown'', balanced', keys'⟩
  simpa [proper.symm] using shown.nil_off

/-- `insert` of a node that is equal to one fails its assertion. -/
theorem Represents.rejects (holds : Represents cmp t keys) {other : NodeAddr}
    (mem : other ∈ keys) (equal : cmp node other = .eq) : rbInsert cmp t node = .error .abort := by
  obtain ⟨_, sorted, tree, height, shown, balanced, rfl⟩ := holds
  have others : Outside [node] t (t.rbtNodeNew node) :=
    ⟨rbtNodeNew_nil, fun m off => rbtNodeNew_other fun same => off (by simp [same])⟩
  have down := insertWind_equal others shown sorted mem equal
    (shown.depth_lt balanced sorted.nodup) []
  rw [rbInsert, rbtNodeNew_root, down]
  rfl

/-- `remove` takes a node out. -/
theorem Represents.removes (holds : Represents cmp t keys) (mem : node ∈ keys) :
    ∃ t', rbRemove cmp t node = .ok t' ∧ Represents cmp t' (keys.erase node) ∧
      Outside keys t t' := by
  obtain ⟨black, sorted, tree, height, shown, balanced, rfl⟩ := holds
  obtain ⟨t', tree', done, onTree, shown', outside⟩ := rbRemove_shows black shown balanced sorted
    mem (shown.depth_lt balanced sorted.nodup)
  obtain ⟨tree'', height', removed, balanced', sorted', keys'⟩ := remove_sound balanced sorted mem
  obtain rfl : tree' = tree'' := Option.some.inj (onTree.symm.trans removed)
  exact ⟨t', done, ⟨outside.black black shown.nil_off, keys' ▸ sorted', tree', height', shown',
    balanced', keys'⟩, outside⟩

/-- `remove` of a node that is not there follows a null pointer, unless another node is equal: then
its assertion fails. -/
theorem Represents.misses (holds : Represents cmp t keys) (missing : node ∉ keys) :
    rbRemove cmp t node =
      .error (if ∃ other ∈ keys, cmp node other = .eq then .abort else .null) := by
  obtain ⟨_, sorted, tree, height, shown, balanced, rfl⟩ := holds
  have down := removeWind_eq cmp node shown
    (shown.depth_lt balanced sorted.nodup) []
  rw [trail_nil] at down
  unfold rbRemove
  split
  next found =>
    obtain ⟨other, mem, equal⟩ := found
    obtain ⟨way, red, left, right, located⟩ := exists_locate [] sorted mem equal
    have differs : other ≠ node := by
      rintro rfl
      exact missing mem
    rw [located] at down
    simp [down, bind, Except.bind, differs]
  next none =>
    rw [locate_eq_none fun other mem equal => none ⟨other, mem, equal⟩] at down
    simp [down, bind, Except.bind]

end RbTree

end Lsmalloc
