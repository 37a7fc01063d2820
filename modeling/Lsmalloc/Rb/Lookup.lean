import Lsmalloc.Rb.Represents

/-!
# Lookups read the sorted list

The functions that come in pairs do from one side what their counterparts do from the other. One
proof serves both, with the list of nodes read from the side the function goes to.
-/

namespace Lsmalloc

open RedBlack RedBlack.ColorTree

namespace RbTree

variable {cmp : NodeAddr → NodeAddr → Ordering} {t : RbTree} {n k x ret : NodeAddr} {red : Bool}
  {tree left right : ColorTree NodeAddr} {side : Side} {keys first last : List NodeAddr}
  {fuel : Nat}

/-! ## Sides -/

/-- The nodes as they are met from a side. -/
def Side.list (side : Side) (keys : List NodeAddr) : List NodeAddr :=
  match side with
  | .left => keys
  | .right => keys.reverse

/-- The subtree on a side. -/
def Side.child (side : Side) (left right : ColorTree NodeAddr) : ColorTree NodeAddr :=
  match side with
  | .left => left
  | .right => right

/-- Every node compares towards the side with those behind it. -/
def SortedFrom (side : Side) (cmp : NodeAddr → NodeAddr → Ordering) (keys : List NodeAddr) : Prop :=
  keys.Pairwise fun a b => cmp a b = side.toward

theorem Shows.child (shown : Shows t (node red left k right) n) (side : Side) :
    Shows t (side.child left right) (t.childGet side k) := by
  cases side with
  | left => exact shown.onLeft
  | right => exact shown.onRight

theorem list_node (side : Side) : side.list (node red left k right).toList =
    side.list (side.child left right).toList ++
      k :: side.list (side.other.child left right).toList := by
  cases side with
  | left => rfl
  | right => simp [Side.list, Side.child, Side.other]

@[simp] theorem list_nil (side : Side) : side.list [] = [] := by
  cases side <;> rfl

@[simp] theorem mem_list (side : Side) {key : NodeAddr} : key ∈ side.list keys ↔ key ∈ keys := by
  cases side with
  | left => rfl
  | right => exact List.mem_reverse

theorem depth_child (deep : (node red left k right).depth < fuel + 1) (side : Side) :
    (side.child left right).depth < fuel := by
  simp only [depth] at deep
  cases side <;> simp only [Side.child] <;> omega

theorem toward_ne_eq (side : Side) : side.toward ≠ .eq := by
  cases side <;> nofun

theorem toward_other (side : Side) : side.other.toward ≠ side.toward := by
  cases side <;> nofun

/-- A comparison is equal or leads to a side. -/
theorem toward_or (side : Side) (order : Ordering) :
    order = .eq ∨ order = side.toward ∨ order = side.other.toward := by
  cases side <;> cases order <;> simp [Side.toward, Side.other]

/-- The nodes around the one at the root. -/
theorem SortedFrom.around (sorted : SortedFrom side cmp (first ++ k :: last)) :
    SortedFrom side cmp first ∧ SortedFrom side cmp last ∧
      (∀ a ∈ first, cmp a k = side.toward) ∧ ∀ b ∈ last, cmp k b = side.toward := by
  obtain ⟨before, rest, across⟩ := List.pairwise_append.mp sorted
  obtain ⟨onward, behind⟩ := List.pairwise_cons.mp rest
  exact ⟨before, behind, fun a mem => across a mem k (by simp), onward⟩

section Trans

variable [Std.TransCmp cmp]

theorem sortedFrom (sorted : Sorted cmp keys) (side : Side) :
    SortedFrom side cmp (side.list keys) := by
  cases side with
  | left => exact sorted
  | right =>
      refine List.pairwise_reverse.mpr (sorted.imp ?_)
      exact fun less => Std.OrientedCmp.gt_of_lt less

theorem toward_trans {a b c : NodeAddr} (first : cmp a b = side.toward)
    (second : cmp b c = side.toward) : cmp a c = side.toward := by
  cases side with
  | left => exact Std.TransCmp.lt_trans first second
  | right => exact Std.TransCmp.gt_trans first second

theorem toward_swap {a b : NodeAddr} : cmp a b = side.other.toward ↔ cmp b a = side.toward := by
  cases side with
  | left => exact Std.OrientedCmp.gt_iff_lt
  | right => exact Std.OrientedCmp.gt_iff_lt.symm

/-- How a key compares with the nodes on the sides of one it was compared with. -/
theorem SortedFrom.compare (sorted : SortedFrom side cmp (first ++ k :: last)) :
    (cmp x k = side.toward → ∀ b ∈ last, cmp x b = side.toward) ∧
      (cmp x k = side.other.toward → ∀ a ∈ first, cmp x a = side.other.toward) ∧
        (cmp x k = .eq → (∀ a ∈ first, cmp x a = side.other.toward) ∧
          ∀ b ∈ last, cmp x b = side.toward) := by
  obtain ⟨_, _, before, behind⟩ := sorted.around
  refine ⟨fun here b mem => toward_trans here (behind b mem),
    fun here a mem => toward_trans here (toward_swap.mpr (before a mem)),
    fun same => ⟨fun a mem => ?_, fun b mem => ?_⟩⟩
  · rw [Std.TransCmp.congr_left same]
    exact toward_swap.mpr (before a mem)
  · rw [Std.TransCmp.congr_left same]
    exact behind b mem

theorem SortedFrom.nodup (sorted : SortedFrom side cmp keys) : keys.Nodup := by
  refine sorted.imp ?_
  rintro a b order rfl
  have same : cmp a a = .eq := Std.ReflCmp.compare_self
  rw [same] at order
  exact toward_ne_eq side order.symm

/-! ## Loops -/

/-- The loop of `search` finds the node that is equal. -/
theorem searchLoop_eq (shown : Shows t tree n) (sorted : Sorted cmp tree.toList)
    (deep : tree.depth < fuel) :
    searchLoop cmp t x fuel n =
      .ok ((tree.toList.find? fun key => cmp x key = .eq).getD t.rbtNil) := by
  induction tree generalizing n fuel with
  | nil =>
      obtain ⟨fuel, rfl⟩ := Nat.exists_eq_succ_of_ne_zero (Nat.ne_of_gt deep)
      have atNil : n = t.rbtNil := shown
      simp [searchLoop, atNil]
  | node red left key right ihLeft ihRight =>
      obtain ⟨fuel, rfl⟩ := Nat.exists_eq_succ_of_ne_zero (Nat.ne_zero_of_lt deep)
      obtain ⟨sortedLeft, sortedRight, _⟩ := sorted.around
      obtain ⟨less, more, same⟩ := (sortedFrom sorted .left).compare (x := x)
      obtain ⟨rfl, proper, _, onLeft, onRight⟩ := shown
      rw [searchLoop, if_neg proper, toList, List.find?_append]
      cases here : cmp x n with
      | lt =>
          have none : right.toList.find? (fun key => cmp x key = .eq) = none := by
            simp only [List.find?_eq_none, decide_eq_true_eq]
            intro b mem
            rw [less here b mem]
            nofun
          simp only
          rw [ihLeft onLeft sortedLeft (depth_child deep .left)]
          simp [here, none]
      | gt =>
          have none : left.toList.find? (fun key => cmp x key = .eq) = none := by
            simp only [List.find?_eq_none, decide_eq_true_eq]
            intro a mem
            rw [more here a mem]
            nofun
          simp only
          rw [ihRight onRight sortedRight (depth_child deep .right)]
          simp [here, none]
      | eq =>
          have none : left.toList.find? (fun key => cmp x key = .eq) = none := by
            simp only [List.find?_eq_none, decide_eq_true_eq]
            intro a mem
            rw [(same here).1 a mem]
            nofun
          simp [here, none]

/-- The loop of `nsearch` and `psearch` finds the first node from the side that is not too far. -/
theorem nearLoop_eq (shown : Shows t tree n) (sorted : SortedFrom side cmp (side.list tree.toList))
    (deep : tree.depth < fuel) :
    nearLoop cmp t side x fuel n ret =
      .ok (((side.list tree.toList).find? fun key => cmp x key ≠ side.other.toward).getD ret) := by
  induction fuel generalizing tree n ret with
  | zero => exact absurd deep (Nat.not_lt_zero _)
  | succ fuel ih =>
      cases tree with
      | nil =>
          have atNil : n = t.rbtNil := shown
          simp [nearLoop, atNil]
      | node red left key right =>
          have proper := shown.2.1
          obtain rfl : n = key := shown.1
          rw [list_node] at sorted ⊢
          obtain ⟨sortedFirst, sortedLast, _⟩ := sorted.around
          obtain ⟨toward, away, same⟩ := sorted.compare (x := x)
          rw [nearLoop, if_neg proper, List.find?_append]
          have skip (past : ∀ a ∈ side.list (side.child left right).toList,
              cmp x a = side.other.toward) :
              (side.list (side.child left right).toList).find?
                (fun key => cmp x key ≠ side.other.toward) = none := by
            simp only [List.find?_eq_none, decide_eq_true_eq, not_not]
            exact past
          rcases toward_or side (cmp x n) with here | here | here
          · rw [if_pos here, skip (same here).1]
            simp [here, (toward_ne_eq side.other).symm]
          · rw [if_neg (by rw [here]; exact toward_ne_eq side), if_pos here,
              ih (shown.child side) sortedFirst (depth_child deep side)]
            simp [here, (toward_other side).symm]
          · rw [if_neg (by rw [here]; exact toward_ne_eq _),
              if_neg (by rw [here]; exact toward_other side),
              ih (shown.child side.other) sortedLast (depth_child deep side.other),
              skip (away here)]
            simp [here]

omit [Std.TransCmp cmp] in
/-- `rbtn_first` and `rbtn_last` find the first node from the side. -/
theorem rbtnEdge_eq (shown : Shows t tree n) (deep : tree.depth < fuel) :
    t.rbtnEdge side fuel n = .ok ((side.list tree.toList).head?.getD t.rbtNil) := by
  have loop : ∀ fuel (tree : ColorTree NodeAddr) n, Shows t tree n → tree ≠ .nil →
      tree.depth ≤ fuel →
      t.edgeLoop side fuel n = .ok ((side.list tree.toList).head?.getD t.rbtNil) := by
    intro fuel
    induction fuel with
    | zero =>
        intro tree n _ proper deep
        cases tree with
        | nil => exact absurd rfl proper
        | node red left key right => exact absurd deep (by simp [depth])
    | succ fuel ih =>
        intro tree n shown proper deep
        cases tree with
        | nil => exact absurd rfl proper
        | node red left key right =>
            obtain rfl : n = key := shown.1
            have below := shown.child side
            rw [edgeLoop, list_node]
            by_cases none : side.child left right = .nil
            · rw [if_pos (below.eq_nil_iff.mpr none), none]
              simp
            · have less : (side.child left right).depth ≤ fuel := by
                have := depth_child (Nat.lt_succ_of_le deep) side
                omega
              rw [if_neg (fun same => none (below.eq_nil_iff.mp same)), ih _ _ below none less]
              have some : side.list (side.child left right).toList ≠ [] := by
                cases side <;> cases child : (Side.child _ left right) <;> simp_all [Side.list]
              rw [List.head?_append_of_ne_nil _ some]
  unfold rbtnEdge
  by_cases none : tree = .nil
  · subst none
    have atNil : n = t.rbtNil := shown
    simp [atNil]
  · rw [if_neg (fun same => none (shown.eq_nil_iff.mp same))]
    exact loop fuel tree n shown none (Nat.le_of_lt deep)

/-- The loop of `next` and `prev` finds the node behind one that has nothing below it on the far
side. -/
theorem stepLoop_eq (ret : NodeAddr) (shown : Shows t tree n)
    (sorted : SortedFrom side cmp (side.list tree.toList))
    (mem : x ∈ tree.toList) (alone : t.childGet side.other x = t.rbtNil)
    (deep : tree.depth < fuel) :
    ∃ first last, side.list tree.toList = first ++ x :: last ∧
      stepLoop cmp t side x fuel n ret = .ok (last.head?.getD ret) := by
  induction fuel generalizing tree n ret with
  | zero => exact absurd deep (Nat.not_lt_zero _)
  | succ fuel ih =>
      cases tree with
      | nil => cases mem
      | node red left key right =>
          have proper := shown.2.1
          obtain rfl : n = key := shown.1
          have same : cmp x x = .eq := Std.ReflCmp.compare_self
          have mem' := (mem_list side).mpr mem
          rw [list_node] at sorted mem' ⊢
          obtain ⟨sortedFirst, sortedLast, before, behind⟩ := sorted.around
          rw [stepLoop, if_neg proper]
          rw [List.mem_append, List.mem_cons] at mem'
          rcases mem' with inFirst | rfl | inLast
          · have here := before x inFirst
            obtain ⟨first, last, split, result⟩ := ih n (shown.child side) sortedFirst
              ((mem_list _).mp inFirst) (depth_child deep side)
            refine ⟨first, last ++ n :: side.list (side.other.child left right).toList,
              by rw [split]; simp, ?_⟩
            rw [if_neg (by rw [here]; exact toward_ne_eq side), if_pos here, result]
            cases last <;> rfl
          · have none : side.other.child left right = .nil :=
              (shown.child side.other).eq_nil_iff.mp alone
            refine ⟨_, [], by rw [none]; simp; rfl, ?_⟩
            rw [if_pos same]
            rfl
          · have here := toward_swap.mpr (behind x inLast)
            obtain ⟨first, last, split, result⟩ := ih ret (shown.child side.other) sortedLast
              ((mem_list _).mp inLast) (depth_child deep side.other)
            refine ⟨side.list (side.child left right).toList ++ n :: first, last,
              by rw [split]; simp, ?_⟩
            rw [if_neg (by rw [here]; exact toward_ne_eq _),
              if_neg (by rw [here]; exact toward_other side), result]

omit [Std.TransCmp cmp] in
/-- The nodes around one of the nodes: the first behind it are those below it on the far side. -/
theorem exists_subtree (shown : Shows t tree n) (mem : x ∈ tree.toList) (side : Side) :
    ∃ sub first rest, Shows t sub (t.childGet side.other x) ∧ sub.depth < tree.depth ∧
      side.list tree.toList = first ++ x :: (side.list sub.toList ++ rest) := by
  induction tree generalizing n with
  | nil => cases mem
  | node red left key right ihLeft ihRight =>
      obtain rfl : n = key := shown.1
      have shallow (side : Side) : (side.child left right).depth < (node red left n right).depth :=
        depth_child (Nat.lt_succ_self _) side
      have found := (mem_list side).mpr mem
      rw [list_node, List.mem_append, List.mem_cons] at found
      rw [list_node]
      have inChild : ∀ side' : Side, x ∈ (side'.child left right).toList →
          ∃ sub first rest, Shows t sub (t.childGet side.other x) ∧
            sub.depth < (node red left n right).depth ∧
            side.list (side'.child left right).toList =
              first ++ x :: (side.list sub.toList ++ rest) := by
        intro side' inside
        have below := shown.child side'
        cases side' with
        | left =>
            obtain ⟨sub, first, rest, there, deep, split⟩ := ihLeft below inside
            exact ⟨sub, first, rest, there, deep.trans (shallow .left), split⟩
        | right =>
            obtain ⟨sub, first, rest, there, deep, split⟩ := ihRight below inside
            exact ⟨sub, first, rest, there, deep.trans (shallow .right), split⟩
      rcases found with near | rfl | far
      · obtain ⟨sub, first, rest, there, deep, split⟩ := inChild side ((mem_list _).mp near)
        exact ⟨sub, first, rest ++ n :: side.list (side.other.child left right).toList, there, deep,
          by rw [split]; simp⟩
      · exact ⟨_, _, [], shown.child side.other, shallow side.other, by simp; rfl⟩
      · obtain ⟨sub, first, rest, there, deep, split⟩ := inChild side.other ((mem_list _).mp far)
        exact ⟨sub, side.list (side.child left right).toList ++ n :: first, rest, there, deep,
          by rw [split]; simp⟩

/-! ## The functions -/

omit [Std.TransCmp cmp] in
/-- The tree that is seen, with a bound on its depth. -/
theorem Represents.exists_tree (holds : Represents cmp t keys) :
    ∃ tree, Shows t tree t.rbtRoot ∧ tree.toList = keys ∧
      tree.depth ≤ 2 * Nat.log 2 (keys.length + 1) := by
  obtain ⟨_, sorted, tree, height, shown, balanced, rfl⟩ := holds
  exact ⟨tree, shown, rfl, balanced.depth_le_log⟩

omit [Std.TransCmp cmp] in
/-- What a loop finds among the nodes is no `rbt_nil`. -/
theorem Represents.orNull_getD (holds : Represents cmp t keys) {found : Option NodeAddr}
    (among : ∀ key ∈ found, key ∈ keys) : t.orNull (found.getD t.rbtNil) = found := by
  obtain ⟨_, _, tree, _, shown, _, rfl⟩ := holds
  cases found with
  | none => simp [orNull]
  | some key =>
      have proper : key ≠ t.rbtNil := by
        rintro rfl
        exact shown.nil_off (among t.rbtNil rfl)
      simp [orNull, proper]

/-- `search` finds the node that is equal. -/
theorem Represents.searches (holds : Represents cmp t keys)
    (enough : 2 * Nat.log 2 (keys.length + 1) < fuel) :
    rbSearch cmp fuel t x = .ok (keys.find? fun key => cmp x key = .eq) := by
  obtain ⟨tree, shown, rfl, shallow⟩ := holds.exists_tree
  have deep := Nat.lt_of_le_of_lt shallow enough
  rw [rbSearch, searchLoop_eq shown holds.sorted deep]
  exact congrArg Except.ok (holds.orNull_getD fun key found => List.mem_of_find?_eq_some found)

/-- `nsearch` and `psearch` find the nearest node that is not beyond the key. -/
theorem Represents.searches_near (holds : Represents cmp t keys)
    (enough : 2 * Nat.log 2 (keys.length + 1) < fuel) (side : Side) : searchNear cmp side fuel t x =
      .ok ((side.list keys).find? fun key => cmp x key ≠ side.other.toward) := by
  obtain ⟨tree, shown, rfl, shallow⟩ := holds.exists_tree
  have deep := Nat.lt_of_le_of_lt shallow enough
  rw [searchNear, nearLoop_eq shown (sortedFrom holds.sorted side) deep]
  exact congrArg Except.ok (holds.orNull_getD fun key found =>
    (mem_list _).mp (List.mem_of_find?_eq_some found))

omit [Std.TransCmp cmp] in
/-- `first` and `last` find the first node from their side. -/
theorem Represents.edges (holds : Represents cmp t keys)
    (enough : 2 * Nat.log 2 (keys.length + 1) < fuel) (side : Side) :
    firstFrom side fuel t = .ok (side.list keys).head? := by
  obtain ⟨tree, shown, rfl, shallow⟩ := holds.exists_tree
  have deep := Nat.lt_of_le_of_lt shallow enough
  rw [firstFrom, rbtnEdge_eq shown deep]
  exact congrArg Except.ok (holds.orNull_getD fun key found =>
    (mem_list _).mp (List.mem_of_mem_head? found))

/-- `next` and `prev` find the node behind a node, as seen from their side. -/
theorem Represents.steps (holds : Represents cmp t keys) (side : Side)
    (enough : 2 * Nat.log 2 (keys.length + 1) < fuel)
    (split : side.list keys = first ++ x :: last) :
    stepFrom cmp side fuel t x = .ok last.head? := by
  obtain ⟨tree, shown, rfl, shallow⟩ := holds.exists_tree
  have deep := Nat.lt_of_le_of_lt shallow enough
  have sorted := sortedFrom holds.sorted side
  have mem : x ∈ tree.toList := by
    rw [← mem_list side, split]
    simp
  have once := sorted.nodup
  rw [split, List.nodup_middle, List.nodup_cons, List.mem_append, not_or] at once
  have unique : ∀ {first' last'}, side.list tree.toList = first' ++ x :: last' → last' = last := by
    intro first' last' split'
    rw [split] at split'
    exact ((List.append_cons_inj_of_notMem once.1.1 once.1.2).mp split').2.2.symm
  have result : ∀ ret, ret = last.head?.getD t.rbtNil →
      t.orNull ret = last.head? := by
    rintro ret rfl
    refine holds.orNull_getD fun key found => ?_
    rw [← mem_list side, split]
    simp [List.mem_of_mem_head? found]
  obtain ⟨sub, first', rest, there, less, split'⟩ := exists_subtree shown mem side
  unfold stepFrom
  by_cases alone : t.childGet side.other x = t.rbtNil
  · obtain ⟨first'', last'', split'', found⟩ := stepLoop_eq t.rbtNil shown sorted mem alone deep
    rw [if_neg (not_not.mpr alone), found, unique split'']
    exact congrArg Except.ok (result _ rfl)
  · have some : side.list sub.toList ≠ [] := by
      intro none
      refine alone (there.eq_nil_iff.mpr ?_)
      cases sub with
      | nil => rfl
      | node red left key right =>
          have here : key ∈ side.list (node red left key right).toList := (mem_list _).mpr (by simp)
          rw [none] at here
          cases here
    rw [if_pos alone, rbtnEdge_eq there (less.trans deep)]
    refine congrArg Except.ok (result _ ?_)
    rw [← unique split', List.head?_append_of_ne_nil _ some]

end Trans

end RbTree

end Lsmalloc
