import Lsmalloc.Rb.Lookup

/-!
# Iteration visits the sorted list

`iter` calls back for each node in order until a callback returns one. The loop is a recursion on
the tree; what it does is a walk along the list of nodes.
-/

namespace Lsmalloc

open RedBlack RedBlack.ColorTree

namespace RbTree

variable {cmp : NodeAddr → NodeAddr → Ordering} {t : RbTree} {n x : NodeAddr}
  {tree : ColorTree NodeAddr} {side : Side} {keys first last : List NodeAddr} {fuel : Nat}

section Visit

variable {σ : Type} (cb : σ → NodeAddr → Option NodeAddr × σ)

/-- Calls back for each node until a callback returns one. -/
def visit : List NodeAddr → σ → Option NodeAddr × σ
  | [], s => (none, s)
  | key :: keys, s =>
      match cb s key with
      | (some ret, s) => (some ret, s)
      | (none, s) => visit keys s

variable {cb}

/-- The nodes behind are visited if no callback returned a node before. -/
theorem visit_append (keys keys' : List NodeAddr) (s : σ) : visit cb (keys ++ keys') s =
    match visit cb keys s with
    | (some ret, s) => (some ret, s)
    | (none, s) => visit cb keys' s := by
  induction keys generalizing s with
  | nil => rfl
  | cons key keys ih =>
      simp only [List.cons_append, visit]
      split
      · rfl
      · exact ih _

variable (proper : ∀ s key, (cb s key).1 ≠ some t.rbtNil)

include proper

/-- No visit returns `rbt_nil` if no callback does. -/
theorem visit_ne_nil (keys : List NodeAddr) (s : σ) : (visit cb keys s).1 ≠ some t.rbtNil := by
  induction keys generalizing s with
  | nil => nofun
  | cons key keys ih =>
      have here := proper s key
      simp only [visit]
      split
      next ret s' called =>
        rw [called] at here
        exact here
      next => exact ih _

/-- The result of a visit as the recursions return it. -/
def done (t : RbTree) (visited : Option NodeAddr × σ) : NodeAddr × σ :=
  (visited.1.getD t.rbtNil, visited.2)

/-- The first half of a visit decides whether there is a second. -/
theorem done_append (keys keys' : List NodeAddr) (s : σ) :
    done t (visit cb (keys ++ keys') s) =
      if (done t (visit cb keys s)).1 ≠ t.rbtNil then done t (visit cb keys s)
      else done t (visit cb keys' (visit cb keys s).2) := by
  have never := visit_ne_nil proper keys s
  rw [visit_append]
  rcases visited : visit cb keys s with ⟨ret, s'⟩
  rw [visited] at never
  cases ret with
  | none => simp [done]
  | some ret =>
      have differs : ret ≠ t.rbtNil := fun same => never (by rw [same])
      simp [done, differs]

omit proper in
/-- A call for a node before the visit of those behind it. -/
theorem call_eq (s : σ)
    (behind : ∀ s, iterRecurse cb t side fuel n s = .ok (done t (visit cb last s))) :
    (match cb s x with
      | (some ret, s) => (.ok (ret, s) : Except Fault (NodeAddr × σ))
      | (none, s) => iterRecurse cb t side fuel n s) = .ok (done t (visit cb (x :: last) s)) := by
  rw [visit]
  split
  · rfl
  · exact behind _

/-- A visit of the nodes before one, a call for it, and the visit of those behind. -/
theorem visit_call_eq (s : σ)
    (behind : ∀ s, iterRecurse cb t side fuel n s = .ok (done t (visit cb last s))) :
    (do
      let (ret, s) ← (.ok (done t (visit cb first s)) : Except Fault (NodeAddr × σ))
      if ret ≠ t.rbtNil then .ok (ret, s)
      else
        match cb s x with
        | (some ret, s) => .ok (ret, s)
        | (none, s) => iterRecurse cb t side fuel n s) =
      .ok (done t (visit cb (first ++ x :: last) s)) := by
  rw [done_append proper]
  simp only [bind, Except.bind]
  split
  · rfl
  · exact call_eq _ behind

/-- `iter_recurse` visits the nodes of a subtree. -/
theorem iterRecurse_eq (side : Side) (shown : Shows t tree n) (deep : tree.depth < fuel) (s : σ) :
    iterRecurse cb t side fuel n s = .ok (done t (visit cb (side.list tree.toList) s)) := by
  induction fuel generalizing tree n s with
  | zero => exact absurd deep (Nat.not_lt_zero _)
  | succ fuel ih =>
      cases tree with
      | nil =>
          have atNil : n = t.rbtNil := shown
          simp [iterRecurse, atNil, visit, done]
      | node red left key right =>
          have here := shown.2.1
          obtain rfl : n = key := shown.1
          have behind (s : σ) := ih (shown.child side.other) (depth_child deep side.other) s
          rw [iterRecurse, if_neg here, ih (shown.child side) (depth_child deep side), list_node]
          exact visit_call_eq proper s behind

variable [Std.TransCmp cmp]

/-- `iter_start` visits the nodes of a subtree from one of them on. -/
theorem iterStart_eq (shown : Shows t tree n) (sorted : SortedFrom side cmp (side.list tree.toList))
    (mem : x ∈ tree.toList) (deep : tree.depth < fuel) (s : σ) :
    ∃ first last, side.list tree.toList = first ++ x :: last ∧
      iterStart cb cmp t side x fuel n s = .ok (done t (visit cb (x :: last) s)) := by
  induction fuel generalizing tree n with
  | zero => exact absurd deep (Nat.not_lt_zero _)
  | succ fuel ih =>
      cases tree with
      | nil => cases mem
      | node red left key right =>
          obtain rfl : n = key := shown.1
          have mem' := (mem_list side).mpr mem
          rw [list_node] at sorted mem' ⊢
          obtain ⟨sortedFirst, sortedLast, before, behind⟩ := sorted.around
          have rest (s : σ) := iterRecurse_eq proper side (shown.child side.other)
            (depth_child deep side.other) s
          rw [iterStart]
          rw [List.mem_append, List.mem_cons] at mem'
          rcases mem' with inFirst | rfl | inLast
          · have here := before x inFirst
            obtain ⟨first, last, split, result⟩ := ih (shown.child side) sortedFirst
              ((mem_list _).mp inFirst) (depth_child deep side)
            refine ⟨first, last ++ n :: side.list (side.other.child left right).toList,
              by rw [split]; simp, ?_⟩
            rw [if_pos here, result, ← List.cons_append]
            exact visit_call_eq proper s rest
          · have same : cmp x x = .eq := Std.ReflCmp.compare_self
            refine ⟨_, _, rfl, ?_⟩
            rw [if_neg (by rw [same]; exact (toward_ne_eq side).symm),
              if_neg (by rw [same]; exact (toward_ne_eq side.other).symm)]
            exact call_eq s rest
          · have here := toward_swap.mpr (behind x inLast)
            obtain ⟨first, last, split, result⟩ := ih (shown.child side.other) sortedLast
              ((mem_list _).mp inLast) (depth_child deep side.other)
            refine ⟨side.list (side.child left right).toList ++ n :: first, last,
              by rw [split]; simp, ?_⟩
            rw [if_neg (by rw [here]; exact toward_other side), if_pos here, result]

/-- `iter` and `reverse_iter` visit the nodes from their side, from the first or from the given one
on. -/
theorem Represents.iterates (holds : Represents cmp t keys)
    (enough : 2 * Nat.log 2 (keys.length + 1) < fuel) (side : Side) (s : σ) :
    iterate cb cmp side fuel t none s = .ok (visit cb (side.list keys) s) ∧
      ∀ first start last, side.list keys = first ++ start :: last →
        iterate cb cmp side fuel t (some start) s = .ok (visit cb (start :: last) s) := by
  obtain ⟨tree, shown, rfl, shallow⟩ := holds.exists_tree
  have deep := Nat.lt_of_le_of_lt shallow enough
  have sorted := sortedFrom holds.sorted side
  have returned : ∀ keys, (t.orNull (done t (visit cb keys s)).1, (done t (visit cb keys s)).2) =
      visit cb keys s := by
    intro keys
    have never := visit_ne_nil proper keys s
    generalize visit cb keys s = visited at never ⊢
    obtain ⟨ret, s'⟩ := visited
    cases ret with
    | none => simp [done, orNull]
    | some ret =>
        have differs : ret ≠ t.rbtNil := fun same => never (by rw [same])
        simp [done, orNull, differs]
  constructor
  case left =>
    rw [iterate, iterRecurse_eq proper side shown deep]
    exact congrArg Except.ok (returned _)
  case right =>
    intro first start last split
    have mem : start ∈ tree.toList := by
      rw [← mem_list side, split]
      simp
    obtain ⟨first', last', split', result⟩ := iterStart_eq proper shown sorted mem deep s
    have once := sorted.nodup
    rw [split, List.nodup_middle, List.nodup_cons, List.mem_append, not_or] at once
    rw [split] at split'
    obtain ⟨_, _, same⟩ := (List.append_cons_inj_of_notMem once.1.1 once.1.2).mp split'
    rw [← same] at result
    rw [iterate]
    simp only [result]
    exact congrArg Except.ok (returned _)

end Visit

end RbTree

end Lsmalloc
