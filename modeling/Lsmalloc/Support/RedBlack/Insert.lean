import Lsmalloc.Support.RedBlack

/-!
# Insertion into a left-leaning red-black tree

The new key goes to the end of its way as a red leaf. On the way back up a red child that
leans right is turned to the left, and two red nodes in a row are split; the first black
child ends the walk.
-/

namespace RedBlack

universe u

open ColorTree

variable {α : Type u}

/-- What one step back up leaves at the place of a node of the path. -/
inductive Repair (α : Type u)
  /-- The tree is whole again, with this subtree. -/
  | settled (t : ColorTree α)
  /-- The node above has to be looked at. -/
  | pending (t : ColorTree α)
deriving DecidableEq, Repr

/-- The subtree a step leaves. -/
@[simp] def Repair.tree : Repair α → ColorTree α
  | settled t => t
  | pending t => t

/-- One step back up after an insertion below. -/
def insertStep (f : Frame α) (t : ColorTree α) : Repair α :=
  match f.lt, t, f.other with
  | true, node true (node true a x b) k c, d =>
      .pending (node true (node false a x b) k (node f.red c f.key d))
  | true, node true l k r, d => .pending (node f.red (node true l k r) f.key d)
  | true, t, d => .settled (node f.red t f.key d)
  | false, node true c y d, node true a x b =>
      .pending (node true (node false a x b) f.key (node false c y d))
  | false, node true c y d, l => .pending (node f.red (node true l f.key c) y d)
  | false, t, l => .settled (node f.red l f.key t)

/-- The walk back up after an insertion; the root is made black. -/
def insertUnwind : List (Frame α) → ColorTree α → ColorTree α
  | [], t => t.blacken
  | f :: fs, t =>
      match insertStep f t with
      | .settled t' => plug fs t'
      | .pending t' => insertUnwind fs t'

variable {t : ColorTree α} {f : Frame α} {fs : List (Frame α)} {height : Nat}

/-- No step changes the keys or their order. -/
theorem toList_insertStep (f : Frame α) (t : ColorTree α) :
    (insertStep f t).tree.toList = (f.fill t).toList := by
  unfold insertStep Frame.fill
  split <;> simp [*]

theorem toList_insertUnwind (fs : List (Frame α)) (t : ColorTree α) :
    (insertUnwind fs t).toList = before fs ++ t.toList ++ behind fs := by
  induction fs generalizing t with
  | nil => simp [insertUnwind, before, behind]
  | cons f fs ih =>
      have kept := toList_insertStep f t
      rw [← toList_plug, plug, toList_plug, ← kept]
      unfold insertUnwind
      split
      next t' step => rw [toList_plug, step, Repair.tree]
      next t' step => rw [ih, step, Repair.tree]

/-- What the walk back up finds at the end of the path that is left: a balanced subtree,
perhaps red where a black one was, or two red nodes in a row. -/
inductive Grown (fs : List (Frame α)) : ColorTree α → Prop
  | black {height : Nat} {t : ColorTree α} (balanced : Balanced height false t)
      (hole : Hole height false fs) : Grown fs t
  | red {height : Nat} {t : ColorTree α} (balanced : Balanced height true t)
      (hole : Hole height false fs) : Grown fs t
  | redRed {height : Nat} {left right : ColorTree α} {key : α} (onLeft : Balanced height true left)
      (onRight : Balanced height false right) (hole : Hole height true fs) :
      Grown fs (node true left key right)

/-- A black subtree settles. -/
theorem insertStep_black (black : t.isRed = false) : insertStep f t = .settled (f.fill t) := by
  unfold insertStep Frame.fill
  split <;> simp_all

/-- A red subtree under a red node leaves two red nodes in a row. -/
theorem Grown.red_red {key : α} {lt : Bool} {other : ColorTree α}
    (balanced : Balanced height true t)
    (beside : Balanced height false other) (above : Hole height true fs) :
    ∃ t', insertStep ⟨true, key, lt, other⟩ t = .pending t' ∧ Grown fs t' := by
  obtain ⟨l, k, r, rfl, onLeft, onRight⟩ := balanced.of_red
  have blackLeft := onLeft.isRed_eq
  have blackBeside := beside.isRed_eq
  cases lt with
  | true =>
      refine ⟨node true (node true l k r) key other, ?_, .redRed (.red onLeft onRight) beside above⟩
      unfold insertStep
      split <;> simp_all
  | false =>
      refine ⟨node true (node true other key l) k r, ?_, .redRed (.red beside onLeft) onRight above⟩
      unfold insertStep
      split <;> simp_all

/-- A red left subtree under a black node is in its place. -/
theorem Grown.red_left {key : α} {other : ColorTree α} (balanced : Balanced height true t)
    (beside : Balanced height false other) (above : Hole (height + 1) false fs) :
    ∃ t', insertStep ⟨false, key, true, other⟩ t = .pending t' ∧ Grown fs t' := by
  obtain ⟨l, k, r, rfl, onLeft, onRight⟩ := balanced.of_red
  have blackLeft := onLeft.isRed_eq
  refine ⟨node false (node true l k r) key other, ?_,
    .black (.black (.red onLeft onRight) beside) above⟩
  unfold insertStep
  split <;> simp_all

/-- A red right subtree under a black node is split from a red left one, or turned to the
left. -/
theorem Grown.red_right {key : α} {other : ColorTree α} {red : Bool}
    (balanced : Balanced height true t)
    (beside : Balanced height red other) (above : Hole (height + 1) false fs) :
    ∃ t', insertStep ⟨false, key, false, other⟩ t = .pending t' ∧ Grown fs t' := by
  obtain ⟨l, k, r, rfl, onLeft, onRight⟩ := balanced.of_red
  cases red with
  | true =>
      obtain ⟨a, x, b, rfl, first, second⟩ := beside.of_red
      exact ⟨_, rfl, .red (.red (.black first second) (.black onLeft onRight)) above⟩
  | false =>
      have blackBeside := beside.isRed_eq
      refine ⟨node false (node true other key l) k r, ?_,
        .black (.black (.red beside onLeft) onRight) above⟩
      unfold insertStep
      split <;> simp_all

/-- Two red nodes in a row under a black node become one red node with black children. -/
theorem Grown.redRed_left {key k : α} {l r other : ColorTree α} (onLeft : Balanced height true l)
    (onRight : Balanced height false r) (beside : Balanced height false other)
    (above : Hole (height + 1) false fs) :
    ∃ t', insertStep ⟨false, key, true, other⟩ (node true l k r) = .pending t' ∧ Grown fs t' := by
  obtain ⟨a, x, b, rfl, first, second⟩ := onLeft.of_red
  exact ⟨_, rfl, .red (.red (.black first second) (.black onRight beside)) above⟩

/-- The walk back up leaves a balanced tree with a black root. -/
theorem insertUnwind_balanced (grown : Grown fs t) :
    ∃ height, Balanced height false (insertUnwind fs t) := by
  induction fs generalizing t with
  | nil =>
      cases grown with
      | black balanced _ => exact balanced.blacken
      | red balanced _ => exact balanced.blacken
      | redRed onLeft onRight hole => cases hole
  | cons f fs ih =>
      have goes : (∃ t', insertStep f t = .pending t' ∧ Grown fs t') ∨
          t.isRed = false ∧ ∃ height', Balanced height' false (plug (f :: fs) t) := by
        cases grown with
        | black balanced hole => exact .inr ⟨balanced.isRed_eq, hole.plug balanced⟩
        | red balanced hole =>
            cases hole with
            | red beside above => exact .inl (Grown.red_red balanced beside above)
            | left beside above => exact .inl (Grown.red_left balanced beside above)
            | right beside above => exact .inl (Grown.red_right balanced beside above)
        | redRed onLeft onRight hole =>
            cases hole with
            | left beside above => exact .inl (Grown.redRed_left onLeft onRight beside above)
      rcases goes with ⟨t', step, grown'⟩ | ⟨black, balanced⟩
      · rw [insertUnwind, step]
        exact ih grown'
      · rw [insertUnwind, insertStep_black black]
        exact balanced

end RedBlack
