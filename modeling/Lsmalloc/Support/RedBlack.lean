import Mathlib.Algebra.Group.Nat.Defs
import Mathlib.Data.List.Nodup
import Mathlib.Data.Nat.Log

/-!
# Left-leaning red-black trees

Trees whose red nodes are left children of black nodes, with as many black nodes on every way
down. Insertion and removal work on a tree that is taken apart along a path: they change the
subtree at the end of the path and walk back up until the balance is restored.
-/

namespace RedBlack

universe u

/-- A binary tree with coloured nodes. -/
inductive ColorTree (α : Type u)
  | nil
  | node (red : Bool) (left : ColorTree α) (key : α) (right : ColorTree α)
deriving DecidableEq, Repr

variable {α : Type u}

namespace ColorTree

/-- A missing node is black. -/
def isRed : ColorTree α → Bool
  | nil => false
  | node red _ _ _ => red

/-- The tree with a black root. -/
def blacken : ColorTree α → ColorTree α
  | nil => nil
  | node _ left key right => node false left key right

/-- The keys from left to right. -/
@[simp] def toList : ColorTree α → List α
  | nil => []
  | node _ left key right => left.toList ++ key :: right.toList

/-- The nodes on the longest way down. -/
def depth : ColorTree α → Nat
  | nil => 0
  | node _ left _ right => max left.depth right.depth + 1

@[simp] theorem isRed_nil : (nil : ColorTree α).isRed = false := rfl

@[simp] theorem isRed_node (red : Bool) (left : ColorTree α) (key : α) (right : ColorTree α) :
    (node red left key right).isRed = red := rfl

@[simp] theorem toList_blacken (t : ColorTree α) : t.blacken.toList = t.toList := by
  cases t <;> rfl

/-- `height` black nodes on every way down, each red node a left child of a black one, and a
root of the colour. -/
inductive Balanced : (height : Nat) → (red : Bool) → ColorTree α → Prop
  | nil : Balanced 0 false nil
  | red {height : Nat} {left right : ColorTree α} {key : α} (onLeft : Balanced height false left)
      (onRight : Balanced height false right) : Balanced height true (node true left key right)
  | black {height : Nat} {red : Bool} {left right : ColorTree α} {key : α}
      (onLeft : Balanced height red left) (onRight : Balanced height false right) :
      Balanced (height + 1) false (node false left key right)

variable {t left right : ColorTree α} {height : Nat} {red red' : Bool} {key : α}

theorem Balanced.isRed_eq (balanced : Balanced height red t) : t.isRed = red := by
  cases balanced <;> rfl

/-- A red tree has black subtrees. -/
theorem Balanced.of_red (balanced : Balanced height true t) :
    ∃ left key right, t = node true left key right ∧ Balanced height false left ∧
      Balanced height false right := by
  cases balanced with
  | red onLeft onRight => exact ⟨_, _, _, rfl, onLeft, onRight⟩

/-- A black tree that is not empty leans left. -/
theorem Balanced.of_black (balanced : Balanced (height + 1) false t) :
    ∃ left key right red, t = node false left key right ∧ Balanced height red left ∧
      Balanced height false right := by
  cases balanced with
  | black onLeft onRight => exact ⟨_, _, _, _, rfl, onLeft, onRight⟩

theorem Balanced.of_zero (balanced : Balanced 0 false t) : t = ColorTree.nil := by
  cases balanced
  rfl

/-- A red root may be made black. -/
theorem Balanced.blacken (balanced : Balanced height red t) :
    ∃ height', Balanced height' false t.blacken := by
  cases balanced with
  | nil => exact ⟨0, .nil⟩
  | red onLeft onRight => exact ⟨_, .black onLeft onRight⟩
  | black onLeft onRight => exact ⟨_, .black onLeft onRight⟩

/-! ## Depth -/

/-- No way down is more than twice as long as it has black nodes. -/
theorem Balanced.depth_le (balanced : Balanced height red t) :
    t.depth ≤ 2 * height + red.toNat := by
  induction balanced with
  | nil => exact Nat.le_refl _
  | red onLeft onRight ihLeft ihRight =>
      simp only [depth, Bool.toNat_false, Bool.toNat_true] at *
      omega
  | @black height red _ _ _ onLeft onRight ihLeft ihRight =>
      have colour : red.toNat ≤ 1 := Bool.toNat_le red
      simp only [depth, Bool.toNat_false] at *
      omega

/-- The black nodes alone make a full tree. -/
theorem Balanced.two_pow_le (balanced : Balanced height red t) :
    2 ^ height ≤ t.toList.length + 1 := by
  induction balanced with
  | nil => exact Nat.le_refl _
  | red onLeft onRight ihLeft ihRight =>
      simp only [toList, List.length_append, List.length_cons]
      omega
  | black onLeft onRight ihLeft ihRight =>
      simp only [toList, List.length_append, List.length_cons, Nat.pow_succ]
      omega

/-- A balanced tree is at most twice as deep as a full one. -/
theorem Balanced.depth_le_log (balanced : Balanced height false t) :
    t.depth ≤ 2 * Nat.log 2 (t.toList.length + 1) := by
  have bounded : height ≤ Nat.log 2 (t.toList.length + 1) :=
    Nat.le_log_of_pow_le (by decide) balanced.two_pow_le
  have deep := balanced.depth_le
  simp only [Bool.toNat_false] at deep
  omega

end ColorTree

open ColorTree

/-! ## Paths -/

/-- A node of a path without the child the path goes to. -/
structure Frame (α : Type u) where
  red : Bool
  key : α
  /-- The path goes to the left child. -/
  lt : Bool
  /-- The child the path does not go to. -/
  other : ColorTree α
deriving DecidableEq, Repr

/-- The node with a child where the path goes. -/
def Frame.fill (f : Frame α) (t : ColorTree α) : ColorTree α :=
  if f.lt = true then node f.red t f.key f.other else node f.red f.other f.key t

/-- The whole tree, from its subtree at the end of a path; the lowest node of the path first. -/
def plug : List (Frame α) → ColorTree α → ColorTree α
  | [], t => t
  | f :: fs, t => plug fs (f.fill t)

/-- The keys before the end of a path. -/
def before : List (Frame α) → List α
  | [] => []
  | f :: fs => before fs ++ if f.lt = true then [] else f.other.toList ++ [f.key]

/-- The keys behind the end of a path. -/
def behind : List (Frame α) → List α
  | [] => []
  | f :: fs => (if f.lt = true then f.key :: f.other.toList else []) ++ behind fs

variable {t : ColorTree α} {f : Frame α} {fs : List (Frame α)} {height : Nat} {red : Bool}

theorem toList_fill (f : Frame α) (t : ColorTree α) :
    (f.fill t).toList = (if f.lt = true then [] else f.other.toList ++ [f.key]) ++ t.toList ++
      if f.lt = true then f.key :: f.other.toList else [] := by
  unfold Frame.fill
  split <;> simp

/-- The keys of the whole tree. -/
theorem toList_plug (fs : List (Frame α)) (t : ColorTree α) :
    (plug fs t).toList = before fs ++ t.toList ++ behind fs := by
  induction fs generalizing t with
  | nil => simp [plug, before, behind]
  | cons f fs ih => simp [plug, before, behind, ih, toList_fill]

/-- The keys of the path and of what hangs beside it. -/
def around : List (Frame α) → List α
  | [] => []
  | f :: fs => f.key :: (f.other.toList ++ around fs)

theorem perm_fill (f : Frame α) (t : ColorTree α) :
    (f.fill t).toList.Perm (f.key :: (t.toList ++ f.other.toList)) := by
  unfold Frame.fill
  split
  · exact List.perm_middle
  · exact List.perm_middle.trans (.cons _ List.perm_append_comm)

theorem perm_plug (fs : List (Frame α)) (t : ColorTree α) :
    (plug fs t).toList.Perm (t.toList ++ around fs) := by
  induction fs generalizing t with
  | nil => simp [plug, around]
  | cons f fs ih =>
      refine ((ih (f.fill t)).trans ((perm_fill f t).append_right _)).trans ?_
      simpa [around] using List.perm_middle.symm

/-- The path is part of a balanced tree with a black root, and a tree of the height and the
colour fits at its end. -/
inductive Hole : (height : Nat) → (red : Bool) → List (Frame α) → Prop
  | root {height : Nat} : Hole height false []
  | red {height : Nat} {fs : List (Frame α)} {key : α} {lt : Bool} {other : ColorTree α}
      (balanced : Balanced height false other) (above : Hole height true fs) :
      Hole height false (⟨true, key, lt, other⟩ :: fs)
  | left {height : Nat} {red : Bool} {fs : List (Frame α)} {key : α} {other : ColorTree α}
      (balanced : Balanced height false other) (above : Hole (height + 1) false fs) :
      Hole height red (⟨false, key, true, other⟩ :: fs)
  | right {height : Nat} {red : Bool} {fs : List (Frame α)} {key : α} {other : ColorTree α}
      (balanced : Balanced height red other) (above : Hole (height + 1) false fs) :
      Hole height false (⟨false, key, false, other⟩ :: fs)

/-- Where a red tree fits, a black one does. -/
theorem Hole.black (hole : Hole height red fs) : Hole height false fs := by
  cases hole with
  | root => exact .root
  | red balanced above => exact .red balanced above
  | left balanced above => exact .left balanced above
  | right balanced above => exact .right balanced above

/-- What fits balances. -/
theorem Hole.plug (hole : Hole height red fs) (balanced : Balanced height red t) :
    ∃ height', Balanced height' false (plug fs t) := by
  induction fs generalizing t height red with
  | nil =>
      cases hole
      exact ⟨_, balanced⟩
  | cons f fs ih =>
      cases hole with
      | red other above =>
          rename_i key lt other'
          cases lt with
          | true => exact ih above (.red balanced other)
          | false => exact ih above (.red other balanced)
      | left other above => exact ih above (.black balanced other)
      | right other above => exact ih above (.black other balanced)

/-- A balanced tree that is taken apart one node further. -/
theorem Hole.descend {left right : ColorTree α} {key : α} (hole : Hole height red fs)
    (balanced : Balanced height red (node red left key right)) :
    (∃ height' red', Hole height' red' (⟨red, key, true, right⟩ :: fs) ∧
        Balanced height' red' left) ∧
      ∃ height', Hole height' false (⟨red, key, false, left⟩ :: fs) ∧
        Balanced height' false right := by
  cases balanced with
  | red onLeft onRight =>
      exact ⟨⟨_, _, .red onRight hole, onLeft⟩, ⟨_, .red onLeft hole, onRight⟩⟩
  | black onLeft onRight =>
      exact ⟨⟨_, _, .left onRight hole, onLeft⟩, ⟨_, .right onLeft hole, onRight⟩⟩

end RedBlack
