import Lsmalloc.Support.RedBlack.Insert

/-!
# Removal from a left-leaning red-black tree

A node with a right subtree trades places with its successor, so what is cut off is a leaf or a
node with a single red child. Where a black leaf was cut off, every way through its place has
one black node too few, and the walk back up ends where a node can make up for it.
-/

namespace RedBlack

universe u

open ColorTree

variable {α : Type u}

/-- One step back up from a subtree that is one black node short. Where the node has no other
subtree there is none. -/
def removeStep (f : Frame α) (t : ColorTree α) : Option (Repair α) :=
  match f.lt, f.other with
  | true, node red (node true a x b) k c =>
      some (.settled (node f.red (node false t f.key a) x (node red b k c)))
  | true, node red l k c =>
      let turned := node red (node true t f.key l) k c
      some (if f.red then .settled turned else .pending turned)
  | true, nil => none
  | false, node true l k (node red (node true a x b) y c) =>
      some (.settled (node red (node true l k (node false a x b)) y (node f.red c f.key t)))
  | false, node true l k (node _ a y c) =>
      some (.settled (node false l k (node f.red (node true a y c) f.key t)))
  | false, node true _ _ nil => none
  | false, node false (node true a x b) k c =>
      some (.settled (node f.red (node false a x b) k (node false c f.key t)))
  | false, node false l k c =>
      let turned := node false (node true l k c) f.key t
      some (if f.red then .settled turned else .pending turned)
  | false, nil => none

/-- The walk back up from a subtree that is one black node short. -/
def removeUnwind : List (Frame α) → ColorTree α → Option (ColorTree α)
  | [], t => some t
  | f :: fs, t =>
      match removeStep f t with
      | some (.settled t') => some (plug fs t')
      | some (.pending t') => removeUnwind fs t'
      | none => none

/-- Cuts off the leaf at the end of a path. A red one can only be a left child. -/
def prune (red : Bool) (fs : List (Frame α)) : Option (ColorTree α) :=
  match red, fs with
  | false, fs => removeUnwind fs nil
  | true, [] => none
  | true, f :: fs => if f.lt = true then some (plug (f :: fs) nil) else none

/-- The way down the left side to the missing child of the first node. -/
def spine : ColorTree α → List (Frame α) → List (Frame α)
  | .nil, fs => fs
  | .node red left key right, fs => spine left (⟨red, key, true, right⟩ :: fs)

/-- Removes a node that has a left subtree at most. -/
def splice (fs : List (Frame α)) (red : Bool) : ColorTree α → Option (ColorTree α)
  | .node _ l k r => some (plug fs (node false l k r))
  | .nil => if fs.isEmpty then some .nil else prune red fs

/-- Removes the node between two subtrees at the end of a path. -/
def removeAt (fs : List (Frame α)) (red : Bool) (left right : ColorTree α) : Option (ColorTree α) :=
  match spine right [] with
  | [] => splice fs red left
  | next :: way => prune next.red (way ++ ⟨red, next.key, false, left⟩ :: fs)

variable {t left right : ColorTree α} {f : Frame α} {fs : List (Frame α)} {height : Nat}
  {red : Bool}

/-! ## The keys -/

theorem before_append (fs gs : List (Frame α)) : before (fs ++ gs) = before gs ++ before fs := by
  induction fs with
  | nil => simp [before]
  | cons f fs ih => simp [before, ih]

theorem behind_append (fs gs : List (Frame α)) : behind (fs ++ gs) = behind fs ++ behind gs := by
  induction fs with
  | nil => simp [behind]
  | cons f fs ih => simp [behind, ih]

theorem around_append (fs gs : List (Frame α)) : around (fs ++ gs) = around fs ++ around gs := by
  induction fs with
  | nil => rfl
  | cons f fs ih => simp [around, ih]

/-- No step changes the keys or their order. -/
theorem toList_removeStep {repair : Repair α} (step : removeStep f t = some repair) :
    repair.tree.toList = (f.fill t).toList := by
  unfold removeStep at step
  unfold Frame.fill
  split at step
  all_goals cases step
  all_goals simp [*]
  all_goals cases f.red <;> simp

theorem toList_removeUnwind {t' : ColorTree α} (done : removeUnwind fs t = some t') :
    t'.toList = before fs ++ t.toList ++ behind fs := by
  induction fs generalizing t with
  | nil =>
      cases done
      simp [before, behind]
  | cons f fs ih =>
      rw [← toList_plug, plug, toList_plug]
      unfold removeUnwind at done
      split at done
      next u step =>
        cases done
        rw [toList_plug, ← toList_removeStep step, Repair.tree]
      next u step => rw [ih done, ← toList_removeStep step, Repair.tree]
      next step => cases done

theorem toList_prune {t' : ColorTree α} (done : prune red fs = some t') :
    t'.toList = before fs ++ behind fs := by
  unfold prune at done
  split at done
  · simpa using toList_removeUnwind done
  · cases done
  · split at done
    · cases done
      simp [toList_plug]
    · cases done

theorem spine_append (t : ColorTree α) (fs gs : List (Frame α)) :
    spine t (fs ++ gs) = spine t fs ++ gs := by
  induction t generalizing fs with
  | nil => rfl
  | node red left key right ihLeft _ => exact ihLeft (⟨red, key, true, right⟩ :: fs)

/-- The way down the left side is the whole tree. -/
theorem plug_spine (t : ColorTree α) (fs : List (Frame α)) : plug (spine t fs) nil = plug fs t := by
  induction t generalizing fs with
  | nil => rfl
  | node red left key right ihLeft _ => exact ihLeft (⟨red, key, true, right⟩ :: fs)

/-- No key is before the first one. -/
theorem before_spine (t : ColorTree α) (fs : List (Frame α)) : before (spine t fs) = before fs := by
  induction t generalizing fs with
  | nil => rfl
  | node red left key right ihLeft _ =>
      rw [spine, ihLeft]
      simp [before]

theorem spine_eq_nil (none : spine t fs = []) : t = nil ∧ fs = [] := by
  induction t generalizing fs with
  | nil => exact ⟨rfl, none⟩
  | node red left key right ihLeft _ => cases (ihLeft none).2

/-- The way down the left side goes to the left. -/
theorem spine_lt (t : ColorTree α) : ∀ f ∈ spine t [], f.lt = true := by
  have general : ∀ (t : ColorTree α) fs, (∀ f ∈ fs, f.lt = true) →
      ∀ f ∈ spine t fs, f.lt = true := by
    intro t
    induction t with
    | nil => exact fun fs so => so
    | node red left key right ihLeft _ =>
        intro fs so
        refine ihLeft _ ?_
        rintro f (_ | ⟨_, mem⟩)
        · rfl
        · exact so f mem
  exact general t [] (by simp)

theorem before_of_spine {next : Frame α} {way : List (Frame α)}
    (found : spine t [] = next :: way) : before way = [] := by
  have none := before_spine t ([] : List (Frame α))
  rw [found, before, before] at none
  exact (List.append_eq_nil_iff.mp none).1

/-- The keys of a tree whose first node has no right subtree. -/
theorem toList_of_spine {next : Frame α} {way : List (Frame α)}
    (found : spine t [] = next :: way) (alone : next.other = nil) :
    t.toList = next.key :: behind way := by
  have whole := toList_plug (spine t []) nil
  have toLeft := spine_lt t next (by simp [found])
  rw [plug_spine, plug, found] at whole
  simpa [before, behind, toLeft, alone, before_of_spine found] using whole

/-! ## The balance -/

/-- A balanced node without a left subtree has no right one. -/
theorem ColorTree.Balanced.leaf {key : α}
    (balanced : Balanced height red (node red .nil key right)) :
    right = .nil ∧ height = (!red).toNat := by
  cases balanced with
  | red onLeft onRight =>
      cases onLeft
      exact ⟨onRight.of_zero, rfl⟩
  | black onLeft onRight =>
      cases onLeft
      exact ⟨onRight.of_zero, rfl⟩

/-- A balanced node without a right subtree has at most a red leaf to its left, and only below a
black node. -/
theorem ColorTree.Balanced.left_leaf {key : α}
    (balanced : Balanced height red (node red left key .nil)) :
    (left = .nil ∧ height = (!red).toNat) ∨
      red = false ∧ height = 1 ∧ ∃ k, left = node true .nil k .nil := by
  cases balanced with
  | red onLeft onRight =>
      cases onRight
      exact .inl ⟨onLeft.of_zero, rfl⟩
  | @black _ colour _ _ _ onLeft onRight =>
      cases onRight
      cases colour with
      | false => exact .inl ⟨onLeft.of_zero, rfl⟩
      | true =>
          obtain ⟨l, k, r, rfl, first, second⟩ := onLeft.of_red
          rw [first.of_zero, second.of_zero]
          exact .inr ⟨rfl, rfl, k, rfl⟩

/-- What a step leaves of a subtree that was one black node short: a whole tree, or one that is
short again. -/
def Mended (fs : List (Frame α)) : Repair α → Prop
  | .settled t => ∃ height red, Balanced height red t ∧ Hole height red fs
  | .pending t => ∃ height, Balanced height false t ∧ Hole (height + 1) false fs

/-- Below a red node the walk back up ends. -/
theorem removeStep_red {key : α} {lt : Bool} {other : ColorTree α} (short : Balanced height false t)
    (beside : Balanced (height + 1) false other) (above : Hole (height + 1) true fs) :
    ∃ t', removeStep ⟨true, key, lt, other⟩ t = some (.settled t') ∧ Mended fs (.settled t') := by
  obtain ⟨l, k, r, colour, rfl, onLeft, onRight⟩ := beside.of_black
  cases lt with
  | true =>
      cases colour with
      | true =>
          obtain ⟨a, x, b, rfl, first, second⟩ := onLeft.of_red
          exact ⟨_, rfl, _, _, .red (.black short first) (.black second onRight), above⟩
      | false =>
          have black := onLeft.isRed_eq
          refine ⟨node false (node true t key l) k r, ?_, _, _,
            .black (.red short onLeft) onRight, above.black⟩
          unfold removeStep
          split <;> simp_all
  | false =>
      cases colour with
      | true =>
          obtain ⟨a, x, b, rfl, first, second⟩ := onLeft.of_red
          exact ⟨_, rfl, _, _, .red (.black first second) (.black onRight short), above⟩
      | false =>
          have black := onLeft.isRed_eq
          refine ⟨node false (node true l k r) key t, ?_, _, _,
            .black (.red onLeft onRight) short, above.black⟩
          unfold removeStep
          split <;> simp_all

/-- Left of a black node the right subtree lends a node, or the whole tree is short. -/
theorem removeStep_left {key : α} {other : ColorTree α} (short : Balanced height false t)
    (beside : Balanced (height + 1) false other) (above : Hole (height + 2) false fs) :
    ∃ repair, removeStep ⟨false, key, true, other⟩ t = some repair ∧ Mended fs repair := by
  obtain ⟨l, k, r, colour, rfl, onLeft, onRight⟩ := beside.of_black
  cases colour with
  | true =>
      obtain ⟨a, x, b, rfl, first, second⟩ := onLeft.of_red
      exact ⟨_, rfl, _, _, .black (.black short first) (.black second onRight), above⟩
  | false =>
      have black := onLeft.isRed_eq
      refine ⟨.pending (node false (node true t key l) k r), ?_, _,
        .black (.red short onLeft) onRight, above⟩
      unfold removeStep
      split <;> simp_all

/-- Right of a black node a red left subtree makes up for the node that is missing. -/
theorem removeStep_right_red {key : α} {other : ColorTree α} (short : Balanced height false t)
    (beside : Balanced (height + 1) true other) (above : Hole (height + 2) false fs) :
    ∃ repair, removeStep ⟨false, key, false, other⟩ t = some repair ∧ Mended fs repair := by
  obtain ⟨l, k, r, rfl, onLeft, onRight⟩ := beside.of_red
  obtain ⟨a, y, c, colour, rfl, first, second⟩ := onRight.of_black
  cases colour with
  | true =>
      obtain ⟨p, x, q, rfl, least, next⟩ := first.of_red
      exact ⟨_, rfl, _, _, .black (.red onLeft (.black least next)) (.black second short), above⟩
  | false =>
      have black := first.isRed_eq
      refine ⟨.settled (node false l k (node false (node true a y c) key t)), ?_, _, _,
        .black onLeft (.black (.red first second) short), above⟩
      unfold removeStep
      split <;> simp_all

/-- Right of a black node a black left subtree lends a red node, or the whole tree is short. -/
theorem removeStep_right_black {key : α} {other : ColorTree α} (short : Balanced height false t)
    (beside : Balanced (height + 1) false other) (above : Hole (height + 2) false fs) :
    ∃ repair, removeStep ⟨false, key, false, other⟩ t = some repair ∧ Mended fs repair := by
  obtain ⟨l, k, r, colour, rfl, onLeft, onRight⟩ := beside.of_black
  cases colour with
  | true =>
      obtain ⟨a, x, b, rfl, first, second⟩ := onLeft.of_red
      exact ⟨_, rfl, _, _, .black (.black first second) (.black onRight short), above⟩
  | false =>
      have black := onLeft.isRed_eq
      refine ⟨.pending (node false (node true l k r) key t), ?_, _,
        .black (.red onLeft onRight) short, above⟩
      unfold removeStep
      split <;> simp_all

/-- A step back up from a subtree that is one black node short. -/
theorem removeStep_mended (short : Balanced height false t)
    (hole : Hole (height + 1) false (f :: fs)) :
    ∃ repair, removeStep f t = some repair ∧ Mended fs repair := by
  cases hole with
  | red beside above =>
      obtain ⟨t', step, mended⟩ := removeStep_red short beside above
      exact ⟨_, step, mended⟩
  | left beside above => exact removeStep_left short beside above
  | @right _ colour _ _ _ beside above =>
      cases colour with
      | true => exact removeStep_right_red short beside above
      | false => exact removeStep_right_black short beside above

/-- The walk back up makes the whole tree balanced. -/
theorem removeUnwind_balanced (short : Balanced height false t)
    (hole : Hole (height + 1) false fs) :
    ∃ t' height', removeUnwind fs t = some t' ∧ Balanced height' false t' := by
  induction fs generalizing t height with
  | nil => exact ⟨t, height, rfl, short⟩
  | cons f fs ih =>
      obtain ⟨repair, step, mended⟩ := removeStep_mended short hole
      cases repair with
      | settled t' =>
          obtain ⟨height', colour, balanced, above⟩ := mended
          obtain ⟨whole, restored⟩ := above.plug balanced
          exact ⟨_, whole, by rw [removeUnwind, step], restored⟩
      | pending t' =>
          obtain ⟨height', short', above⟩ := mended
          obtain ⟨t'', whole, done, restored⟩ := ih short' above
          exact ⟨t'', whole, by rw [removeUnwind, step]; exact done, restored⟩

/-- A leaf can be cut off. -/
theorem prune_balanced {key : α} (leaf : Balanced height red (node red nil key nil))
    (hole : Hole height red fs) :
    ∃ t' height', prune red fs = some t' ∧ Balanced height' false t' := by
  obtain ⟨_, rfl⟩ := leaf.leaf
  cases red with
  | false => exact removeUnwind_balanced .nil hole
  | true =>
      cases hole with
      | left beside above =>
          obtain ⟨whole, balanced⟩ := above.plug (.black .nil beside)
          exact ⟨_, whole, rfl, balanced⟩

/-- The balance does not see the keys. -/
theorem Hole.rekey {key key' : α} {lt colour : Bool} {other : ColorTree α}
    (hole : Hole height red (⟨colour, key, lt, other⟩ :: fs)) :
    Hole height red (⟨colour, key', lt, other⟩ :: fs) := by
  cases hole with
  | red beside above => exact .red beside above
  | left beside above => exact .left beside above
  | right beside above => exact .right beside above

/-- The first node of a balanced subtree is a leaf. -/
theorem Hole.spine {next : Frame α} {way : List (Frame α)} (hole : Hole height red fs)
    (balanced : Balanced height red t) (found : spine t fs = next :: way) (some : t ≠ nil) :
    ∃ height', Hole height' next.red way ∧
      Balanced height' next.red (node next.red nil next.key nil) ∧ next.other = nil := by
  induction t generalizing fs height red with
  | nil => exact absurd rfl some
  | node colour left key right ihLeft _ =>
      have same : colour = red := balanced.isRed_eq
      subst same
      cases left with
      | nil =>
          cases found
          obtain ⟨rfl, _⟩ := balanced.leaf
          exact ⟨height, hole, balanced, rfl⟩
      | node _ _ _ _ =>
          obtain ⟨⟨_, _, deeper, onLeft⟩, _⟩ := hole.descend balanced
          exact ihLeft deeper onLeft found (by simp)

/-- A node without a right subtree can be removed. -/
theorem splice_balanced {key : α} (hole : Hole height red fs)
    (balanced : Balanced height red (node red left key nil)) :
    ∃ t' height', splice fs red left = some t' ∧ Balanced height' false t' ∧
      t'.toList = before fs ++ left.toList ++ behind fs := by
  rcases balanced.left_leaf with ⟨rfl, _⟩ | ⟨rfl, rfl, k, rfl⟩
  · cases fs with
    | nil => exact ⟨nil, 0, rfl, .nil, rfl⟩
    | cons f fs =>
        obtain ⟨t', height', done, restored⟩ := prune_balanced balanced hole
        exact ⟨t', height', done, restored, by simp [toList_prune done]⟩
  · have kept : Balanced 1 false (node false nil k nil) := .black .nil .nil
    obtain ⟨height', restored⟩ := hole.plug kept
    exact ⟨_, height', rfl, restored, by simp [toList_plug]⟩

/-- A node of a balanced tree can be removed. -/
theorem removeAt_balanced {key : α} (hole : Hole height red fs)
    (balanced : Balanced height red (node red left key right)) :
    ∃ t' height', removeAt fs red left right = some t' ∧ Balanced height' false t' ∧
      t'.toList = before fs ++ left.toList ++ right.toList ++ behind fs := by
  unfold removeAt
  cases found : spine right [] with
  | nil =>
      obtain ⟨rfl, _⟩ := spine_eq_nil found
      obtain ⟨t', height', done, restored, keys⟩ := splice_balanced hole balanced
      exact ⟨t', height', done, restored, by simpa using keys⟩
  | cons next way =>
      have proper : right ≠ nil := by
        rintro rfl
        cases found
      obtain ⟨_, _, beyond, onRight⟩ := hole.descend balanced
      have whole := spine_append right [] (⟨red, next.key, false, left⟩ :: fs)
      rw [List.nil_append, found, List.cons_append] at whole
      obtain ⟨height', there, leaf, alone⟩ := beyond.rekey.spine onRight whole proper
      obtain ⟨t', height'', done, restored⟩ := prune_balanced leaf there
      refine ⟨t', height'', done, restored, ?_⟩
      rw [toList_prune done, toList_of_spine found alone, before_append, behind_append,
        before_of_spine found]
      simp [before, behind]

end RedBlack
