import Lsmalloc.Rb.Model

/-!
# What the accessors of `rb.h` read and write

The left link, the right link and the colour of a node are three things of their own, although the
last two share a word. The lemmas say what each accessor reads after each store.
-/

namespace Lsmalloc

/-! ## A pointer and a colour in one word -/

section Words

variable {a w : BitVec 64}

theorem even_of_aligned (aligned : a &&& 1#64 = 0#64) : a &&& -2#64 = a := by
  have halves : a &&& (1#64 ||| -2#64) = a := BitVec.and_allOnes
  rwa [BitVec.and_or_distrib_left, aligned, BitVec.zero_or] at halves

theorem even_pack (aligned : a &&& 1#64 = 0#64) : (a ||| (w &&& 1#64)) &&& -2#64 = a := by
  have odd : (w &&& 1#64) &&& -2#64 = 0#64 := by
    rw [BitVec.and_assoc]
    exact BitVec.and_zero
  rw [BitVec.and_or_distrib_right, even_of_aligned aligned, odd, BitVec.or_zero]

theorem odd_pack (aligned : a &&& 1#64 = 0#64) : (a ||| (w &&& 1#64)) &&& 1#64 = w &&& 1#64 := by
  rw [BitVec.and_or_distrib_right, aligned, BitVec.zero_or, BitVec.and_assoc, BitVec.and_self]

theorem even_color (w : BitVec 64) (red : Bool) :
    ((w &&& -2#64) ||| if red then 1#64 else 0#64) &&& -2#64 = w &&& -2#64 := by
  have none : (if red then 1#64 else 0#64) &&& -2#64 = 0#64 := by cases red <;> rfl
  rw [BitVec.and_or_distrib_right, none, BitVec.or_zero, BitVec.and_assoc, BitVec.and_self]

theorem odd_color (w : BitVec 64) (red : Bool) :
    ((w &&& -2#64) ||| if red then 1#64 else 0#64) &&& 1#64 = if red then 1#64 else 0#64 := by
  have none : (w &&& -2#64) &&& 1#64 = 0#64 := (NodeAddr.ofWord w).aligned
  have kept : (if red then 1#64 else 0#64) &&& 1#64 = if red then 1#64 else 0#64 := by
    cases red <;> rfl
  rw [BitVec.and_or_distrib_right, none, BitVec.zero_or, kept]

theorem odd_set (w : BitVec 64) : w ||| 1#64 = (w &&& -2#64) ||| 1#64 := by
  have halves : w &&& (1#64 ||| -2#64) = w := BitVec.and_allOnes
  rw [BitVec.and_or_distrib_left] at halves
  have absorbed : (w &&& 1#64) ||| 1#64 = 1#64 := by
    ext i bound
    simp
  calc w ||| 1#64 = ((w &&& 1#64) ||| (w &&& -2#64)) ||| 1#64 := by rw [halves]
    _ = (w &&& -2#64) ||| ((w &&& 1#64) ||| 1#64) := by
        rw [BitVec.or_comm (w &&& 1#64), BitVec.or_assoc]
    _ = (w &&& -2#64) ||| 1#64 := by rw [absorbed]

end Words

@[ext] theorem NodeAddr.ext {a b : NodeAddr} (same : a.addr = b.addr) : a = b := by
  cases a
  cases b
  cases same
  rfl

namespace RbTree

variable {t : RbTree} {n m x : NodeAddr} {red : Bool}

/-! ## The stores change one node -/

@[simp] theorem store_nil (node : RbNode) : (t.store n node).rbtNil = t.rbtNil := rfl

@[simp] theorem store_root (node : RbNode) : (t.store n node).rbtRoot = t.rbtRoot := rfl

@[simp] theorem store_same (node : RbNode) : (t.store n node).links n = node :=
  Function.update_self ..

@[simp] theorem store_other (node : RbNode) (other : m ≠ n) :
    (t.store n node).links m = t.links m :=
  Function.update_of_ne other ..

@[simp] theorem leftSet_nil : (t.rbtnLeftSet n x).rbtNil = t.rbtNil := rfl

@[simp] theorem rightSet_nil : (t.rbtnRightSet n x).rbtNil = t.rbtNil := rfl

@[simp] theorem colorSet_nil : (t.rbtnColorSet n red).rbtNil = t.rbtNil := rfl

@[simp] theorem rootSet_nil : (t.rootSet x).rbtNil = t.rbtNil := rfl

@[simp] theorem leftSet_root : (t.rbtnLeftSet n x).rbtRoot = t.rbtRoot := rfl

@[simp] theorem rightSet_root : (t.rbtnRightSet n x).rbtRoot = t.rbtRoot := rfl

@[simp] theorem colorSet_root : (t.rbtnColorSet n red).rbtRoot = t.rbtRoot := rfl

@[simp] theorem rootSet_root : (t.rootSet x).rbtRoot = x := rfl

@[simp] theorem rootSet_links : (t.rootSet x).links = t.links := rfl

@[simp] theorem leftSet_other (other : m ≠ n) : (t.rbtnLeftSet n x).links m = t.links m :=
  store_other _ other

@[simp] theorem rightSet_other (other : m ≠ n) : (t.rbtnRightSet n x).links m = t.links m :=
  store_other _ other

@[simp] theorem colorSet_other (other : m ≠ n) : (t.rbtnColorSet n red).links m = t.links m :=
  store_other _ other

/-- Red is a colour. -/
@[simp] theorem redSet_eq : t.rbtnRedSet n = t.rbtnColorSet n true := by
  rw [rbtnRedSet, rbtnColorSet, odd_set, if_pos rfl]

/-- Black is a colour. -/
@[simp] theorem blackSet_eq : t.rbtnBlackSet n = t.rbtnColorSet n false := by
  simp [rbtnBlackSet, rbtnColorSet]

/-! ## What is read after a store -/

theorem rbtnLeftGet_congr {t' : RbTree} (same : t'.links n = t.links n) :
    t'.rbtnLeftGet n = t.rbtnLeftGet n := by
  rw [rbtnLeftGet, rbtnLeftGet, same]

theorem rbtnRightGet_congr {t' : RbTree} (same : t'.links n = t.links n) :
    t'.rbtnRightGet n = t.rbtnRightGet n := by
  rw [rbtnRightGet, rbtnRightGet, same]

theorem rbtnRedGet_congr {t' : RbTree} (same : t'.links n = t.links n) :
    t'.rbtnRedGet n = t.rbtnRedGet n := by
  rw [rbtnRedGet, rbtnRedGet, same]

@[simp] theorem leftGet_leftSet :
    (t.rbtnLeftSet n x).rbtnLeftGet m = if m = n then x else t.rbtnLeftGet m := by
  split
  next same => simp [rbtnLeftSet, rbtnLeftGet, same]
  next other => exact rbtnLeftGet_congr (leftSet_other other)

@[simp] theorem rightGet_leftSet : (t.rbtnLeftSet n x).rbtnRightGet m = t.rbtnRightGet m := by
  by_cases same : m = n
  · simp [rbtnLeftSet, rbtnRightGet, same]
  · exact rbtnRightGet_congr (leftSet_other same)

@[simp] theorem redGet_leftSet : (t.rbtnLeftSet n x).rbtnRedGet m = t.rbtnRedGet m := by
  by_cases same : m = n
  · simp [rbtnLeftSet, rbtnRedGet, same]
  · exact rbtnRedGet_congr (leftSet_other same)

@[simp] theorem leftGet_rightSet : (t.rbtnRightSet n x).rbtnLeftGet m = t.rbtnLeftGet m := by
  by_cases same : m = n
  · simp [rbtnRightSet, rbtnLeftGet, same]
  · exact rbtnLeftGet_congr (rightSet_other same)

@[simp] theorem rightGet_rightSet :
    (t.rbtnRightSet n x).rbtnRightGet m = if m = n then x else t.rbtnRightGet m := by
  split
  next same =>
    refine NodeAddr.ext ?_
    simpa [rbtnRightSet, rbtnRightGet, NodeAddr.ofWord, same] using even_pack x.aligned
  next other => exact rbtnRightGet_congr (rightSet_other other)

@[simp] theorem redGet_rightSet : (t.rbtnRightSet n x).rbtnRedGet m = t.rbtnRedGet m := by
  by_cases same : m = n
  · simp only [rbtnRightSet, rbtnRedGet, same, store_same, odd_pack x.aligned]
  · exact rbtnRedGet_congr (rightSet_other same)

@[simp] theorem leftGet_colorSet : (t.rbtnColorSet n red).rbtnLeftGet m = t.rbtnLeftGet m := by
  by_cases same : m = n
  · simp [rbtnColorSet, rbtnLeftGet, same]
  · exact rbtnLeftGet_congr (colorSet_other same)

@[simp] theorem rightGet_colorSet : (t.rbtnColorSet n red).rbtnRightGet m = t.rbtnRightGet m := by
  by_cases same : m = n
  · refine NodeAddr.ext ?_
    simp only [rbtnColorSet, rbtnRightGet, NodeAddr.ofWord, same, store_same, even_color]
  · exact rbtnRightGet_congr (colorSet_other same)

@[simp] theorem redGet_colorSet :
    (t.rbtnColorSet n red).rbtnRedGet m = if m = n then red else t.rbtnRedGet m := by
  split
  next same =>
    simp only [rbtnColorSet, rbtnRedGet, same, store_same, odd_color]
    cases red <;> rfl
  next other => exact rbtnRedGet_congr (colorSet_other other)

@[simp] theorem leftGet_rootSet : (t.rootSet x).rbtnLeftGet m = t.rbtnLeftGet m := rfl

@[simp] theorem rightGet_rootSet : (t.rootSet x).rbtnRightGet m = t.rbtnRightGet m := rfl

@[simp] theorem redGet_rootSet : (t.rootSet x).rbtnRedGet m = t.rbtnRedGet m := rfl

/-- A new node is red and has no children. -/
theorem rbtNodeNew_get :
    (t.rbtNodeNew n).rbtnLeftGet n = t.rbtNil ∧ (t.rbtNodeNew n).rbtnRightGet n = t.rbtNil ∧
      (t.rbtNodeNew n).rbtnRedGet n = true := by
  simp [rbtNodeNew]

theorem rbtNodeNew_other (other : m ≠ n) : (t.rbtNodeNew n).links m = t.links m := by
  simp [rbtNodeNew, other]

@[simp] theorem rbtNodeNew_nil : (t.rbtNodeNew n).rbtNil = t.rbtNil := by
  simp [rbtNodeNew]

@[simp] theorem rbtNodeNew_root : (t.rbtNodeNew n).rbtRoot = t.rbtRoot := by
  simp [rbtNodeNew]

end RbTree

end Lsmalloc
