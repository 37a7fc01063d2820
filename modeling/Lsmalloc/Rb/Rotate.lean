import Lsmalloc.Rb.Shows

/-!
# Small changes of a tree in memory

Linking a subtree, changing a colour and turning a node, each as a change of the tree that is seen.
A longer rearrangement is a chain of these: what is seen after one is what the next starts from.
-/

namespace Lsmalloc

open RedBlack RedBlack.ColorTree

namespace RbTree

variable {t t' : RbTree} {n m k x : NodeAddr} {a b c l r l' r' : ColorTree NodeAddr}
  {red red' : Bool}

/-- The keys of the subtrees are apart from each other and from the key between them. -/
theorem apart_node (apart : (node red l k r).toList.Nodup) :
    k ∉ l.toList ∧ k ∉ r.toList ∧ l.toList.Nodup ∧ r.toList.Nodup ∧
      ∀ key ∈ l.toList, key ∉ r.toList := by
  rw [toList, List.nodup_append, List.nodup_cons] at apart
  obtain ⟨left, ⟨off, right⟩, across⟩ := apart
  exact ⟨fun mem => across k mem k (by simp) rfl, off, left, right,
    fun key mem mem' => across key mem key (by simp [mem']) rfl⟩

/-! ## Links and colours -/

/-- A node gets a left subtree. -/
theorem Shows.joinLeft (shown : Shows t l n) (proper : k ≠ t.rbtNil)
    (onRight : Shows t r (t.rbtnRightGet k)) (offLeft : k ∉ l.toList) (offRight : k ∉ r.toList) :
    Shows (t.rbtnLeftSet k n) (node (t.rbtnRedGet k) l k r) k := by
  simp [Shows, proper, shows_leftSet offLeft, shows_leftSet offRight, shown, onRight]

/-- A node gets a right subtree. -/
theorem Shows.joinRight (shown : Shows t r n) (proper : k ≠ t.rbtNil)
    (onLeft : Shows t l (t.rbtnLeftGet k)) (offLeft : k ∉ l.toList) (offRight : k ∉ r.toList) :
    Shows (t.rbtnRightSet k n) (node (t.rbtnRedGet k) l k r) k := by
  simp [Shows, proper, shows_rightSet offLeft, shows_rightSet offRight, shown, onLeft]

/-- A node gets another colour. -/
theorem Shows.recolor (shown : Shows t (node red l k r) n)
    (apart : (node red l k r).toList.Nodup) (red' : Bool) :
    Shows (t.rbtnColorSet k red') (node red' l k r) n := by
  obtain ⟨offLeft, offRight, _⟩ := apart_node apart
  obtain ⟨rfl, proper, colour, onLeft, onRight⟩ := shown
  simp [Shows, proper, shows_colorSet offLeft, shows_colorSet offRight, onLeft, onRight]

/-- The left subtree changes in its place. -/
theorem Shows.mapLeft (shown : Shows t (node red l k r) n) (apart : (node red l k r).toList.Nodup)
    (within : Within l.toList t t') (shown' : Shows t' l' (t.rbtnLeftGet k)) :
    Shows t' (node red l' k r) n := by
  obtain ⟨offLeft, offRight, _, _, across⟩ := apart_node apart
  obtain ⟨rfl, proper, colour, onLeft, onRight⟩ := shown
  have same := within.others n offLeft
  refine ⟨rfl, by rwa [within.nil], by rwa [rbtnRedGet_congr same],
    by rwa [rbtnLeftGet_congr same], ?_⟩
  rw [rbtnRightGet_congr same]
  exact within.shows onRight fun key mem mem' => across key mem' mem

/-- The right subtree changes in its place. -/
theorem Shows.mapRight (shown : Shows t (node red l k r) n) (apart : (node red l k r).toList.Nodup)
    (within : Within r.toList t t') (shown' : Shows t' r' (t.rbtnRightGet k)) :
    Shows t' (node red l k r') n := by
  obtain ⟨offLeft, offRight, _, _, across⟩ := apart_node apart
  obtain ⟨rfl, proper, colour, onLeft, onRight⟩ := shown
  have same := within.others n offRight
  refine ⟨rfl, by rwa [within.nil], by rwa [rbtnRedGet_congr same], ?_,
    by rwa [rbtnRightGet_congr same]⟩
  rw [rbtnLeftGet_congr same]
  exact within.shows onLeft across

/-- The right subtree changes and is linked anew. -/
theorem Shows.linkRight (shown : Shows t (node red l k r) n)
    (apart : (node red l k r).toList.Nodup) (within : Within r.toList t t')
    (shown' : Shows t' r' m) (keys : r'.toList = r.toList) :
    Shows (t'.rbtnRightSet k m) (node red l k r') n := by
  obtain ⟨offLeft, offRight, _, _, across⟩ := apart_node apart
  obtain ⟨rfl, proper, colour, onLeft, onRight⟩ := shown
  have same := within.others n offRight
  have kept := within.shows onLeft across
  have offRight' : n ∉ r'.toList := by rwa [keys]
  simp [Shows, within.nil, proper, rbtnRedGet_congr same, colour, shows_rightSet offLeft,
    shows_rightSet offRight', rbtnLeftGet_congr same, kept, shown']

/-! ## Rotations -/

/-- `rbtn_rotate_right` turns a node to the right. -/
theorem rotateRight_shows (shown : Shows t (node red (node red' a x b) k c) n)
    (apart : (node red (node red' a x b) k c).toList.Nodup) :
    ∃ t', t.rbtnRotateRight k = (t', x) ∧ Within [k, x] t t' ∧
      Shows t' (node red' a x (node red b k c)) x := by
  obtain ⟨offLeft, offC, apart', _, across⟩ := apart_node apart
  obtain ⟨xA, xB, _⟩ := apart_node apart'
  obtain ⟨rfl, proper, colour, ⟨toLeft, proper', colour', onA, onB⟩, onC⟩ := shown
  simp only [toList, List.mem_append, List.mem_cons, not_or] at offLeft
  obtain ⟨kA, kx, kB⟩ := offLeft
  have xC := across x (by simp)
  refine ⟨(t.rbtnLeftSet n (t.rbtnRightGet x)).rbtnRightSet x n, by rw [rbtnRotateRight, toLeft],
    ((Within.refl _ t).leftSet (by simp)).rightSet (by simp), ?_⟩
  simp [Shows, *, Ne.symm kx, shows_leftSet, shows_rightSet]

/-- `rbtn_rotate_left` turns a node to the left. -/
theorem rotateLeft_shows (shown : Shows t (node red a k (node red' b x c)) n)
    (apart : (node red a k (node red' b x c)).toList.Nodup) :
    ∃ t', t.rbtnRotateLeft k = (t', x) ∧ Within [k, x] t t' ∧
      Shows t' (node red' (node red a k b) x c) x := by
  obtain ⟨offA, offRight, _, apart', across⟩ := apart_node apart
  obtain ⟨xB, xC, _⟩ := apart_node apart'
  obtain ⟨rfl, proper, colour, onA, toRight, proper', colour', onB, onC⟩ := shown
  simp only [toList, List.mem_append, List.mem_cons, not_or] at offRight
  obtain ⟨kB, kx, kC⟩ := offRight
  have xA : x ∉ a.toList := fun mem => across x mem (by simp)
  refine ⟨(t.rbtnRightSet n (t.rbtnLeftGet x)).rbtnLeftSet x n, by rw [rbtnRotateLeft, toRight],
    ((Within.refl _ t).rightSet (by simp)).leftSet (by simp), ?_⟩
  simp [Shows, *, Ne.symm kx, shows_leftSet, shows_rightSet]

end RbTree

end Lsmalloc
