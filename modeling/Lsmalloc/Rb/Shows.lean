import Lsmalloc.Rb.Accessors
import Lsmalloc.Support.RedBlack.Order

/-!
# The tree that memory shows

Following links from a node one sees a tree. What a function does to the links it changes, and that
every other node keeps its own, is all there is to say about what is seen afterwards.
-/

namespace Lsmalloc

open RedBlack RedBlack.ColorTree

namespace RbTree

variable {t t' t'' : RbTree} {n m k x : NodeAddr} {red : Bool}
  {tree left right : ColorTree NodeAddr}
  {f : Frame NodeAddr} {fs : List (Frame NodeAddr)}

/-! ## What changes -/

/-- Only links of the listed nodes change, and `rbt_nil` stays where it is. -/
structure Outside (keys : List NodeAddr) (t t' : RbTree) : Prop where
  nil : t'.rbtNil = t.rbtNil
  others : ∀ n ∉ keys, t'.links n = t.links n

/-- Only links of the listed nodes change, and not the root. -/
structure Within (keys : List NodeAddr) (t t' : RbTree) : Prop extends Outside keys t t' where
  root : t'.rbtRoot = t.rbtRoot

variable {keys keys' : List NodeAddr}

theorem Outside.refl (keys : List NodeAddr) (t : RbTree) : Outside keys t t :=
  ⟨rfl, fun _ _ => rfl⟩

theorem Outside.trans (first : Outside keys t t') (second : Outside keys t' t'') :
    Outside keys t t'' :=
  ⟨second.nil.trans first.nil, fun n off => (second.others n off).trans (first.others n off)⟩

theorem Outside.mono (outside : Outside keys t t') (more : ∀ n ∈ keys, n ∈ keys') :
    Outside keys' t t' :=
  ⟨outside.nil, fun n off => outside.others n fun mem => off (more n mem)⟩

/-- A black `rbt_nil` stays black. -/
theorem Outside.black (outside : Outside keys t t') (black : t.rbtnRedGet t.rbtNil = false)
    (off : t.rbtNil ∉ keys) : t'.rbtnRedGet t'.rbtNil = false := by
  rwa [outside.nil, rbtnRedGet_congr (outside.others _ off)]

theorem Within.refl (keys : List NodeAddr) (t : RbTree) : Within keys t t :=
  ⟨.refl keys t, rfl⟩

theorem Within.trans (first : Within keys t t') (second : Within keys t' t'') :
    Within keys t t'' :=
  ⟨first.toOutside.trans second.toOutside, second.root.trans first.root⟩

theorem Within.mono (within : Within keys t t') (more : ∀ n ∈ keys, n ∈ keys') :
    Within keys' t t' :=
  ⟨within.toOutside.mono more, within.root⟩

theorem Within.leftSet (within : Within keys t t') (mem : n ∈ keys) :
    Within keys t (t'.rbtnLeftSet n x) :=
  within.trans ⟨⟨rfl, fun _ off => leftSet_other fun same => off (same ▸ mem)⟩, rfl⟩

theorem Within.rightSet (within : Within keys t t') (mem : n ∈ keys) :
    Within keys t (t'.rbtnRightSet n x) :=
  within.trans ⟨⟨rfl, fun _ off => rightSet_other fun same => off (same ▸ mem)⟩, rfl⟩

theorem Within.colorSet (within : Within keys t t') (mem : n ∈ keys) :
    Within keys t (t'.rbtnColorSet n red) :=
  within.trans ⟨⟨rfl, fun _ off => colorSet_other fun same => off (same ▸ mem)⟩, rfl⟩

theorem within_colorSet (mem : n ∈ keys) : Within keys t (t.rbtnColorSet n red) :=
  (Within.refl keys t).colorSet mem

/-! ## A subtree -/

/-- Following links from a node one sees the tree. -/
def Shows (t : RbTree) : ColorTree NodeAddr → NodeAddr → Prop
  | .nil, n => n = t.rbtNil
  | .node red left key right, n =>
      n = key ∧ key ≠ t.rbtNil ∧ t.rbtnRedGet key = red ∧
        Shows t left (t.rbtnLeftGet key) ∧ Shows t right (t.rbtnRightGet key)

theorem Shows.onLeft {red : Bool} (shown : Shows t (.node red left k right) n) :
    Shows t left (t.rbtnLeftGet k) :=
  shown.2.2.2.1

theorem Shows.onRight {red : Bool} (shown : Shows t (.node red left k right) n) :
    Shows t right (t.rbtnRightGet k) :=
  shown.2.2.2.2

/-- What is seen depends on the links of the nodes that are seen. -/
theorem Shows.congr (shown : Shows t tree n) (nil : t'.rbtNil = t.rbtNil)
    (agree : ∀ key ∈ tree.toList, t'.links key = t.links key) : Shows t' tree n := by
  induction tree generalizing n with
  | nil => exact shown.trans nil.symm
  | node red left key right ihLeft ihRight =>
      obtain ⟨here, proper, colour, onLeft, onRight⟩ := shown
      have same := agree key (by simp)
      refine ⟨here, by rwa [nil], by rwa [rbtnRedGet_congr same], ?_, ?_⟩
      · rw [rbtnLeftGet_congr same]
        exact ihLeft onLeft fun key mem => agree key (by simp [mem])
      · rw [rbtnRightGet_congr same]
        exact ihRight onRight fun key mem => agree key (by simp [mem])

theorem Outside.shows (outside : Outside keys t t') (shown : Shows t tree n)
    (apart : ∀ key ∈ tree.toList, key ∉ keys) : Shows t' tree n :=
  shown.congr outside.nil fun key mem => outside.others key (apart key mem)

/-- A store to a node that is not seen. -/
theorem shows_leftSet (off : m ∉ tree.toList) :
    Shows (t.rbtnLeftSet m x) tree n ↔ Shows t tree n := by
  have kept : ∀ key ∈ tree.toList, (t.rbtnLeftSet m x).links key = t.links key := by
    rintro key mem
    exact leftSet_other fun same => off (same ▸ mem)
  exact ⟨fun shown => shown.congr rfl fun key mem => (kept key mem).symm,
    fun shown => shown.congr rfl kept⟩

theorem shows_rightSet (off : m ∉ tree.toList) :
    Shows (t.rbtnRightSet m x) tree n ↔ Shows t tree n := by
  have kept : ∀ key ∈ tree.toList, (t.rbtnRightSet m x).links key = t.links key := by
    rintro key mem
    exact rightSet_other fun same => off (same ▸ mem)
  exact ⟨fun shown => shown.congr rfl fun key mem => (kept key mem).symm,
    fun shown => shown.congr rfl kept⟩

theorem shows_colorSet (off : m ∉ tree.toList) :
    Shows (t.rbtnColorSet m red) tree n ↔ Shows t tree n := by
  have kept : ∀ key ∈ tree.toList, (t.rbtnColorSet m red).links key = t.links key := by
    rintro key mem
    exact colorSet_other fun same => off (same ▸ mem)
  exact ⟨fun shown => shown.congr rfl fun key mem => (kept key mem).symm,
    fun shown => shown.congr rfl kept⟩

theorem shows_rootSet : Shows (t.rootSet x) tree n ↔ Shows t tree n :=
  ⟨fun shown => shown.congr rfl fun _ _ => rfl, fun shown => shown.congr rfl fun _ _ => rfl⟩

/-- The colour that is seen is the colour that is read, if `rbt_nil` is black. -/
theorem Shows.redGet (shown : Shows t tree n) (black : t.rbtnRedGet t.rbtNil = false) :
    t.rbtnRedGet n = tree.isRed := by
  cases tree with
  | nil =>
      rw [shown]
      exact black
  | node red left key right =>
      rw [shown.1]
      exact shown.2.2.1

/-- A tree that is not empty is seen at its root. -/
theorem Shows.eq_nil_iff (shown : Shows t tree n) : n = t.rbtNil ↔ tree = .nil := by
  cases tree with
  | nil => exact iff_of_true shown rfl
  | node red left key right =>
      rw [shown.1]
      exact iff_of_false shown.2.1 (by simp)

/-- `rbt_nil` is no node that is seen. -/
theorem Shows.nil_off (shown : Shows t tree n) : t.rbtNil ∉ tree.toList := by
  induction tree generalizing n with
  | nil => simp
  | node red left key right ihLeft ihRight =>
      obtain ⟨_, proper, _, onLeft, onRight⟩ := shown
      simp [ihLeft onLeft, ihRight onRight, proper.symm]

/-! ## A path -/

/-- The entry of `path` for a node of a path. -/
def entry (f : Frame NodeAddr) : PathEntry := ⟨f.key, if f.lt then .lt else .gt⟩

/-- The entries of `path` for the nodes of a path. -/
def trail (fs : List (Frame NodeAddr)) : List PathEntry := fs.map entry

@[simp] theorem trail_nil : trail [] = [] := rfl

@[simp] theorem trail_cons : trail (f :: fs) = entry f :: trail fs := rfl

@[simp] theorem trail_append (fs gs : List (Frame NodeAddr)) :
    trail (fs ++ gs) = trail fs ++ trail gs :=
  List.map_append

/-- The node at the end of a path. -/
def hanging (t : RbTree) : List (Frame NodeAddr) → NodeAddr
  | [] => t.rbtRoot
  | f :: _ => if f.lt then t.rbtnLeftGet f.key else t.rbtnRightGet f.key

/-- The child of a node of the path that the path does not go to. -/
def besideGet (t : RbTree) (f : Frame NodeAddr) : NodeAddr :=
  if f.lt then t.rbtnRightGet f.key else t.rbtnLeftGet f.key

/-- The nodes of a path are seen, linked to each other, and what hangs beside it. -/
def ShowsPath (t : RbTree) : List (Frame NodeAddr) → Prop
  | [] => True
  | f :: fs =>
      t.hanging fs = f.key ∧ f.key ≠ t.rbtNil ∧ t.rbtnRedGet f.key = f.red ∧
        Shows t f.other (t.besideGet f) ∧ ShowsPath t fs

theorem shows_fill : Shows t (f.fill tree) n ↔
    n = f.key ∧ f.key ≠ t.rbtNil ∧ t.rbtnRedGet f.key = f.red ∧ Shows t f.other (t.besideGet f) ∧
      Shows t tree (t.hanging (f :: fs)) := by
  cases toLeft : f.lt with
  | true =>
      simp only [Frame.fill, besideGet, hanging, toLeft, if_true, Shows]
      tauto
  | false => simp only [Frame.fill, besideGet, hanging, toLeft, Bool.false_eq_true, if_false, Shows]

/-- A tree is seen when the path to a subtree and the subtree are. -/
theorem shows_plug :
    Shows t (plug fs tree) t.rbtRoot ↔ ShowsPath t fs ∧ Shows t tree (t.hanging fs) := by
  induction fs generalizing tree with
  | nil => simp [plug, ShowsPath, hanging]
  | cons f fs ih =>
      rw [plug, ih, shows_fill, ShowsPath]
      tauto

/-- A node of the path and what is below it are apart from the path above. -/
theorem apart_fill (apart : (tree.toList ++ around (f :: fs)).Nodup) :
    (f.fill tree).toList.Nodup ∧ (around fs).Nodup ∧
      ∀ key ∈ around fs, key ∉ (f.fill tree).toList := by
  have whole : ((f.fill tree).toList ++ around fs).Nodup := by
    refine (List.Perm.nodup_iff ?_).mp apart
    refine List.Perm.trans ?_ ((perm_fill f tree).symm.append_right _)
    simp [around]
  obtain ⟨here, above, across⟩ := List.nodup_append.mp whole
  exact ⟨here, above, fun key mem mem' => across key mem' key mem rfl⟩

theorem hanging_congr (root : t'.rbtRoot = t.rbtRoot)
    (agree : ∀ key ∈ around fs, t'.links key = t.links key) : t'.hanging fs = t.hanging fs := by
  cases fs with
  | nil => exact root
  | cons f fs =>
      have same := agree f.key (by simp [around])
      rw [hanging, hanging, rbtnLeftGet_congr same, rbtnRightGet_congr same]

theorem ShowsPath.congr (shown : ShowsPath t fs) (root : t'.rbtRoot = t.rbtRoot)
    (nil : t'.rbtNil = t.rbtNil) (agree : ∀ key ∈ around fs, t'.links key = t.links key) :
    ShowsPath t' fs := by
  induction fs with
  | nil => trivial
  | cons f fs ih =>
      obtain ⟨linked, proper, colour, beside, above⟩ := shown
      have same := agree f.key (by simp [around])
      have rest : ∀ key ∈ around fs, t'.links key = t.links key :=
        fun key mem => agree key (by simp [around, mem])
      refine ⟨(hanging_congr root rest).trans linked, by rwa [nil], by rwa [rbtnRedGet_congr same],
        ?_, ih above rest⟩
      rw [besideGet, rbtnLeftGet_congr same, rbtnRightGet_congr same]
      exact beside.congr nil fun key mem => agree key (by simp [around, mem])

theorem ShowsPath.nil_off (shown : ShowsPath t fs) : t.rbtNil ∉ around fs := by
  induction fs with
  | nil => simp [around]
  | cons f fs ih =>
      obtain ⟨_, proper, _, beside, above⟩ := shown
      simp [around, beside.nil_off, ih above, proper.symm]

theorem Within.showsPath (within : Within keys t t') (shown : ShowsPath t fs)
    (apart : ∀ key ∈ around fs, key ∉ keys) : ShowsPath t' fs :=
  shown.congr within.root within.nil fun key mem => within.others key (apart key mem)

/-- Only a node of the path links to the end of it. -/
theorem setBelow_outside : Outside (around fs) t (t.setBelow (trail fs) n) := by
  cases fs with
  | nil => exact ⟨rfl, fun _ _ => rfl⟩
  | cons f fs =>
      have above : f.key ∈ around (f :: fs) := by simp [around]
      rw [trail_cons, setBelow]
      split
      · exact ((Within.refl _ t).leftSet above).toOutside
      · exact ((Within.refl _ t).rightSet above).toOutside

/-- What hangs at the end of a path may be exchanged. -/
theorem ShowsPath.setBelow (shown : ShowsPath t fs) (apart : (around fs).Nodup) :
    ShowsPath (t.setBelow (trail fs) n) fs ∧ (t.setBelow (trail fs) n).hanging fs = n := by
  cases fs with
  | nil => exact ⟨trivial, rfl⟩
  | cons f fs =>
      obtain ⟨linked, proper, colour, beside, above⟩ := shown
      rw [around, List.nodup_cons, List.mem_append, not_or] at apart
      obtain ⟨⟨offOther, offAbove⟩, _⟩ := apart
      have kept : ∀ t' : RbTree, Within [f.key] t t' → ShowsPath t' fs ∧ t'.hanging fs = f.key := by
        intro t' within
        have rest : ∀ key ∈ around fs, key ∉ [f.key] := by
          rintro key mem same
          exact offAbove (List.mem_singleton.mp same ▸ mem)
        exact ⟨within.showsPath above rest,
          (hanging_congr within.root fun key mem => within.others key (rest key mem)).trans linked⟩
      cases toLeft : f.lt with
      | true =>
          have same : t.setBelow (trail (f :: fs)) n = t.rbtnLeftSet f.key n := by
            simp [RbTree.setBelow, trail, entry, toLeft]
          obtain ⟨above', linked'⟩ := kept (t.rbtnLeftSet f.key n) (.leftSet (.refl _ t) (by simp))
          rw [same]
          rw [besideGet, toLeft] at beside
          exact ⟨⟨linked', proper, by simpa using colour, by
            simpa [besideGet, toLeft, shows_leftSet offOther] using beside, above'⟩, by
            simp [hanging, toLeft]⟩
      | false =>
          have same : t.setBelow (trail (f :: fs)) n = t.rbtnRightSet f.key n := by
            simp [RbTree.setBelow, trail, entry, toLeft]
          obtain ⟨above', linked'⟩ :=
            kept (t.rbtnRightSet f.key n) (.rightSet (.refl _ t) (by simp))
          rw [same]
          rw [besideGet, toLeft] at beside
          exact ⟨⟨linked', proper, by simpa using colour, by
            simpa [besideGet, toLeft, shows_rightSet offOther] using beside, above'⟩, by
            simp [hanging, toLeft]⟩

end RbTree

end Lsmalloc
