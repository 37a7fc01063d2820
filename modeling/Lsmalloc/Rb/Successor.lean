import Lsmalloc.Rb.Insert
import Lsmalloc.Rb.Remove

/-!
# Removing a node

The way down finds the node and the successor below it. The successor takes the place of the node in
memory, links and colour, and the node is cut off where the successor was.
-/

namespace Lsmalloc

open RedBlack RedBlack.ColorTree

namespace RbTree

variable {cmp : NodeAddr → NodeAddr → Ordering} {t t' : RbTree} {n k x : NodeAddr}
  {tree left right : ColorTree NodeAddr} {red : Bool} {next : Frame NodeAddr}
  {fs gs gs' way : List (Frame NodeAddr)} {height : Nat}

/-! ## The way down -/

/-- The way to the successor in memory. -/
theorem successorWind_eq (shown : Shows t tree n) {room : Nat} (deep : tree.depth ≤ room)
    (fs : List (Frame NodeAddr)) :
    successorWind t room n (trail fs) = .ok (trail (spine tree fs)) := by
  induction tree generalizing n room fs with
  | nil =>
      have atNil : n = t.rbtNil := shown
      unfold successorWind
      rw [if_pos atNil]
      rfl
  | node red left key right ihLeft _ =>
      obtain ⟨rfl, proper, _, onLeft, _⟩ := shown
      obtain ⟨room, rfl⟩ := Nat.exists_eq_succ_of_ne_zero (n := room) (by
        rintro rfl
        exact absurd deep (by simp [depth]))
      simp only [depth, Nat.succ_eq_add_one, Nat.add_le_add_iff_right, Nat.max_le] at deep
      unfold successorWind
      rw [if_neg proper]
      exact ihLeft onLeft deep.1 (⟨red, n, true, right⟩ :: fs)

/-- The way down in memory is the way down the tree, if `path` has room for it. -/
theorem removeWind_eq (cmp : NodeAddr → NodeAddr → Ordering) (x : NodeAddr)
    (shown : Shows t tree n) {room : Nat} (deep : tree.depth ≤ room)
    (fs : List (Frame NodeAddr)) :
    removeWind cmp t x room n (trail fs) =
      match locate cmp x tree fs with
      | some (way, _, _, key, right) => .ok (key, trail way, trail (spine right []))
      | none => .error .null := by
  induction tree generalizing n room fs with
  | nil =>
      have atNil : n = t.rbtNil := shown
      unfold removeWind
      rw [if_pos atNil]
      rfl
  | node red left key right ihLeft ihRight =>
      obtain ⟨rfl, proper, _, onLeft, onRight⟩ := shown
      obtain ⟨room, rfl⟩ := Nat.exists_eq_succ_of_ne_zero (n := room) (by
        rintro rfl
        exact absurd deep (by simp [depth]))
      simp only [depth, Nat.succ_eq_add_one, Nat.add_le_add_iff_right, Nat.max_le] at deep
      unfold removeWind locate
      rw [if_neg proper]
      cases cmp x n with
      | lt => exact ihLeft onLeft deep.1 (⟨red, n, true, right⟩ :: fs)
      | gt => exact ihRight onRight deep.2 (⟨red, n, false, left⟩ :: fs)
      | eq =>
          have behind := successorWind_eq onRight deep.2 []
          simp only [trail_nil] at behind
          simp only [behind]
          rfl

/-! ## The successor takes the place of the node -/

/-- A path that ends in another way at its top. -/
theorem ShowsPath.exchange (path : ShowsPath t (way ++ gs)) (path' : ShowsPath t' gs')
    (hanging : t'.hanging gs' = t.hanging gs) (nil : t'.rbtNil = t.rbtNil)
    (agree : ∀ key ∈ around way, t'.links key = t.links key) :
    ShowsPath t' (way ++ gs') ∧ t'.hanging (way ++ gs') = t.hanging (way ++ gs) := by
  induction way with
  | nil => exact ⟨path', hanging⟩
  | cons f way ih =>
      obtain ⟨linked, proper, colour, beside, above⟩ := path
      have same := agree f.key (by simp [around])
      obtain ⟨above', hangs⟩ := ih above fun key mem => agree key (by simp [around, mem])
      have beside' : Shows t' f.other (t'.besideGet f) := by
        rw [besideGet, rbtnLeftGet_congr same, rbtnRightGet_congr same]
        exact beside.congr nil fun key mem => agree key (by simp [around, mem])
      refine ⟨⟨hangs.trans linked, by rwa [nil], by rwa [rbtnRedGet_congr same], beside', above'⟩,
        ?_⟩
      rw [List.cons_append, List.cons_append, RbTree.hanging, RbTree.hanging,
        rbtnLeftGet_congr same, rbtnRightGet_congr same]

/-- The nodes of the way to the successor, around the node. -/
theorem around_successor (found : spine right [] = next :: way)
    (apart : ((node red left x right).toList ++ around fs).Nodup) :
    (next.key :: x :: (next.other.toList ++ around way ++ left.toList ++ around fs)).Nodup := by
  have perm := perm_plug (spine right []) (.nil : ColorTree NodeAddr)
  rw [plug_spine, plug, found, toList, List.nil_append, around] at perm
  refine (List.Perm.nodup_iff ?_).mp apart
  have whole := (perm.cons x).append_left left.toList
  refine (whole.append_right (around fs)).trans ?_
  grind

/-- `Swap node with its successor.` -/
theorem swapSuccessor_shows (path : ShowsPath t fs)
    (shown : Shows t (node red left x right) (t.hanging fs))
    (found : spine right [] = next :: way)
    (apart : ((node red left x right).toList ++ around fs).Nodup) :
    ShowsPath (t.swapSuccessor x next.key (trail fs)) (way ++ ⟨red, next.key, false, left⟩ :: fs) ∧
      (t.swapSuccessor x next.key (trail fs)).rbtnRedGet x = next.red ∧
      Outside (next.key :: x :: around fs) t (t.swapSuccessor x next.key (trail fs)) := by
  have named := around_successor found apart
  simp only [List.nodup_cons, List.mem_cons, List.mem_append, not_or] at named
  obtain ⟨⟨sx, ⟨⟨sOther, sWay⟩, sLeft⟩, sAbove⟩, ⟨⟨⟨xOther, xWay⟩, xLeft⟩, xAbove⟩, apart'⟩ := named
  -- the whole way down to the successor is seen before
  have whole := shows_plug.mpr ⟨path, shown⟩
  change Shows t (plug (⟨red, x, false, left⟩ :: fs) right) t.rbtRoot at whole
  rw [← plug_spine, show spine right (⟨red, x, false, left⟩ :: fs) =
    next :: (way ++ ⟨red, x, false, left⟩ :: fs) by
      rw [← List.cons_append, ← found, ← spine_append, List.nil_append]] at whole
  obtain ⟨⟨_, sProper, sColour, _, below⟩, _⟩ := shows_plug.mp whole
  obtain ⟨here, xProper, xColour, onLeft, _⟩ := shown
  let t₁ := (t.rbtnColorSet next.key red).rbtnLeftSet next.key (t.rbtnLeftGet x)
  let t₂ := (t₁.rbtnRightSet next.key (t.rbtnRightGet x)).rbtnColorSet x next.red
  have swapped : t.swapSuccessor x next.key (trail fs) = t₂.setBelow (trail fs) next.key := by
    simp [swapSuccessor, sColour, xColour, t₁, t₂]
  rw [swapped]
  have within : Within [next.key, x] t t₂ :=
    (((within_colorSet (by simp)).leftSet (by simp)).rightSet (by simp)).colorSet (by simp)
  have off : ∀ key, key ≠ next.key → key ≠ x → key ∉ [next.key, x] := by simp_all
  have aboveOff : ∀ key ∈ around fs, key ∉ [next.key, x] := fun key mem =>
    off key (fun same => sAbove (same ▸ mem)) fun same => xAbove (same ▸ mem)
  have leftOff : ∀ key ∈ left.toList, key ∉ [next.key, x] := fun key mem =>
    off key (fun same => sLeft (same ▸ mem)) fun same => xLeft (same ▸ mem)
  have wayOff : ∀ key ∈ around way, key ∉ [next.key, x] := fun key mem =>
    off key (fun same => sWay (same ▸ mem)) fun same => xWay (same ▸ mem)
  obtain ⟨_, aboveApart, across⟩ := List.nodup_append.mp apart'
  have outside : Outside (around fs) t₂ (t₂.setBelow (trail fs) next.key) := setBelow_outside
  obtain ⟨path', linked⟩ := (within.showsPath path aboveOff).setBelow (n := next.key) aboveApart
  have same := outside.others next.key sAbove
  have onLeft' := outside.shows (within.shows onLeft leftOff) fun key mem mem' =>
    across key (by simp [mem]) key mem' rfl
  have path'' :
      ShowsPath (t₂.setBelow (trail fs) next.key) (⟨red, next.key, false, left⟩ :: fs) := by
    refine ⟨linked, by rwa [outside.nil, within.nil], ?_, ?_, path'⟩
    · rw [rbtnRedGet_congr same]
      simp [t₁, t₂, sx]
    · rw [besideGet, rbtnLeftGet_congr same]
      simpa [t₁, t₂] using onLeft'
  have hangs : (t₂.setBelow (trail fs) next.key).hanging (⟨red, next.key, false, left⟩ :: fs) =
      t.hanging (⟨red, x, false, left⟩ :: fs) := by
    rw [hanging, rbtnRightGet_congr same]
    simp [t₁, t₂, hanging]
  refine ⟨(below.exchange path'' hangs (outside.nil.trans within.nil) ?_).1, ?_, ?_⟩
  · intro key mem
    rw [outside.others key fun mem' => across key (by simp [mem]) key mem' rfl,
      within.others key (wayOff key mem)]
  · rw [rbtnRedGet_congr (outside.others x xAbove)]
    simp [t₂]
  · exact (within.toOutside.mono (by simp)).trans (outside.mono (by simp_all))

/-! ## The whole function -/

/-- A node without a successor is cut out of memory as on trees. -/
theorem spliceOut_shows (black : t.rbtnRedGet t.rbtNil = false) (path : ShowsPath t fs)
    (shown : Shows t (node red left x .nil) (t.hanging fs)) (hole : Hole height red fs)
    (balanced : Balanced height red (node red left x .nil))
    (apart : ((node red left x .nil).toList ++ around fs).Nodup) :
    ∃ t' tree', t.spliceOut x (trail fs) = .ok t' ∧ splice fs red left = some tree' ∧
      Shows t' tree' t'.rbtRoot ∧ Outside ((node red left x .nil).toList ++ around fs) t t' := by
  obtain ⟨_, aboveApart, across⟩ := List.nodup_append.mp apart
  obtain ⟨_, xProper, xColour, onLeft, _⟩ := shown
  rcases balanced.left_leaf with ⟨rfl, _⟩ | ⟨rfl, rfl, k, rfl⟩
  · have atNil : t.rbtnLeftGet x = t.rbtNil := onLeft
    cases fs with
    | nil =>
        exact ⟨t.rootSet t.rbtNil, .nil, by simp [spliceOut, atNil], rfl, rfl,
          ⟨rfl, fun _ _ => rfl⟩⟩
    | cons f fs =>
        obtain ⟨t', tree', done, onTree, whole, outside⟩ :=
          prune_shows black path xColour balanced hole aboveApart
        exact ⟨t', tree', by simpa [spliceOut, atNil] using done, onTree, whole,
          outside.mono (by simp_all)⟩
  · have leaf := onLeft.recolor (by simp) false
    obtain ⟨toLeft, kProper, kColour, _⟩ := onLeft
    rw [toLeft] at leaf
    have kOff : ∀ key ∈ around fs, key ∉ [k] := by
      rintro key mem mem'
      exact across k (by simp) key mem (List.mem_singleton.mp mem').symm
    have within : Within [k] t (t.rbtnColorSet k false) := within_colorSet (by simp)
    obtain ⟨whole, outside⟩ := setBelow_shows (within.showsPath path kOff) leaf
      (List.nodup_append.mpr ⟨by simp, aboveApart, fun a mem b mem' same =>
        kOff b mem' (by simpa [same] using mem)⟩)
    refine ⟨_, _, ?_, rfl, whole, ?_⟩
    · simp [spliceOut, toLeft, kProper, xColour, kColour]
    · exact (within.toOutside.mono (by simp)).trans (outside.mono (by simp_all))

/-- `remove` does in memory what removal does on trees. -/
theorem rbRemove_shows [Std.TransCmp cmp] (black : t.rbtnRedGet t.rbtNil = false)
    (shown : Shows t tree t.rbtRoot) (balanced : Balanced height false tree)
    (sorted : Sorted cmp tree.toList) (mem : x ∈ tree.toList)
    (deep : tree.depth ≤ pathLength - 1) :
    ∃ t' tree', rbRemove cmp t x = .ok t' ∧ remove cmp x tree = some tree' ∧
      Shows t' tree' t'.rbtRoot ∧ Outside tree.toList t t' := by
  obtain ⟨fs, red, left, right, found⟩ := exists_locate [] sorted mem Std.ReflCmp.compare_self
  obtain ⟨_, hole, here⟩ := Hole.root.locate balanced found
  have down := removeWind_eq cmp x shown deep []
  rw [found, trail_nil] at down
  have whole := (plug_locate found).1
  rw [plug] at whole
  rw [← whole] at shown
  obtain ⟨path, below⟩ := shows_plug.mp shown
  have perm := perm_plug fs (node red left x right)
  rw [whole] at perm
  have apart := perm.nodup_iff.mp sorted.nodup
  have among : ∀ key ∈ (node red left x right).toList ++ around fs, key ∈ tree.toList :=
    fun key mem => perm.mem_iff.mpr mem
  unfold rbRemove remove removeAt
  simp only [down, found]
  cases way : spine right [] with
  | nil =>
      obtain ⟨rfl, _⟩ := spine_eq_nil way
      obtain ⟨t', tree', done, onTree, whole, outside⟩ :=
        spliceOut_shows black path below hole here apart
      exact ⟨t', tree', by simpa [bind, Except.bind] using done, onTree, whole, outside.mono among⟩
  | cons next way' =>
      have proper : right ≠ .nil := by
        rintro rfl
        cases way
      obtain ⟨path', colour, outside⟩ := swapSuccessor_shows path below way apart
      obtain ⟨_, _, beyond, onRight⟩ := hole.descend here
      have toSuccessor := spine_append right [] (⟨red, next.key, false, left⟩ :: fs)
      rw [List.nil_append, way, List.cons_append] at toSuccessor
      obtain ⟨_, there, leaf, _⟩ := beyond.rekey.spine onRight toSuccessor proper
      have named := around_successor way apart
      have differs : next.key ≠ x := fun same => (List.nodup_cons.mp named).1 (by simp [same])
      have members : ∀ key ∈ next.key :: x :: (around way' ++ left.toList ++ around fs),
          key ∈ tree.toList := by
        have inRight := perm_plug (spine right []) (.nil : ColorTree NodeAddr)
        rw [plug_spine, plug, way, toList, List.nil_append, around] at inRight
        intro key mem
        refine among key ?_
        simp only [List.mem_cons, List.mem_append, toList, inRight.mem_iff] at mem ⊢
        grind
      have apart' : (around (way' ++ ⟨red, next.key, false, left⟩ :: fs)).Nodup := by
        rw [around_append, around, List.nodup_middle, ← List.append_assoc]
        have fewer : (around way' ++ left.toList ++ around fs).Sublist
            (x :: (next.other.toList ++ around way' ++ left.toList ++ around fs)) := by
          simp only [List.append_assoc]
          exact (List.sublist_append_right _ _).cons x
        exact named.sublist (fewer.cons_cons next.key)
      have nilOff := (shows_plug.mpr ⟨path, below⟩).nil_off
      rw [whole] at nilOff
      have black' := outside.black black fun mem => nilOff (members _ (by
        simp only [List.mem_cons, List.mem_append] at mem ⊢
        grind))
      obtain ⟨t', tree', done, onTree, shown', outside'⟩ :=
        prune_shows black' path' colour leaf there apart'
      refine ⟨t', tree', ?_, onTree, shown', ?_⟩
      · rw [trail_append, trail_cons] at done
        simpa [bind, Except.bind, differs, entry] using done
      · refine (outside.mono fun key mem => members key ?_).trans
          (outside'.mono fun key mem => members key ?_)
        · simp only [List.mem_cons, List.mem_append] at mem ⊢
          grind
        · simp only [around_append, around, List.mem_cons, List.mem_append] at mem ⊢
          grind

end RbTree

end Lsmalloc
