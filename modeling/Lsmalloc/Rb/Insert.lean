import Lsmalloc.Rb.Rotate

/-!
# Insertion in memory

Each case of a step back up rearranges what memory shows as the step on trees says, so the whole
function inserts into the tree that is seen.
-/

namespace Lsmalloc

open RedBlack RedBlack.ColorTree

namespace RbTree

variable {t t₀ : RbTree} {n k x y p : NodeAddr} {a b c d l r child : ColorTree NodeAddr}
  {pRed : Bool}
  {f : Frame NodeAddr} {fs : List (Frame NodeAddr)}

/-! ## One step -/

/-- A step in memory does to the links below a node what the step on trees says. -/
def Follows (t : RbTree) (keys : List NodeAddr) (top : NodeAddr) :
    Repair NodeAddr → RbTree × Option NodeAddr → Prop
  | .settled new, step => step.2 = none ∧ Within keys t step.1 ∧ Shows step.1 new top
  | .pending new, step => ∃ n, step.2 = some n ∧ Within keys t step.1 ∧ Shows step.1 new n

section Left

variable (start : t.rbtnLeftSet p n = t₀)

include start

/-- `Fix up 4-node.` -/
theorem insertFixLeft_four
    (shown : Shows t₀ (node pRed (node true (node true a x b) k c) p d) p)
    (apart : (node pRed (node true (node true a x b) k c) p d).toList.Nodup) :
    Follows t₀ (node pRed (node true (node true a x b) k c) p d).toList p
      (.pending (node true (node false a x b) k (node pRed c p d))) (insertFixLeft t p n) := by
  obtain ⟨_, _, apart', _⟩ := apart_node apart
  obtain ⟨_, _, apart'', _⟩ := apart_node apart'
  have left := shown.onLeft
  have recoloured := shown.mapLeft apart (within_colorSet (by simp))
    (left.mapLeft apart' (within_colorSet (by simp)) (left.onLeft.recolor apart'' false))
  obtain ⟨t₁, turned, within₁, done⟩ := rotateRight_shows recoloured apart
  have atLeft : t₀.rbtnLeftGet p = n := by simp [← start]
  obtain ⟨_, _, _, ⟨here, _, kRed, ⟨xLeft, _, xRed, _⟩, _⟩, _⟩ := shown
  obtain rfl : n = k := atLeft.symm.trans here
  have step : insertFixLeft t p n = (t₁, some n) := by
    simp [insertFixLeft, start, kRed, xLeft, xRed, turned]
  rw [step]
  exact ⟨n, rfl, (within_colorSet (by simp)).trans (within₁.mono (by simp)), done⟩

/-- A red left child of its own is in its place. -/
theorem insertFixLeft_red (black : t₀.rbtnRedGet t₀.rbtNil = false) (lBlack : l.isRed = false)
    (shown : Shows t₀ (node pRed (node true l k r) p d) p) :
    Follows t₀ (node pRed (node true l k r) p d).toList p
      (.pending (node pRed (node true l k r) p d)) (insertFixLeft t p n) := by
  have atLeft : t₀.rbtnLeftGet p = n := by simp [← start]
  have left := shown.onLeft
  have lRed := left.onLeft.redGet black
  obtain rfl : n = k := atLeft.symm.trans left.1
  have step : insertFixLeft t p n = (t₀, some p) := by
    simp [insertFixLeft, start, left.2.2.1, lRed, lBlack]
  rw [step]
  exact ⟨p, rfl, .refl _ t₀, shown⟩

/-- A black left child ends the walk. -/
theorem insertFixLeft_black (black : t₀.rbtnRedGet t₀.rbtNil = false) (lBlack : l.isRed = false)
    (shown : Shows t₀ (node pRed l p d) p) :
    Follows t₀ (node pRed l p d).toList p (.settled (node pRed l p d)) (insertFixLeft t p n) := by
  have atLeft : t₀.rbtnLeftGet p = n := by simp [← start]
  have lRed := shown.onLeft.redGet black
  rw [atLeft] at lRed
  have step : insertFixLeft t p n = (t₀, none) := by simp [insertFixLeft, start, lRed, lBlack]
  rw [step]
  exact ⟨rfl, .refl _ t₀, shown⟩

end Left

section Right

variable (start : t.rbtnRightSet p n = t₀)

include start

/-- `Split 4-node.` -/
theorem insertFixRight_split
    (shown : Shows t₀ (node pRed (node true a x b) p (node true c y d)) p)
    (apart : (node pRed (node true a x b) p (node true c y d)).toList.Nodup) :
    Follows t₀ (node pRed (node true a x b) p (node true c y d)).toList p
      (.pending (node true (node false a x b) p (node false c y d))) (insertFixRight t p n) := by
  obtain ⟨_, _, apartLeft, apartRight, _⟩ := apart_node apart
  have first := shown.mapLeft apart (within_colorSet (by simp))
    (shown.onLeft.recolor apartLeft false)
  have second := first.mapRight apart (within_colorSet (by simp))
    (first.onRight.recolor apartRight false)
  have done := second.recolor apart true
  have atRight : t₀.rbtnRightGet p = n := by simp [← start]
  obtain rfl : n = y := atRight.symm.trans shown.onRight.1
  obtain ⟨_, _, _, ⟨xLeft, _, xRed, _⟩, ⟨_, _, yRed, _⟩⟩ := shown
  have step : insertFixRight t p n =
      (((t₀.rbtnColorSet x false).rbtnColorSet n false).rbtnColorSet p true, some p) := by
    simp [insertFixRight, start, xLeft, xRed, yRed]
  rw [step]
  exact ⟨p, rfl, ((within_colorSet (by simp)).colorSet (by simp)).colorSet (by simp), done⟩

/-- `Lean left.` -/
theorem insertFixRight_lean (black : t₀.rbtnRedGet t₀.rbtNil = false) (lBlack : l.isRed = false)
    (shown : Shows t₀ (node pRed l p (node true c y d)) p)
    (apart : (node pRed l p (node true c y d)).toList.Nodup) :
    Follows t₀ (node pRed l p (node true c y d)).toList p
      (.pending (node pRed (node true l p c) y d)) (insertFixRight t p n) := by
  obtain ⟨t₁, turned, within₁, first⟩ := rotateLeft_shows shown apart
  have second := first.recolor (by simpa using apart) pRed
  obtain ⟨_, _, apart', _⟩ :=
    apart_node (by simpa using apart : (node pRed (node pRed l p c) y d).toList.Nodup)
  have done := second.mapLeft (by simpa using apart) (within_colorSet (by simp))
    (second.onLeft.recolor apart' true)
  have atRight : t₀.rbtnRightGet p = n := by simp [← start]
  obtain rfl : n = y := atRight.symm.trans shown.onRight.1
  have lRed := shown.onLeft.redGet black
  obtain ⟨_, _, colour, _, ⟨_, _, yRed, _⟩⟩ := shown
  have step : insertFixRight t p n = ((t₁.rbtnColorSet n pRed).rbtnColorSet p true, some n) := by
    simp [insertFixRight, start, yRed, lRed, lBlack, colour, turned]
  rw [step]
  exact ⟨n, rfl, ((within₁.mono (by simp)).colorSet (by simp)).colorSet (by simp), done⟩

/-- A black right child ends the walk. -/
theorem insertFixRight_black (black : t₀.rbtnRedGet t₀.rbtNil = false) (rBlack : r.isRed = false)
    (shown : Shows t₀ (node pRed d p r) p) :
    Follows t₀ (node pRed d p r).toList p (.settled (node pRed d p r)) (insertFixRight t p n) := by
  have atRight : t₀.rbtnRightGet p = n := by simp [← start]
  have rRed := shown.onRight.redGet black
  rw [atRight] at rRed
  have step : insertFixRight t p n = (t₀, none) := by simp [insertFixRight, start, rRed, rBlack]
  rw [step]
  exact ⟨rfl, .refl _ t₀, shown⟩

end Right

/-- A step in memory, from the left. -/
theorem insertFixLeft_follows (start : t.rbtnLeftSet p n = t₀)
    (black : t₀.rbtnRedGet t₀.rbtNil = false) (shown : Shows t₀ (node pRed child p d) p)
    (apart : (node pRed child p d).toList.Nodup) :
    Follows t₀ (node pRed child p d).toList p (insertStep ⟨pRed, p, true, d⟩ child)
      (insertFixLeft t p n) := by
  cases child with
  | nil => exact insertFixLeft_black start black rfl shown
  | node red l k r =>
      cases red with
      | false => exact insertFixLeft_black start black rfl shown
      | true =>
          cases l with
          | nil => exact insertFixLeft_red start black rfl shown
          | node red a x b =>
              cases red with
              | false => exact insertFixLeft_red start black rfl shown
              | true => exact insertFixLeft_four start shown apart

/-- A step in memory, from the right. -/
theorem insertFixRight_follows (start : t.rbtnRightSet p n = t₀)
    (black : t₀.rbtnRedGet t₀.rbtNil = false) (shown : Shows t₀ (node pRed d p child) p)
    (apart : (node pRed d p child).toList.Nodup) :
    Follows t₀ (node pRed d p child).toList p (insertStep ⟨pRed, p, false, d⟩ child)
      (insertFixRight t p n) := by
  cases child with
  | nil => exact insertFixRight_black start black rfl shown
  | node red c y e =>
      cases red with
      | false => exact insertFixRight_black start black rfl shown
      | true =>
          cases d with
          | nil => exact insertFixRight_lean start black rfl shown apart
          | node red a x b =>
              cases red with
              | false => exact insertFixRight_lean start black rfl shown apart
              | true => exact insertFixRight_split start shown apart

/-! ## The walk -/

/-- What is done after a first change is done in all. -/
theorem Follows.after {keys : List NodeAddr} {repair : Repair NodeAddr}
    {step : RbTree × Option NodeAddr} (within : Within keys t t₀)
    (follows : Follows t₀ keys p repair step) : Follows t keys p repair step := by
  cases repair with
  | settled new =>
      obtain ⟨returns, within', shown⟩ := follows
      exact ⟨returns, within.trans within', shown⟩
  | pending new =>
      obtain ⟨node, goes, within', shown⟩ := follows
      exact ⟨node, goes, within.trans within', shown⟩

/-- A step in memory, from either side. -/
theorem insertFix_follows (black : t.rbtnRedGet t.rbtNil = false) (proper : f.key ≠ t.rbtNil)
    (colour : t.rbtnRedGet f.key = f.red) (beside : Shows t f.other (t.besideGet f))
    (shown : Shows t child n) (apart : (f.fill child).toList.Nodup) :
    Follows t (f.fill child).toList f.key (insertStep f child)
      (if (entry f).cmp = .lt then t.insertFixLeft f.key n else t.insertFixRight f.key n) := by
  obtain ⟨red, p, lt, other⟩ := f
  have same : t.rbtnRedGet p = red := colour
  subst same
  cases lt with
  | true =>
      obtain ⟨offChild, offBeside, _⟩ := apart_node apart
      have joined := shown.joinLeft proper beside offChild offBeside
      have within : Within (node (t.rbtnRedGet p) child p other).toList t (t.rbtnLeftSet p n) :=
        (Within.refl _ t).leftSet (by simp)
      refine (insertFixLeft_follows rfl ?_ joined apart).after within
      simpa using black
  | false =>
      obtain ⟨offBeside, offChild, _⟩ := apart_node apart
      have joined := shown.joinRight proper beside offBeside offChild
      have within : Within (node (t.rbtnRedGet p) other p child).toList t (t.rbtnRightSet p n) :=
        (Within.refl _ t).rightSet (by simp)
      refine (insertFixRight_follows rfl ?_ joined apart).after within
      simpa using black

/-- The walk back up in memory does what it does on trees. -/
theorem insertUnwind_shows (black : t.rbtnRedGet t.rbtNil = false) (path : ShowsPath t fs)
    (shown : Shows t child n) (some : child ≠ .nil) (apart : (child.toList ++ around fs).Nodup) :
    Shows (t.insertUnwind (trail fs) n) (RedBlack.insertUnwind fs child)
        (t.insertUnwind (trail fs) n).rbtRoot ∧
      Outside (child.toList ++ around fs) t (t.insertUnwind (trail fs) n) := by
  induction fs generalizing t child n with
  | nil =>
      cases child with
      | nil => exact absurd rfl some
      | node red left key right =>
          obtain rfl : n = key := shown.1
          have keys : (node red left n right).toList.Nodup := by simpa [around] using apart
          have done := (shows_rootSet.mpr shown : Shows (t.rootSet n) _ n).recolor keys false
          refine ⟨by simpa [insertUnwind, RedBlack.insertUnwind, blacken] using done, ?_⟩
          refine ⟨by simp [insertUnwind], fun m other => ?_⟩
          have differs : m ≠ n := by
            rintro rfl
            exact other (by simp)
          simp [insertUnwind, differs]
  | cons f fs ih =>
      obtain ⟨linked, proper, colour, beside, above⟩ := path
      obtain ⟨here, aboveApart, across⟩ := apart_fill apart
      have nilOff : t.rbtNil ∉ (f.fill child).toList := by
        simp [(perm_fill f child).mem_iff, proper.symm, shown.nil_off, beside.nil_off]
      have follows := insertFix_follows black proper colour beside shown here
      have among : ∀ key ∈ (f.fill child).toList, key ∈ child.toList ++ around (f :: fs) := by
        intro key mem
        simpa [around, or_assoc, or_left_comm] using Or.inl ((perm_fill f child).mem_iff.mp mem)
      have keys := toList_insertStep f child
      simp only [trail_cons, insertUnwind, RedBlack.insertUnwind]
      change Follows _ _ _ _ (if (entry f).cmp = .lt then t.insertFixLeft (entry f).node n
        else t.insertFixRight (entry f).node n) at follows
      generalize (if (entry f).cmp = .lt then t.insertFixLeft (entry f).node n
        else t.insertFixRight (entry f).node n) = step at follows ⊢
      obtain ⟨t', node'⟩ := step
      cases onTree : insertStep f child with
      | settled new =>
          rw [onTree] at follows
          obtain ⟨rfl, within, shown'⟩ := follows
          refine ⟨shows_plug.mpr ⟨within.showsPath above across, ?_⟩, within.toOutside.mono among⟩
          have kept := hanging_congr within.root fun key mem => within.others key (across key mem)
          rwa [kept, linked]
      | pending new =>
          rw [onTree] at follows keys
          obtain ⟨node, rfl, within, shown'⟩ := follows
          have some' : new ≠ .nil := by
            rintro rfl
            exact absurd (keys ▸ perm_fill f child).length_eq (by simp)
          have apart' : (new.toList ++ around fs).Nodup := by
            rw [show new.toList = (f.fill child).toList from keys]
            exact List.nodup_append.mpr ⟨here, aboveApart, fun a mem b mem' same =>
              across b mem' (same ▸ mem)⟩
          obtain ⟨shown'', outside⟩ := ih (within.black black nilOff)
            (within.showsPath above across) shown' some' apart'
          refine ⟨shown'', (within.toOutside.mono among).trans (outside.mono ?_)⟩
          intro key mem
          rcases List.mem_append.mp mem with mem | mem
          · exact among key (keys ▸ mem)
          · simp [around, mem]

variable {cmp : NodeAddr → NodeAddr → Ordering}

/-- The way down in memory is the way down the tree, if `path` has room for it. -/
theorem insertWind_eq (cmp : NodeAddr → NodeAddr → Ordering) (x : NodeAddr)
    (shown : Shows t child n) {room : Nat} (deep : child.depth ≤ room)
    (fs : List (Frame NodeAddr)) :
    insertWind cmp t x room n (trail fs) =
      match wind cmp x child fs with
      | some way => .ok (trail way)
      | none => .error .abort := by
  induction child generalizing n room fs with
  | nil =>
      have atNil : n = t.rbtNil := shown
      unfold insertWind
      rw [if_pos atNil]
      rfl
  | node red left key right ihLeft ihRight =>
      obtain ⟨rfl, proper, colour, onLeft, onRight⟩ := shown
      obtain ⟨room, rfl⟩ := Nat.exists_eq_succ_of_ne_zero (n := room) (by
        rintro rfl
        exact absurd deep (by simp [depth]))
      simp only [depth, Nat.succ_eq_add_one, Nat.add_le_add_iff_right, Nat.max_le] at deep
      unfold insertWind wind
      rw [if_neg proper]
      cases cmp x n with
      | lt => exact ihLeft onLeft deep.1 (⟨red, n, true, right⟩ :: fs)
      | gt => exact ihRight onRight deep.2 (⟨red, n, false, left⟩ :: fs)
      | eq => rfl

/-- The way down meets a node that is equal, even if the new node is that node and its links are
new: nothing above it leads through it. -/
theorem insertWind_equal [Std.TransCmp cmp] {t' : RbTree} (outside : Outside [x] t t')
    (shown : Shows t child n) (sorted : Sorted cmp child.toList) {other : NodeAddr}
    (mem : other ∈ child.toList) (equal : cmp x other = .eq) {room : Nat}
    (deep : child.depth ≤ room) (path : List PathEntry) :
    insertWind cmp t' x room n path = .error .abort := by
  induction child generalizing n room path with
  | nil => cases mem
  | node red left key right ihLeft ihRight =>
      obtain ⟨sortedLeft, sortedRight, _⟩ := sorted.around
      obtain ⟨ifLess, ifMore, _⟩ := mem_of_eq sorted mem equal
      obtain ⟨rfl, proper, colour, onLeft, onRight⟩ := shown
      obtain ⟨room, rfl⟩ := Nat.exists_eq_succ_of_ne_zero (n := room) (by
        rintro rfl
        exact absurd deep (by simp [depth]))
      simp only [depth, Nat.succ_eq_add_one, Nat.add_le_add_iff_right, Nat.max_le] at deep
      have kept : cmp x n ≠ .eq → t'.links n = t.links n := by
        intro differs
        refine outside.others n ?_
        rintro (_ | ⟨_, ⟨⟩⟩)
        exact differs Std.ReflCmp.compare_self
      unfold insertWind
      rw [if_neg (by rwa [outside.nil])]
      cases here : cmp x n with
      | lt =>
          have same := rbtnLeftGet_congr (kept (by simp [here]))
          exact ihLeft (same ▸ onLeft) sortedLeft (ifLess here) deep.1 _
      | gt =>
          have same := rbtnRightGet_congr (kept (by simp [here]))
          exact ihRight (same ▸ onRight) sortedRight (ifMore here) deep.2 _
      | eq => rfl

end RbTree

end Lsmalloc
