import Lsmalloc.Rb.Rotate

/-!
# Removal in memory

Each case of a step back up rearranges what memory shows as the step on trees says, and relinks the
subtree where it has a new root.
-/

namespace Lsmalloc

open RedBlack RedBlack.ColorTree

namespace RbTree

variable {t t₀ : RbTree} {n k x y p : NodeAddr} {a b c l r child d : ColorTree NodeAddr}
  {red pRed : Bool} {path : List PathEntry} {f : Frame NodeAddr} {fs : List (Frame NodeAddr)}
  {keys : List NodeAddr} {repair : Repair NodeAddr}

/-! ## One step -/

/-- A step in memory does to the links below a node what the step on trees says. -/
def Mends (t : RbTree) (keys : List NodeAddr) (top : NodeAddr) (path : List PathEntry) :
    Repair NodeAddr → Except Fault (RbTree × Option NodeAddr) → Prop
  | .settled new, step => ∃ t₁ n, Within keys t t₁ ∧ Shows t₁ new n ∧
      (step = .ok (t₁.setBelow path n, none) ∨ n = top ∧ step = .ok (t₁, none))
  | .pending new, step => ∃ t₁ n, Within keys t t₁ ∧ Shows t₁ new n ∧ step = .ok (t₁, some n)

section Left

variable (start : t.rbtnLeftSet p n = t₀) (childBlack : t₀.rbtnRedGet n = false)

include start childBlack

/-- Left of a red node, with a red nephew. -/
theorem removeFixLeft_red_red (below : path ≠ [])
    (shown : Shows t₀ (node true child p (node red (node true a x b) k r)) p)
    (apart : (node true child p (node red (node true a x b) k r)).toList.Nodup) :
    Mends t₀ (node true child p (node red (node true a x b) k r)).toList p path
      (.settled (node true (node false child p a) x (node red b k r)))
      (removeFixLeft t p path n) := by
  obtain ⟨_, _, _, apart', _⟩ := apart_node apart
  have recoloured := shown.recolor apart false
  obtain ⟨t₁, turned, within₁, onRight⟩ := rotateRight_shows recoloured.onRight apart'
  have linked := recoloured.linkRight apart (within₁.mono (by simp)) onRight (by simp)
  obtain ⟨t₂, turned', within₂, done⟩ := rotateLeft_shows linked (by simpa using apart)
  obtain ⟨_, _, colour, _, kRight, _, _, ⟨xLeft, _, xRed, _⟩, _⟩ := shown
  refine ⟨t₂, x, ?_, done, .inl ?_⟩
  · exact (((within_colorSet (by simp)).trans (within₁.mono (by simp))).rightSet
      (by simp)).trans (within₂.mono (by simp))
  · simp [removeFixLeft, start, childBlack, colour, kRight, xLeft, xRed, turned, turned', below]

/-- Left of a red node, with a black nephew. -/
theorem removeFixLeft_red_black (below : path ≠ []) (black : t₀.rbtnRedGet t₀.rbtNil = false)
    (lBlack : l.isRed = false) (shown : Shows t₀ (node true child p (node red l k r)) p)
    (apart : (node true child p (node red l k r)).toList.Nodup) :
    Mends t₀ (node true child p (node red l k r)).toList p path
      (.settled (node red (node true child p l) k r)) (removeFixLeft t p path n) := by
  obtain ⟨t₁, turned, within₁, done⟩ := rotateLeft_shows shown apart
  obtain ⟨_, _, colour, _, kRight, _, _, onL, _⟩ := shown
  have lRed := onL.redGet black
  refine ⟨t₁, k, within₁.mono (by simp), done, .inl ?_⟩
  simp [removeFixLeft, start, childBlack, colour, kRight, lRed, lBlack, turned, below]

/-- Left of a black node, with a red nephew. -/
theorem removeFixLeft_black_red
    (shown : Shows t₀ (node false child p (node red (node true a x b) k r)) p)
    (apart : (node false child p (node red (node true a x b) k r)).toList.Nodup) :
    Mends t₀ (node false child p (node red (node true a x b) k r)).toList p path
      (.settled (node false (node false child p a) x (node red b k r)))
      (removeFixLeft t p path n) := by
  obtain ⟨_, _, _, apart', _⟩ := apart_node apart
  obtain ⟨_, _, apart'', _⟩ := apart_node apart'
  have beside := shown.onRight
  have nephew := beside.onLeft.recolor apart'' false
  have recoloured := beside.mapLeft apart' (within_colorSet (by simp)) nephew
  obtain ⟨t₁, turned, within₁, onRight⟩ := rotateRight_shows recoloured apart'
  have linked := shown.linkRight apart ((within_colorSet (by simp)).trans (within₁.mono (by simp)))
    onRight (by simp)
  obtain ⟨t₂, turned', within₂, done⟩ := rotateLeft_shows linked (by simpa using apart)
  obtain ⟨_, _, colour, _, kRight, _, _, ⟨xLeft, _, xRed, _⟩, _⟩ := shown
  refine ⟨t₂, x, ?_, done, .inl ?_⟩
  · exact (((within_colorSet (by simp)).trans (within₁.mono (by simp))).rightSet (by simp)).trans
      (within₂.mono (by simp))
  · simp [removeFixLeft, start, childBlack, colour, kRight, xLeft, xRed, turned, turned']

/-- Left of a black node, with a black nephew. -/
theorem removeFixLeft_black_black (black : t₀.rbtnRedGet t₀.rbtNil = false)
    (lBlack : l.isRed = false) (shown : Shows t₀ (node false child p (node red l k r)) p)
    (apart : (node false child p (node red l k r)).toList.Nodup) :
    Mends t₀ (node false child p (node red l k r)).toList p path
      (.pending (node red (node true child p l) k r)) (removeFixLeft t p path n) := by
  have recoloured := shown.recolor apart true
  obtain ⟨t₁, turned, within₁, done⟩ := rotateLeft_shows recoloured apart
  obtain ⟨_, _, colour, _, kRight, _, _, onL, _⟩ := shown
  have lRed := onL.redGet black
  refine ⟨t₁, k, (within_colorSet (by simp)).trans (within₁.mono (by simp)), done, ?_⟩
  simp [removeFixLeft, start, childBlack, colour, kRight, lRed, lBlack, turned]

end Left

section Right

variable (start : t.rbtnRightSet p n = t₀)

include start

/-- Right of a node whose left child is red, with a red node below its right child. -/
theorem removeFixRight_turn
    (shown : Shows t₀ (node pRed (node true l k (node red (node true a x b) y c)) p child) p)
    (apart : (node pRed (node true l k (node red (node true a x b) y c)) p child).toList.Nodup) :
    Mends t₀ (node pRed (node true l k (node red (node true a x b) y c)) p child).toList p path
      (.settled (node red (node true l k (node false a x b)) y (node pRed c p child)))
      (removeFixRight t p path n) := by
  obtain ⟨_, _, apart', _, _⟩ := apart_node apart
  obtain ⟨_, _, _, apart'', _⟩ := apart_node apart'
  obtain ⟨_, _, apart₃, _, _⟩ := apart_node apart''
  have left := shown.onLeft
  have leftright := left.onRight
  have recoloured := shown.mapLeft apart (within_colorSet (by simp))
    (left.mapRight apart' (within_colorSet (by simp))
      (leftright.mapLeft apart'' (within_colorSet (by simp))
      (leftright.onLeft.recolor apart₃ false)))
  obtain ⟨t₁, turned, within₁, first⟩ := rotateRight_shows recoloured apart
  obtain ⟨_, _, _, firstApart, _⟩ := apart_node (by simpa using apart :
    (node true l k (node pRed (node red (node false a x b) y c) p child)).toList.Nodup)
  obtain ⟨t₂, turned', within₂, second⟩ := rotateRight_shows first.onRight firstApart
  have linked := first.linkRight (by simpa using apart) (within₂.mono (by simp)) second (by simp)
  obtain ⟨t₃, turned'', within₃, done⟩ := rotateLeft_shows linked (by simpa using apart)
  obtain ⟨_, _, _, ⟨kLeft, _, kRed, _, yRight, _, _, ⟨xLeft, _, xRed, _⟩, _⟩, _⟩ := shown
  refine ⟨t₃, y, ?_, done, .inl ?_⟩
  · exact ((((within_colorSet (by simp)).trans (within₁.mono (by simp))).trans
      (within₂.mono (by simp))).rightSet (by simp)).trans (within₃.mono (by simp))
  · simp [removeFixRight, start, kLeft, kRed, yRight, xLeft, xRed, turned, turned', turned'']

/-- Right of a node whose left child is red, with a black node below its right child. -/
theorem removeFixRight_lend (black : t₀.rbtnRedGet t₀.rbtNil = false) (aBlack : a.isRed = false)
    (shown : Shows t₀ (node pRed (node true l k (node red a y c)) p child) p)
    (apart : (node pRed (node true l k (node red a y c)) p child).toList.Nodup) :
    Mends t₀ (node pRed (node true l k (node red a y c)) p child).toList p path
      (.settled (node false l k (node pRed (node true a y c) p child)))
      (removeFixRight t p path n) := by
  obtain ⟨_, _, apart', _, _⟩ := apart_node apart
  obtain ⟨_, _, _, apart'', _⟩ := apart_node apart'
  have left := shown.onLeft
  have leftright := left.onRight
  have recoloured := shown.mapLeft apart (within_colorSet (by simp))
    (left.mapRight apart' (within_colorSet (by simp)) (leftright.recolor apart'' true))
  obtain ⟨t₁, turned, within₁, first⟩ := rotateRight_shows recoloured apart
  have done := first.recolor (by simpa using apart) false
  obtain ⟨_, _, _, ⟨kLeft, _, kRed, _, yRight, yProper, _, onA, _⟩, _⟩ := shown
  have aRed := onA.redGet black
  refine ⟨t₁.rbtnColorSet k false, k, ?_, done, .inl ?_⟩
  · exact ((within_colorSet (by simp)).trans (within₁.mono (by simp))).colorSet (by simp)
  · simp [removeFixRight, start, kLeft, kRed, yRight, yProper, aRed, aBlack, turned]

/-- Right of a red node, with a red nephew. -/
theorem removeFixRight_red_red (below : path ≠ [])
    (shown : Shows t₀ (node true (node false (node true a x b) k c) p child) p)
    (apart : (node true (node false (node true a x b) k c) p child).toList.Nodup) :
    Mends t₀ (node true (node false (node true a x b) k c) p child).toList p path
      (.settled (node true (node false a x b) k (node false c p child)))
      (removeFixRight t p path n) := by
  obtain ⟨_, _, apart', _, _⟩ := apart_node apart
  obtain ⟨_, _, apart'', _⟩ := apart_node apart'
  have first := shown.recolor apart false
  have second := first.mapLeft apart (within_colorSet (by simp)) (first.onLeft.recolor apart' true)
  have left := second.onLeft
  have third := second.mapLeft apart (within_colorSet (by simp))
    (left.mapLeft apart' (within_colorSet (by simp)) (left.onLeft.recolor apart'' false))
  obtain ⟨t₁, turned, within₃, done⟩ := rotateRight_shows third apart
  obtain ⟨_, _, colour, ⟨kLeft, _, kRed, ⟨xLeft, _, xRed, _⟩, _⟩, _⟩ := shown
  refine ⟨t₁, k, ?_, done, .inl ?_⟩
  · exact (((within_colorSet (by simp)).trans (within_colorSet (by simp))).trans
      (within_colorSet (by simp))).trans (within₃.mono (by simp))
  · simp [removeFixRight, start, colour, kLeft, kRed, xLeft, xRed, turned, below]

/-- Right of a red node, with a black nephew: the root of the subtree stays. -/
theorem removeFixRight_red_black (black : t₀.rbtnRedGet t₀.rbtNil = false)
    (lBlack : l.isRed = false)
    (shown : Shows t₀ (node true (node false l k c) p child) p)
    (apart : (node true (node false l k c) p child).toList.Nodup) :
    Mends t₀ (node true (node false l k c) p child).toList p path
      (.settled (node false (node true l k c) p child)) (removeFixRight t p path n) := by
  obtain ⟨_, _, apart', _, _⟩ := apart_node apart
  have first := shown.mapLeft apart (within_colorSet (by simp)) (shown.onLeft.recolor apart' true)
  have done := first.recolor apart false
  obtain ⟨_, _, colour, ⟨kLeft, _, kRed, onL, _⟩, _⟩ := shown
  have lRed := onL.redGet black
  refine ⟨_, p, (within_colorSet (by simp)).colorSet (by simp), done, .inr ⟨rfl, ?_⟩⟩
  simp [removeFixRight, start, colour, kLeft, kRed, lRed, lBlack]

/-- Right of a black node, with a red nephew. -/
theorem removeFixRight_black_red
    (shown : Shows t₀ (node false (node false (node true a x b) k c) p child) p)
    (apart : (node false (node false (node true a x b) k c) p child).toList.Nodup) :
    Mends t₀ (node false (node false (node true a x b) k c) p child).toList p path
      (.settled (node false (node false a x b) k (node false c p child)))
      (removeFixRight t p path n) := by
  obtain ⟨_, _, apart', _, _⟩ := apart_node apart
  obtain ⟨_, _, apart'', _⟩ := apart_node apart'
  have left := shown.onLeft
  have recoloured := shown.mapLeft apart (within_colorSet (by simp))
    (left.mapLeft apart' (within_colorSet (by simp)) (left.onLeft.recolor apart'' false))
  obtain ⟨t₁, turned, within₁, done⟩ := rotateRight_shows recoloured apart
  obtain ⟨_, _, colour, ⟨kLeft, _, kRed, ⟨xLeft, _, xRed, _⟩, _⟩, _⟩ := shown
  refine ⟨t₁, k, (within_colorSet (by simp)).trans (within₁.mono (by simp)), done, .inl ?_⟩
  simp [removeFixRight, start, colour, kLeft, kRed, xLeft, xRed, turned]

/-- Right of a black node, with a black nephew. -/
theorem removeFixRight_black_black (black : t₀.rbtnRedGet t₀.rbtNil = false)
    (lBlack : l.isRed = false) (shown : Shows t₀ (node false (node false l k c) p child) p)
    (apart : (node false (node false l k c) p child).toList.Nodup) :
    Mends t₀ (node false (node false l k c) p child).toList p path
      (.pending (node false (node true l k c) p child)) (removeFixRight t p path n) := by
  obtain ⟨_, _, apart', _, _⟩ := apart_node apart
  have done := shown.mapLeft apart (within_colorSet (by simp)) (shown.onLeft.recolor apart' true)
  obtain ⟨_, _, colour, ⟨kLeft, _, kRed, onL, _⟩, _⟩ := shown
  have lRed := onL.redGet black
  refine ⟨_, p, within_colorSet (by simp), done, ?_⟩
  simp [removeFixRight, start, colour, kLeft, kRed, lRed, lBlack]

end Right

/-- A step in memory, from the left. -/
theorem removeFixLeft_mends (start : t.rbtnLeftSet p n = t₀) (childBlack : t₀.rbtnRedGet n = false)
    (black : t₀.rbtnRedGet t₀.rbtNil = false) (below : pRed = true → path ≠ [])
    (shown : Shows t₀ (node pRed child p d) p) (apart : (node pRed child p d).toList.Nodup)
    (step : removeStep ⟨pRed, p, true, d⟩ child = some repair) :
    Mends t₀ (node pRed child p d).toList p path repair (removeFixLeft t p path n) := by
  cases d with
  | nil => cases step
  | node red l k r =>
      cases l with
      | nil =>
          cases pRed with
          | true =>
              cases step
              exact removeFixLeft_red_black start childBlack (below rfl) black rfl shown apart
          | false =>
              cases step
              exact removeFixLeft_black_black start childBlack black rfl shown apart
      | node lRed a x b =>
          cases lRed with
          | true =>
              cases step
              cases pRed with
              | true => exact removeFixLeft_red_red start childBlack (below rfl) shown apart
              | false => exact removeFixLeft_black_red start childBlack shown apart
          | false =>
              cases pRed with
              | true =>
                  cases step
                  exact removeFixLeft_red_black start childBlack (below rfl) black rfl shown apart
              | false =>
                  cases step
                  exact removeFixLeft_black_black start childBlack black rfl shown apart

/-- A step in memory, from the right. -/
theorem removeFixRight_mends (start : t.rbtnRightSet p n = t₀)
    (black : t₀.rbtnRedGet t₀.rbtNil = false) (below : pRed = true → path ≠ [])
    (shown : Shows t₀ (node pRed d p child) p) (apart : (node pRed d p child).toList.Nodup)
    (step : removeStep ⟨pRed, p, false, d⟩ child = some repair) :
    Mends t₀ (node pRed d p child).toList p path repair (removeFixRight t p path n) := by
  cases d with
  | nil => cases step
  | node red l k r =>
      cases red with
      | true =>
          cases r with
          | nil => cases step
          | node rRed a y c =>
              cases a with
              | nil =>
                  cases step
                  exact removeFixRight_lend start black rfl shown apart
              | node aRed a x b =>
                  cases aRed with
                  | true =>
                      cases step
                      exact removeFixRight_turn start shown apart
                  | false =>
                      cases step
                      exact removeFixRight_lend start black rfl shown apart
      | false =>
          cases l with
          | nil =>
              cases pRed with
              | true =>
                  cases step
                  exact removeFixRight_red_black start black rfl shown apart
              | false =>
                  cases step
                  exact removeFixRight_black_black start black rfl shown apart
          | node lRed a x b =>
              cases lRed with
              | true =>
                  cases step
                  cases pRed with
                  | true => exact removeFixRight_red_red start (below rfl) shown apart
                  | false => exact removeFixRight_black_red start shown apart
              | false =>
                  cases pRed with
                  | true =>
                      cases step
                      exact removeFixRight_red_black start black rfl shown apart
                  | false =>
                      cases step
                      exact removeFixRight_black_black start black rfl shown apart

/-- What is done after a first change is done in all. -/
theorem Mends.after {step : Except Fault (RbTree × Option NodeAddr)} (within : Within keys t t₀)
    (mends : Mends t₀ keys p path repair step) : Mends t keys p path repair step := by
  cases repair with
  | settled new =>
      obtain ⟨t₁, m, within', shown, returns⟩ := mends
      exact ⟨t₁, m, within.trans within', shown, returns⟩
  | pending new =>
      obtain ⟨t₁, m, within', shown, goes⟩ := mends
      exact ⟨t₁, m, within.trans within', shown, goes⟩

/-- A step in memory, from either side. -/
theorem removeFix_mends (black : t.rbtnRedGet t.rbtNil = false) (proper : f.key ≠ t.rbtNil)
    (colour : t.rbtnRedGet f.key = f.red) (beside : Shows t f.other (t.besideGet f))
    (shown : Shows t child n) (childBlack : child.isRed = false)
    (below : f.red = true → path ≠ []) (apart : (f.fill child).toList.Nodup)
    (step : removeStep f child = some repair) :
    Mends t (f.fill child).toList f.key path repair
      (if (entry f).cmp = .eq then .error .abort
        else if (entry f).cmp = .lt then t.removeFixLeft (entry f).node path n
        else t.removeFixRight (entry f).node path n) := by
  obtain ⟨red, p, lt, other⟩ := f
  have same : t.rbtnRedGet p = red := colour
  subst same
  cases lt with
  | true =>
      obtain ⟨offChild, offBeside, _⟩ := apart_node apart
      have joined := shown.joinLeft proper beside offChild offBeside
      have within : Within (node (t.rbtnRedGet p) child p other).toList t (t.rbtnLeftSet p n) :=
        (Within.refl _ t).leftSet (by simp)
      refine (removeFixLeft_mends rfl ?_ ?_ below joined apart step).after within
      · simpa [childBlack] using shown.redGet black
      · simpa using black
  | false =>
      obtain ⟨offBeside, offChild, _⟩ := apart_node apart
      have joined := shown.joinRight proper beside offBeside offChild
      have within : Within (node (t.rbtnRedGet p) other p child).toList t (t.rbtnRightSet p n) :=
        (Within.refl _ t).rightSet (by simp)
      refine (removeFixRight_mends rfl ?_ below joined apart step).after within
      simpa using black

/-! ## The walk -/

/-- A red node has a node above it. -/
theorem trail_ne_nil {height : Nat} (hole : Hole height false (f :: fs)) (red : f.red = true) :
    trail fs ≠ [] := by
  cases hole with
  | red _ above =>
      cases above
      simp [trail]
  | left _ _ => cases red
  | right _ _ => cases red

/-- A subtree is exchanged at the end of a path. -/
theorem setBelow_shows (path : ShowsPath t fs) (shown : Shows t child n)
    (apart : (child.toList ++ around fs).Nodup) :
    Shows (t.setBelow (trail fs) n) (plug fs child) (t.setBelow (trail fs) n).rbtRoot ∧
      Outside (around fs) t (t.setBelow (trail fs) n) := by
  obtain ⟨_, aboveApart, across⟩ := List.nodup_append.mp apart
  obtain ⟨path', linked⟩ := path.setBelow (n := n) aboveApart
  refine ⟨shows_plug.mpr ⟨path', ?_⟩, setBelow_outside⟩
  rw [linked]
  exact setBelow_outside.shows shown fun key mem mem' => across key mem key mem' rfl

/-- The walk back up in memory does what it does on trees. -/
theorem removeUnwind_shows {height : Nat} (black : t.rbtnRedGet t.rbtNil = false)
    (path : ShowsPath t fs) (shown : Shows t child n) (short : Balanced height false child)
    (hole : Hole (height + 1) false fs) (apart : (child.toList ++ around fs).Nodup) :
    ∃ t' tree', t.removeUnwind (trail fs) n = .ok t' ∧
      RedBlack.removeUnwind fs child = some tree' ∧ Shows t' tree' t'.rbtRoot ∧
      Outside (child.toList ++ around fs) t t' := by
  induction fs generalizing t child n height with
  | nil =>
      have root : t.rbtnRedGet n = false := (shown.redGet black).trans short.isRed_eq
      exact ⟨t.rootSet n, child, by simp [trail, removeUnwind, root], rfl, shows_rootSet.mpr shown,
        ⟨rfl, fun _ _ => rfl⟩⟩
  | cons f fs ih =>
      obtain ⟨linked, proper, colour, beside, above⟩ := path
      obtain ⟨here, aboveApart, across⟩ := apart_fill apart
      have nilOff : t.rbtNil ∉ (f.fill child).toList := by
        simp [(perm_fill f child).mem_iff, proper.symm, shown.nil_off, beside.nil_off]
      obtain ⟨repair, step, mended⟩ := removeStep_mended short hole
      have keys := toList_removeStep step
      have mends := removeFix_mends black proper colour beside shown short.isRed_eq
        (trail_ne_nil hole) here step
      have among : ∀ key ∈ (f.fill child).toList, key ∈ child.toList ++ around (f :: fs) := by
        intro key mem
        simpa [around, or_assoc, or_left_comm] using Or.inl ((perm_fill f child).mem_iff.mp mem)
      have beyond : ∀ key ∈ around fs, key ∈ child.toList ++ around (f :: fs) := by
        intro key mem
        simp [around, mem]
      have apart' : (repair.tree.toList ++ around fs).Nodup := by
        rw [keys]
        exact List.nodup_append.mpr ⟨here, aboveApart, fun a mem b mem' same =>
          across b mem' (same ▸ mem)⟩
      simp only [trail_cons, removeUnwind, RedBlack.removeUnwind, step]
      cases repair with
      | settled new =>
          obtain ⟨t₁, m, within, shown', returns⟩ := mends
          have path' := within.showsPath above across
          rcases returns with returns | ⟨rfl, returns⟩
          · obtain ⟨whole, outside⟩ := setBelow_shows path' shown' apart'
            refine ⟨_, _, by rw [returns], rfl, whole, ?_⟩
            exact (within.toOutside.mono among).trans (outside.mono beyond)
          · refine ⟨t₁, _, by rw [returns], rfl, shows_plug.mpr ⟨path', ?_⟩,
              within.toOutside.mono among⟩
            have kept := hanging_congr within.root fun key mem => within.others key (across key mem)
            rwa [kept, linked]
      | pending new =>
          obtain ⟨t₁, m, within, shown', goes⟩ := mends
          obtain ⟨height', short', above'⟩ := mended
          obtain ⟨t', tree', done, onTree, whole, outside⟩ := ih (within.black black nilOff)
            (within.showsPath above across) shown' short' above' apart'
          refine ⟨t', tree', by rw [goes]; exact done, onTree, whole, ?_⟩
          refine (within.toOutside.mono among).trans (outside.mono ?_)
          intro key mem
          rcases List.mem_append.mp mem with mem | mem
          · exact among key (keys ▸ mem)
          · exact beyond key mem

/-- A leaf is cut off in memory as on trees. -/
theorem prune_shows {height : Nat} (black : t.rbtnRedGet t.rbtNil = false) (path : ShowsPath t fs)
    (colour : t.rbtnRedGet x = red) (leaf : Balanced height red (node red .nil k .nil))
    (hole : Hole height red fs) (apart : (around fs).Nodup) :
    ∃ t' tree', t.prune x (trail fs) = .ok t' ∧ RedBlack.prune red fs = some tree' ∧
      Shows t' tree' t'.rbtRoot ∧ Outside (around fs) t t' := by
  obtain ⟨_, rfl⟩ := leaf.leaf
  have leaf' : Shows t .nil t.rbtNil := rfl
  cases red with
  | true =>
      cases hole with
      | @left _ _ fs key other beside above =>
          obtain ⟨whole, outside⟩ := setBelow_shows path leaf' (by simpa using apart)
          refine ⟨_, _, ?_, rfl, whole, outside⟩
          simp [prune, colour, trail, entry, setBelow]
  | false =>
      obtain ⟨t', tree', done, onTree, whole, outside⟩ := removeUnwind_shows black path leaf'
        .nil hole (by simpa using apart)
      exact ⟨t', tree', by simpa [prune, colour] using done, onTree, whole, by simpa using outside⟩

end RbTree

end Lsmalloc
