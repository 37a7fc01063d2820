import Mathlib.Data.List.Sort
import Lsmalloc.Support.RedBlack.Remove

/-!
# A red-black tree as a sorted list

The way to a key follows a comparison of three outcomes, and the keys of a tree are sorted by it.
Insertion and removal on trees are then insertion and removal on the sorted lists of keys.
-/

namespace RedBlack

universe u

open ColorTree

variable {α : Type u} (cmp : α → α → Ordering)

/-- The keys grow. -/
def Sorted (keys : List α) : Prop := keys.Pairwise fun a b => cmp a b = .lt

/-- The way to the place of a key that is not in the tree; the lowest node comes first. -/
def wind (x : α) : ColorTree α → List (Frame α) → Option (List (Frame α))
  | .nil, fs => some fs
  | .node red left key right, fs =>
      match cmp x key with
      | .lt => wind x left (⟨red, key, true, right⟩ :: fs)
      | .gt => wind x right (⟨red, key, false, left⟩ :: fs)
      | .eq => none

/-- The way to a key, and the node that is there. -/
def locate (x : α) : ColorTree α → List (Frame α) →
    Option (List (Frame α) × Bool × ColorTree α × α × ColorTree α)
  | .nil, _ => none
  | .node red left key right, fs =>
      match cmp x key with
      | .lt => locate x left (⟨red, key, true, right⟩ :: fs)
      | .gt => locate x right (⟨red, key, false, left⟩ :: fs)
      | .eq => some (fs, red, left, key, right)

/-- The tree with a key added, where no key is equal. -/
def insert (x : α) (t : ColorTree α) : Option (ColorTree α) :=
  (wind cmp x t []).map fun way => insertUnwind way (node true nil x nil)

/-- The tree without a key. -/
def remove (x : α) (t : ColorTree α) : Option (ColorTree α) :=
  match locate cmp x t [] with
  | none => none
  | some (way, red, left, _, right) => removeAt way red left right

variable {cmp} {x : α} {t left right : ColorTree α} {fs way : List (Frame α)} {red : Bool} {key : α}
  {height : Nat}

/-! ## The way to a key -/

theorem plug_wind (found : wind cmp x t fs = some way) : plug way nil = plug fs t := by
  induction t generalizing fs with
  | nil =>
      cases found
      rfl
  | node red left key right ihLeft ihRight =>
      unfold wind at found
      split at found
      · rw [ihLeft found]
        rfl
      · rw [ihRight found]
        rfl
      · cases found

theorem plug_locate (found : locate cmp x t fs = some (way, red, left, key, right)) :
    plug way (node red left key right) = plug fs t ∧ cmp x key = .eq := by
  induction t generalizing fs with
  | nil => cases found
  | node red' left' key' right' ihLeft ihRight =>
      unfold locate at found
      split at found
      · exact ihLeft found
      · exact ihRight found
      · rename_i equal
        cases found
        exact ⟨rfl, equal⟩

/-- A black place with nothing below it is where a new leaf may go. -/
theorem Hole.wind (hole : Hole height red fs) (balanced : Balanced height red t)
    (found : wind cmp x t fs = some way) : Hole 0 false way := by
  induction t generalizing fs height red with
  | nil =>
      cases found
      cases balanced
      exact hole
  | node colour left key right ihLeft ihRight =>
      have same : colour = red := balanced.isRed_eq
      subst same
      obtain ⟨⟨_, _, toLeft, onLeft⟩, _, toRight, onRight⟩ := hole.descend balanced
      unfold RedBlack.wind at found
      split at found
      · exact ihLeft toLeft onLeft found
      · exact ihRight toRight onRight found
      · cases found

theorem Hole.locate (hole : Hole height red fs) (balanced : Balanced height red t)
    {colour : Bool} (found : locate cmp x t fs = some (way, colour, left, key, right)) :
    ∃ height', Hole height' colour way ∧ Balanced height' colour (node colour left key right) := by
  induction t generalizing fs height red with
  | nil => cases found
  | node red' left' key' right' ihLeft ihRight =>
      have same : red' = red := balanced.isRed_eq
      subst same
      obtain ⟨⟨_, _, toLeft, onLeft⟩, _, toRight, onRight⟩ := hole.descend balanced
      unfold RedBlack.locate at found
      split at found
      · exact ihLeft toLeft onLeft found
      · exact ihRight toRight onRight found
      · cases found
        exact ⟨height, hole, balanced⟩

/-- The keys of a sorted tree, around its root. -/
theorem Sorted.around {keys keys' : List α} (sorted : Sorted cmp (keys ++ key :: keys')) :
    Sorted cmp keys ∧ Sorted cmp keys' ∧ (∀ a ∈ keys, cmp a key = .lt) ∧
      ∀ b ∈ keys', cmp key b = .lt := by
  obtain ⟨first, rest, across⟩ := List.pairwise_append.mp sorted
  obtain ⟨from_, last⟩ := List.pairwise_cons.mp rest
  exact ⟨first, last, fun a mem => across a mem key (by simp), from_⟩

/-- There is a way to the place of a key that differs from all. -/
theorem exists_wind (fs : List (Frame α)) (new : ∀ other ∈ t.toList, cmp x other ≠ .eq) :
    ∃ way, wind cmp x t fs = some way := by
  induction t generalizing fs with
  | nil => exact ⟨fs, rfl⟩
  | node red left key right ihLeft ihRight =>
      unfold wind
      split
      next => exact ihLeft _ fun other mem => new other (by simp [mem])
      next => exact ihRight _ fun other mem => new other (by simp [mem])
      next equal => exact absurd equal (new key (by simp))

/-- A key that differs from all leads nowhere. -/
theorem locate_eq_none (missing : ∀ other ∈ t.toList, cmp x other ≠ .eq) :
    locate cmp x t fs = none := by
  induction t generalizing fs with
  | nil => rfl
  | node red left key right ihLeft ihRight =>
      unfold locate
      split
      next => exact ihLeft fun other mem => missing other (by simp [mem])
      next => exact ihRight fun other mem => missing other (by simp [mem])
      next equal => exact absurd equal (missing key (by simp))

/-- A key goes between those that are smaller and those that are not. -/
theorem orderedInsert_between {le : α → α → Prop} [DecidableRel le] {first last : List α}
    (less : ∀ a ∈ first, ¬ le x a) (more : ∀ b ∈ last, le x b) :
    (first ++ last).orderedInsert le x = first ++ x :: last := by
  induction first with
  | nil =>
      cases last with
      | nil => rfl
      | cons b last => exact List.orderedInsert_cons_of_le le last (more b (by simp))
  | cons a first ih =>
      rw [List.cons_append, List.orderedInsert_of_not_le le _ (less a (by simp)),
        ih fun c mem => less c (by simp [mem])]
      rfl

section Trans

variable [Std.TransCmp cmp]

/-- The keys before the end of the way are smaller, those behind it greater. -/
theorem wind_bounds (sorted : Sorted cmp t.toList) (less : ∀ a ∈ before fs, cmp a x = .lt)
    (more : ∀ b ∈ behind fs, cmp x b = .lt) (found : wind cmp x t fs = some way) :
    (∀ a ∈ before way, cmp a x = .lt) ∧ ∀ b ∈ behind way, cmp x b = .lt := by
  induction t generalizing fs with
  | nil =>
      cases found
      exact ⟨less, more⟩
  | node red left key right ihLeft ihRight =>
      obtain ⟨sortedLeft, sortedRight, upTo, onward⟩ := sorted.around
      unfold wind at found
      split at found
      next here =>
        refine ihLeft sortedLeft (by simpa [before] using less) ?_ found
        intro b mem
        simp only [behind, if_true, List.cons_append, List.mem_cons, List.mem_append] at mem
        rcases mem with rfl | mem | mem
        · exact here
        · exact Std.TransCmp.lt_trans here (onward b mem)
        · exact more b mem
      next here =>
        have beyond := Std.OrientedCmp.lt_of_gt here
        refine ihRight sortedRight ?_ (by simpa [behind] using more) found
        intro a mem
        simp only [before, List.mem_append, Bool.false_eq_true, if_false, List.mem_singleton] at mem
        rcases mem with mem | mem | rfl
        · exact less a mem
        · exact Std.TransCmp.lt_trans (upTo a mem) beyond
        · exact beyond
      next => cases found

/-- Which subtree a key that is equal to `x` can be in. -/
theorem mem_of_eq {other : α} (sorted : Sorted cmp (node red left key right).toList)
    (mem : other ∈ (node red left key right).toList) (equal : cmp x other = .eq) :
    (cmp x key = .lt → other ∈ left.toList) ∧ (cmp x key = .gt → other ∈ right.toList) ∧
      (cmp x key = .eq → other = key) := by
  obtain ⟨_, _, upTo, onward⟩ := sorted.around
  have atKey : cmp other key = cmp x key :=
    Std.TransCmp.congr_left (Std.OrientedCmp.eq_symm equal)
  rw [toList, List.mem_append, List.mem_cons] at mem
  rcases mem with mem | rfl | mem
  · rw [← atKey, upTo other mem]
    exact ⟨fun _ => mem, nofun, nofun⟩
  · rw [equal]
    exact ⟨nofun, nofun, fun _ => rfl⟩
  · rw [← atKey, Std.OrientedCmp.gt_of_lt (onward other mem)]
    exact ⟨nofun, fun _ => mem, nofun⟩

/-- A key that is equal to one of the tree leads to that one. -/
theorem exists_locate (fs : List (Frame α)) (sorted : Sorted cmp t.toList) {other : α}
    (mem : other ∈ t.toList) (equal : cmp x other = .eq) :
    ∃ way red left right, locate cmp x t fs = some (way, red, left, other, right) := by
  induction t generalizing fs with
  | nil => cases mem
  | node red left key right ihLeft ihRight =>
      obtain ⟨sortedLeft, sortedRight, _⟩ := sorted.around
      obtain ⟨ifLess, ifMore, ifSame⟩ := mem_of_eq sorted mem equal
      unfold locate
      split
      next here => exact ihLeft _ sortedLeft (ifLess here)
      next here => exact ihRight _ sortedRight (ifMore here)
      next here =>
        cases ifSame here
        exact ⟨fs, red, left, right, rfl⟩

/-! ## Insertion and removal on the sorted list -/

/-- Insertion keeps the balance and inserts into the sorted list of keys. -/
theorem insert_sound (balanced : Balanced height false t) (sorted : Sorted cmp t.toList)
    (new : ∀ other ∈ t.toList, cmp x other ≠ .eq) :
    ∃ t' height', insert cmp x t = some t' ∧ Balanced height' false t' ∧ Sorted cmp t'.toList ∧
      t'.toList = t.toList.orderedInsert (fun a b => cmp a b ≠ .gt) x := by
  obtain ⟨way, found⟩ := exists_wind [] new
  have hole := Hole.root.wind balanced found
  obtain ⟨height', balanced'⟩ := insertUnwind_balanced (.red (.red .nil .nil) hole)
  have keys := toList_plug way nil
  rw [plug_wind found, plug, toList, List.append_nil] at keys
  obtain ⟨less, more⟩ := wind_bounds sorted (by simp [before]) (by simp [behind]) found
  have middle := toList_insertUnwind way (node true nil x nil)
  simp only [toList, List.nil_append, List.append_assoc, List.singleton_append] at middle
  refine ⟨_, height', by rw [insert, found]; rfl, balanced', ?_, ?_⟩
  · rw [middle]
    rw [keys] at sorted
    obtain ⟨first, last, across⟩ := List.pairwise_append.mp sorted
    refine List.pairwise_append.mpr ⟨first, List.pairwise_cons.mpr ⟨more, last⟩, ?_⟩
    rintro a mem b (_ | ⟨_, mem'⟩)
    · exact less a mem
    · exact across a mem b mem'
  · rw [middle, keys]
    refine (orderedInsert_between ?_ ?_).symm
    · intro a mem smaller
      exact smaller (Std.OrientedCmp.gt_of_lt (less a mem))
    · intro b mem greater
      rw [more b mem] at greater
      cases greater

/-- Sorted keys do not repeat. -/
theorem Sorted.nodup {keys : List α} (sorted : Sorted cmp keys) : keys.Nodup := by
  refine sorted.imp ?_
  rintro a b less rfl
  have same : cmp a a = .eq := Std.ReflCmp.compare_self
  rw [same] at less
  cases less

/-- Removal keeps the balance and takes the key from the sorted list. -/
theorem remove_sound [DecidableEq α] (balanced : Balanced height false t)
    (sorted : Sorted cmp t.toList) (mem : x ∈ t.toList) :
    ∃ t' height', remove cmp x t = some t' ∧ Balanced height' false t' ∧ Sorted cmp t'.toList ∧
      t'.toList = t.toList.erase x := by
  obtain ⟨way, red, left, right, found⟩ := exists_locate [] sorted mem Std.ReflCmp.compare_self
  obtain ⟨_, hole, here⟩ := Hole.root.locate balanced found
  obtain ⟨t', height', done, balanced', keys⟩ := removeAt_balanced hole here
  have whole := toList_plug way (node red left x right)
  rw [(plug_locate found).1, plug, toList] at whole
  have middle : t.toList = (before way ++ left.toList) ++ x :: (right.toList ++ behind way) := by
    simpa using whole
  have erased : t'.toList = t.toList.erase x := by
    have once := sorted.nodup
    rw [middle] at once ⊢
    have apart := (List.nodup_cons.mp (List.nodup_middle.mp once)).1
    rw [keys, List.erase_append_right _ fun mem => apart (List.mem_append_left _ mem),
      List.erase_cons_head, List.append_assoc]
  refine ⟨t', height', ?_, balanced', ?_, erased⟩
  · rw [remove, found]
    exact done
  · rw [erased]
    exact List.Pairwise.sublist List.erase_sublist sorted

end Trans

end RedBlack
