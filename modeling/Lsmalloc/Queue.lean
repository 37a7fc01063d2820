import Lsmalloc.Support.Links

/-!
# Rings and queues of `qr.h` and `ql.h`

The list macros the allocator threads through its descriptors. A node is named by
its address, a natural number, and `0` is `NULL`; the link fields of all nodes of
one type are kept in one `Links`. A queue is the ring its `qlh_first` enters, or nothing when that
pointer is `NULL`.
-/

namespace Lsmalloc

/-! ## Rings -/

/-- Link a node to itself. -/
def qrNew (links : Links Nat) (qr : Nat) : Links Nat :=
  let links := links.setNext qr qr
  links.setPrev qr qr

/-- Insert `qr` before `qrelm`, store by store. -/
def qrBeforeInsert (links : Links Nat) (qrelm qr : Nat) : Links Nat :=
  let links := links.setPrev qr (links.prev qrelm)
  let links := links.setNext qr qrelm
  let links := links.setNext (links.prev qr) qr
  links.setPrev qrelm qr

/-- Insert `qr` after `qrelm`, store by store. -/
def qrAfterInsert (links : Links Nat) (qrelm qr : Nat) : Links Nat :=
  let links := links.setNext qr (links.next qrelm)
  let links := links.setPrev qr qrelm
  let links := links.setPrev (links.next qr) qr
  links.setNext qrelm qr

/-- Take `qr` out of its ring and link it to itself. -/
def qrRemove (links : Links Nat) (qr : Nat) : Links Nat :=
  let links := links.setNext (links.prev qr) (links.next qr)
  let links := links.setPrev (links.next qr) (links.prev qr)
  let links := links.setNext qr qr
  links.setPrev qr qr

variable {links : Links Nat}

theorem isRing_qrNew (links : Links Nat) (qr : Nat) : (qrNew links qr).IsRing [qr] := by
  simp [Links.isRing_singleton, qrNew]

/-- A node linked to itself keeps every other link. -/
theorem qrNew_other {qr x : Nat} (other : x ≠ qr) :
    (qrNew links qr).next x = links.next x ∧ (qrNew links qr).prev x = links.prev x := by
  simp [qrNew, other]

/-- The links after an insertion, whatever they were before. -/
theorem qrBeforeInsert_next (links : Links Nat) (a x y : Nat) :
    (qrBeforeInsert links a x).next y =
      if y = links.prev a then x else if y = x then a else links.next y := by
  simp [qrBeforeInsert, Links.setNext, Links.setPrev, Function.update_apply]

theorem qrBeforeInsert_prev (links : Links Nat) (a x y : Nat) :
    (qrBeforeInsert links a x).prev y =
      if y = a then x else if y = x then links.prev a else links.prev y := by
  simp [qrBeforeInsert, Links.setNext, Links.setPrev, Function.update_apply]

/-- Inserting before the node a ring is read from puts the new node last. -/
theorem isRing_qrBeforeInsert {a x : Nat} {rest : List Nat} (ring : links.IsRing (a :: rest))
    (fresh : x ∉ a :: rest) : (qrBeforeInsert links a x).IsRing (a :: rest ++ [x]) := by
  obtain ⟨front, last, ends⟩ : ∃ front last, a :: rest = front ++ [last] :=
    ⟨_, _, (List.dropLast_append_getLast (List.cons_ne_nil a rest)).symm⟩
  have closed := ring.last_linked ends
  have aFresh : a ≠ x := by rintro rfl; simp at fresh
  have lastFresh : last ≠ x := by rintro rfl; rw [ends] at fresh; simp at fresh
  refine ring.link ends fresh ?_ ?_ ?_ ?_ ?_ ?_
  · simp [qrBeforeInsert, closed.2]
  · simp [qrBeforeInsert, closed.2, aFresh.symm]
  · simp [qrBeforeInsert, closed.2, lastFresh.symm]
  · simp [qrBeforeInsert]
  · intro y member notLast
    have old : y ≠ x := by rintro rfl; exact fresh member
    simp [qrBeforeInsert, closed.2, notLast, old]
  · intro y member notFirst
    have old : y ≠ x := by rintro rfl; exact fresh member
    simp [qrBeforeInsert, notFirst, old]

/-- Inserting before a ring's node touches that ring and the new node only. -/
theorem qrBeforeInsert_other {a x y : Nat} {rest : List Nat} (ring : links.IsRing (a :: rest))
    (outside : y ∉ a :: rest) (other : y ≠ x) :
    (qrBeforeInsert links a x).next y = links.next y ∧
      (qrBeforeInsert links a x).prev y = links.prev y := by
  obtain ⟨front, last, ends⟩ : ∃ front last, a :: rest = front ++ [last] :=
    ⟨_, _, (List.dropLast_append_getLast (List.cons_ne_nil a rest)).symm⟩
  have closed := ring.last_linked ends
  have notFirst : y ≠ a := by rintro rfl; simp at outside
  have notLast : y ≠ last := by rintro rfl; rw [ends] at outside; simp at outside
  simp [qrBeforeInsert, closed.2, notFirst, notLast, other]

/-- Inserting after the node a ring is read from puts the new node second. -/
theorem isRing_qrAfterInsert {a x : Nat} {rest : List Nat} (ring : links.IsRing (a :: rest))
    (fresh : x ∉ a :: rest) : (qrAfterInsert links a x).IsRing (a :: x :: rest) := by
  have aFresh : a ≠ x := by rintro rfl; simp at fresh
  cases rest with
  | nil =>
      have self := (Links.isRing_singleton.mp ring)
      have ends : [a] = [] ++ [a] := rfl
      refine ring.link ends fresh ?_ ?_ ?_ ?_ ?_ ?_
      · simp [qrAfterInsert]
      · simp [qrAfterInsert, self.1, aFresh.symm]
      · simp [qrAfterInsert, self.1, aFresh.symm]
      · simp [qrAfterInsert, self.1]
      · intro y member other
        exact absurd (List.mem_singleton.mp member) other
      · intro y member other
        exact absurd (List.mem_singleton.mp member) other
  | cons b rest =>
      have second := ring.next_first
      have distinct := ring.nodup
      have bFresh : b ≠ x := by rintro rfl; simp at fresh
      -- Read from the second node, the new node goes last.
      have rotated : links.IsRing (b :: (rest ++ [a])) := by
        simpa using Links.isRing_rotate.mp ring
      have linked : (qrAfterInsert links a x).IsRing (b :: (rest ++ [a]) ++ [x]) := by
        have ends : b :: (rest ++ [a]) = (b :: rest) ++ [a] := rfl
        refine rotated.link ends ?_ ?_ ?_ ?_ ?_ ?_ ?_
        · simp only [List.mem_cons, List.mem_append, List.not_mem_nil, or_false] at fresh ⊢
          tauto
        · simp [qrAfterInsert]
        · simp [qrAfterInsert, second, bFresh.symm]
        · simp [qrAfterInsert, second, aFresh.symm]
        · simp [qrAfterInsert, second]
        · intro y member notLast
          have old : y ≠ x := by rintro rfl; simp at fresh member; tauto
          simp [qrAfterInsert, notLast, old]
        · intro y member notFirst
          have old : y ≠ x := by rintro rfl; simp at fresh member; tauto
          simp [qrAfterInsert, second, notFirst, old]
      have reread : (qrAfterInsert links a x).IsRing ((b :: rest) ++ [a, x]) := by
        simpa using linked
      simpa using Links.isRing_append_comm.mp reread

/-- Removing the node a longer ring is read from leaves the rest of the ring. -/
theorem isRing_qrRemove {a b : Nat} {rest : List Nat} (ring : links.IsRing (a :: b :: rest)) :
    (qrRemove links a).IsRing (b :: rest) := by
  obtain ⟨front, last, ends⟩ : ∃ front last, b :: rest = front ++ [last] :=
    ⟨_, _, (List.dropLast_append_getLast (List.cons_ne_nil b rest)).symm⟩
  have closing : a :: b :: rest = (a :: front) ++ [last] := by rw [ends]; rfl
  have closed := ring.last_linked closing
  have second := ring.next_first
  have absent := (List.nodup_cons.mp ring.nodup).1
  have notSelf : ∀ y ∈ b :: rest, y ≠ a := by rintro y member rfl; exact absent member
  have lastMember : last ∈ b :: rest := by rw [ends]; simp
  refine ring.unlink ends ?_ ?_ ?_ ?_
  · simp [qrRemove, closed.2, second, notSelf last lastMember]
  · simp [qrRemove, closed.2, second, (notSelf last lastMember).symm, notSelf b (by simp)]
  · intro y member notLast
    simp [qrRemove, closed.2, notSelf y member, notLast]
  · intro y member notSecond
    simp [qrRemove, closed.2, second, notSelf y member, notSecond, (notSelf last lastMember).symm]

/-- Removing a ring's node touches that ring only. -/
theorem qrRemove_other {a b y : Nat} {rest : List Nat} (ring : links.IsRing (a :: b :: rest))
    (outside : y ∉ a :: b :: rest) :
    (qrRemove links a).next y = links.next y ∧ (qrRemove links a).prev y = links.prev y := by
  obtain ⟨front, last, ends⟩ : ∃ front last, b :: rest = front ++ [last] :=
    ⟨_, _, (List.dropLast_append_getLast (List.cons_ne_nil b rest)).symm⟩
  have closing : a :: b :: rest = (a :: front) ++ [last] := by rw [ends]; rfl
  have closed := ring.last_linked closing
  have second := ring.next_first
  have absent := (List.nodup_cons.mp ring.nodup).1
  have lastMember : last ∈ b :: rest := by rw [ends]; simp
  have lastSelf : last ≠ a := by rintro rfl; exact absent lastMember
  simp only [List.mem_cons, not_or] at outside
  have notLast : y ≠ last := by
    rintro rfl
    simp only [List.mem_cons] at lastMember
    tauto
  simp [qrRemove, closed.2, second, outside.1, outside.2.1, notLast, lastSelf.symm]

/-- A node that is taken out is linked to itself. -/
theorem isRing_qrRemove_self (links : Links Nat) (qr : Nat) : (qrRemove links qr).IsRing [qr] := by
  simp [Links.isRing_singleton, qrRemove]

/-- Taking out a node that is linked to itself does nothing. -/
theorem qrRemove_self {qr : Nat} (self : links.IsRing [qr]) : qrRemove links qr = links := by
  obtain ⟨next, prev⟩ := Links.isRing_singleton.mp self
  have stored : Function.update links.next qr qr = links.next :=
    (congrArg (Function.update links.next qr) next.symm).trans (Function.update_eq_self qr _)
  have stored' : Function.update links.prev qr qr = links.prev :=
    (congrArg (Function.update links.prev qr) prev.symm).trans (Function.update_eq_self qr _)
  simp only [qrRemove, Links.setNext, Links.setPrev, next, prev, stored, stored']

/-! ## Queues -/

/-- `ql_head_insert`: the new links and the new `qlh_first`. -/
def qlHeadInsert (links : Links Nat) (first elm : Nat) : Links Nat × Nat :=
  let links := if first ≠ 0 then qrBeforeInsert links first elm else links
  (links, elm)

/-- `ql_tail_insert`: the new `qlh_first` is read from the inserted element. -/
def qlTailInsert (links : Links Nat) (first elm : Nat) : Links Nat × Nat :=
  let links := if first ≠ 0 then qrBeforeInsert links first elm else links
  (links, links.next elm)

/-- `ql_remove`: the new links and the new `qlh_first`. -/
def qlRemove (links : Links Nat) (first elm : Nat) : Links Nat × Nat :=
  let first := if first = elm then links.next first else first
  if first ≠ elm then (qrRemove links elm, first) else (links, 0)

/-- The removal of a node that is linked to itself, and is not the head, does nothing. -/
theorem qlRemove_self {first elm : Nat} (self : links.IsRing [elm]) (outside : first ≠ elm) :
    qlRemove links first elm = (links, first) := by
  rw [qlRemove]
  simp only [if_neg outside]
  rw [if_pos outside, qrRemove_self self]

/-- `ql_last`. -/
def qlLast (links : Links Nat) (first : Nat) : Nat := if first ≠ 0 then links.prev first else 0

/-- `ql_next`: `NULL` for the last element. -/
def qlNext (links : Links Nat) (first elm : Nat) : Nat :=
  if qlLast links first ≠ elm then links.next elm else 0

/-- A queue pointer enters the ring of `elms` at its head, or is `NULL`. -/
structure IsQl (links : Links Nat) (first : Nat) (elms : List Nat) : Prop where
  nonnull : ∀ x ∈ elms, x ≠ 0
  first_eq : first = elms.headD 0
  ring : elms ≠ [] → links.IsRing elms

theorem isQl_nil (links : Links Nat) : IsQl links 0 [] where
  nonnull := by simp
  first_eq := rfl
  ring := fun empty => absurd rfl empty

/-- A node linked to itself is a queue. -/
theorem isQl_singleton {x : Nat} (nonnull : x ≠ 0) (next : links.next x = x)
    (prev : links.prev x = x) : IsQl links x [x] where
  nonnull := by simpa using nonnull
  first_eq := rfl
  ring := fun _ => Links.isRing_singleton.mpr ⟨next, prev⟩

namespace IsQl

variable {first x y : Nat} {elms : List Nat}

theorem nodup (ql : IsQl links first elms) : elms.Nodup := by
  cases elms with
  | nil => exact List.nodup_nil
  | cons a rest => exact (ql.ring (by simp)).nodup

/-- A queue is read from the links of its own elements. -/
theorem congr {links' : Links Nat} (ql : IsQl links first elms)
    (agree : ∀ z ∈ elms, links'.next z = links.next z ∧ links'.prev z = links.prev z) :
    IsQl links' first elms where
  nonnull := ql.nonnull
  first_eq := ql.first_eq
  ring := fun nonempty => (ql.ring nonempty).congr agree

theorem first_eq_zero_iff (ql : IsQl links first elms) : first = 0 ↔ elms = [] := by
  rw [ql.first_eq]
  cases elms with
  | nil => simp
  | cons a rest => simpa using ql.nonnull a (by simp)

/-- A queue pointer that is not `NULL` points at an element. -/
theorem first_mem (ql : IsQl links first elms) (nonnull : first ≠ 0) : first ∈ elms := by
  have entry := ql.first_eq
  cases elms with
  | nil => exact absurd entry nonnull
  | cons a rest =>
      rw [entry]
      exact List.mem_cons_self

/-- Two readings of one queue pointer agree. -/
theorem unique {other : List Nat} (ql : IsQl links first elms) (ql' : IsQl links first other) :
    elms = other := by
  cases elms with
  | nil => exact (ql'.first_eq_zero_iff.mp ql.first_eq).symm
  | cons a rest =>
      cases other with
      | nil => exact absurd (ql.first_eq_zero_iff.mp ql'.first_eq) (by simp)
      | cons b rest' =>
          have same : a = b := ql.first_eq.symm.trans ql'.first_eq
          subst same
          rw [(ql.ring (by simp)).unique (ql'.ring (by simp))]

/-- A self-linked element inserted at the head comes first. -/
theorem headInsert (ql : IsQl links first elms) (fresh : x ∉ elms) (nonnull : x ≠ 0)
    (self : links.IsRing [x]) :
    IsQl (qlHeadInsert links first x).1 (qlHeadInsert links first x).2 (x :: elms) where
  nonnull := by simpa [nonnull] using ql.nonnull
  first_eq := rfl
  ring := by
    intro _
    cases elms with
    | nil =>
        have empty : first = 0 := ql.first_eq
        simpa [qlHeadInsert, empty] using self
    | cons a rest =>
        have entry : first = a := ql.first_eq
        have present : a ≠ 0 := ql.nonnull a (by simp)
        have inserted := isRing_qrBeforeInsert (ql.ring (by simp)) fresh
        simpa [qlHeadInsert, entry, present] using Links.isRing_rotate.mpr inserted

/-- An element inserted at the tail comes last. Only an empty queue takes the element's
own links as they are, so only there must it be self-linked. -/
theorem tailInsert (ql : IsQl links first elms) (fresh : x ∉ elms) (nonnull : x ≠ 0)
    (self : elms = [] → links.IsRing [x]) :
    IsQl (qlTailInsert links first x).1 (qlTailInsert links first x).2 (elms ++ [x]) := by
  cases elms with
  | nil =>
      have empty : first = 0 := ql.first_eq
      have linked := self rfl
      refine ⟨by simpa using nonnull, ?_, fun _ => by simpa [qlTailInsert, empty] using linked⟩
      simp [qlTailInsert, empty, (Links.isRing_singleton.mp linked).1]
  | cons a rest =>
      have entry : first = a := ql.first_eq
      have present : a ≠ 0 := ql.nonnull a (by simp)
      have inserted := isRing_qrBeforeInsert (ql.ring (by simp)) fresh
      have follows : (qrBeforeInsert links a x).next x = a :=
        (Links.isRing_rotate.mpr inserted).next_first
      refine ⟨?_, ?_, fun _ => by simpa [qlTailInsert, entry, present] using inserted⟩
      · intro z member
        rcases List.mem_append.mp member with old | new
        · exact ql.nonnull z old
        · exact List.mem_singleton.mp new ▸ nonnull
      · simp [qlTailInsert, entry, present, follows]

/-- Head insertion touches the queue and the new element only. -/
theorem headInsert_other (ql : IsQl links first elms) (outside : y ∉ elms) (other : y ≠ x) :
    (qlHeadInsert links first x).1.next y = links.next y ∧
      (qlHeadInsert links first x).1.prev y = links.prev y := by
  cases elms with
  | nil =>
      have empty : first = 0 := ql.first_eq
      simp [qlHeadInsert, empty]
  | cons a rest =>
      have entry : first = a := ql.first_eq
      have present : a ≠ 0 := ql.nonnull a (by simp)
      simpa [qlHeadInsert, entry, present] using qrBeforeInsert_other (ql.ring (by simp)) outside other

/-- Tail insertion touches the same links as head insertion. -/
theorem tailInsert_other (ql : IsQl links first elms) (outside : y ∉ elms) (other : y ≠ x) :
    (qlTailInsert links first x).1.next y = links.next y ∧
      (qlTailInsert links first x).1.prev y = links.prev y :=
  ql.headInsert_other outside other

/-- `ql_last` of a queue is the node before its head. -/
theorem qlLast_eq {a : Nat} {rest : List Nat} (ql : IsQl links first (a :: rest)) :
    qlLast links first = links.prev a := by
  have entry : first = a := ql.first_eq
  have present : a ≠ 0 := ql.nonnull a List.mem_cons_self
  rw [qlLast, entry, if_pos present]

/-- `ql_next` of an element is `NULL` or an element behind the head. -/
theorem qlNext_mem {a : Nat} {rest : List Nat} (ql : IsQl links first (a :: rest))
    (member : x ∈ a :: rest) : qlNext links first x = 0 ∨ qlNext links first x ∈ rest := by
  have ring := ql.ring (List.cons_ne_nil a rest)
  rw [qlNext, ql.qlLast_eq]
  split
  · rename_i notLast
    rcases List.mem_cons.mp (ring.next_mem member) with atHead | behind
    · have back := ring.prev_next member
      rw [atHead] at back
      exact absurd back notLast
    · exact .inr behind
  · exact .inl rfl

/-- `ql_next` of the head is the second element. -/
theorem qlNext_head {a b : Nat} {rest : List Nat} (ql : IsQl links first (a :: b :: rest)) :
    qlNext links first a = b := by
  have ring := ql.ring (List.cons_ne_nil a (b :: rest))
  have second := ring.next_first
  have different : links.prev a ≠ a := by
    intro self
    have back := ring.prev_next (ring.prev_mem List.mem_cons_self)
    have forth : links.next (links.prev a) = a := by
      obtain ⟨front, last, ends⟩ : ∃ front last, a :: b :: rest = front ++ [last] :=
        ⟨_, _, (List.dropLast_append_getLast (List.cons_ne_nil a (b :: rest))).symm⟩
      rw [(ring.last_linked ends).2, (ring.last_linked ends).1]
    rw [self, second] at forth
    have distinct := ring.nodup
    rw [forth] at distinct
    simp at distinct
  rw [qlNext, ql.qlLast_eq, if_pos different, second]

/-- `ql_next` of a node that is linked to itself and not on the queue is that node. -/
theorem qlNext_self {a : Nat} {rest : List Nat} (ql : IsQl links first (a :: rest))
    (outside : x ∉ a :: rest) (self : links.IsRing [x]) : qlNext links first x = x := by
  have ring := ql.ring (List.cons_ne_nil a rest)
  have different : links.prev a ≠ x := by
    intro same
    exact outside (same ▸ ring.prev_mem List.mem_cons_self)
  rw [qlNext, ql.qlLast_eq, if_pos different]
  exact (Links.isRing_singleton.mp self).1

/-- The step of `ql_foreach` goes to the element behind, and to `NULL` from the last one. -/
theorem foreach_next {front rest : List Nat} (ql : IsQl links first (front ++ x :: rest)) :
    (if links.next x ≠ first then links.next x else 0) = rest.headD 0 := by
  have ring := ql.ring (by simp)
  -- Read from the element, the ring is the elements behind it and then those before it.
  have reread : links.IsRing (x :: (rest ++ front)) := by
    simpa using Links.isRing_append_comm.mp ring
  have entry := ql.first_eq
  cases rest with
  | cons b rest =>
      have behind : links.next x = b := reread.next_first
      have distinct := ring.nodup
      have notFirst : links.next x ≠ first := by
        rw [behind, entry]
        cases front with
        | nil =>
            rintro rfl
            simp at distinct
        | cons a front =>
            rintro rfl
            simp at distinct
      rw [if_pos notFirst, behind]
      rfl
  | nil =>
      have closed : links.next x = first := by
        cases front with
        | nil => exact (Links.isRing_singleton.mp reread).1.trans entry.symm
        | cons a front => exact reread.next_first.trans entry.symm
      rw [if_neg (not_not.mpr closed)]
      rfl

/-- An element that is removed is linked to itself. -/
theorem removed_self (ql : IsQl links first elms) (member : x ∈ elms) :
    (qlRemove links first x).1.IsRing [x] := by
  have ring := ql.ring (List.ne_nil_of_mem member)
  by_cases alone : (if first = x then links.next first else first) = x
  · -- The one element of the queue is a ring of its own.
    have self : links.next x = x := by
      split at alone
      · rename_i atHead
        rwa [atHead] at alone
      · exact absurd alone ‹_›
    obtain ⟨front, back, rfl⟩ := List.append_of_mem member
    have reread : links.IsRing (x :: (back ++ front)) := by
      simpa using Links.isRing_append_comm.mp ring
    rw [reread.next_first_eq_self_iff] at self
    rw [self] at reread
    simpa only [qlRemove, if_neg (not_not.mpr alone)] using reread
  · simpa only [qlRemove, if_pos alone] using isRing_qrRemove_self links x

/-- Removing an element leaves the others in order. -/
theorem remove (ql : IsQl links first elms) (member : x ∈ elms) :
    IsQl (qlRemove links first x).1 (qlRemove links first x).2 (elms.erase x) := by
  have nonnull : ∀ z ∈ elms.erase x, z ≠ 0 := fun z inRest => ql.nonnull z (List.mem_of_mem_erase inRest)
  have ring := ql.ring (List.ne_nil_of_mem member)
  cases elms with
  | nil => simp at member
  | cons a rest =>
      have entry : first = a := ql.first_eq
      by_cases atHead : a = x
      · subst atHead
        cases rest with
        | nil =>
            have self : links.next a = a := (Links.isRing_singleton.mp ring).1
            simpa [qlRemove, entry, self] using isQl_nil links
        | cons b rest =>
            have second : links.next a = b := ring.next_first
            have different : b ≠ a := by
              rintro rfl
              simpa using ring.nodup
            refine ⟨nonnull, ?_, fun _ => ?_⟩
            · simp [qlRemove, entry, second, different]
            · simpa [qlRemove, entry, second, different] using isRing_qrRemove ring
      · obtain ⟨front, back, split⟩ := List.append_of_mem ((List.mem_cons.mp member).resolve_left (Ne.symm atHead))
        subst split
        have distinct := ring.nodup
        -- Read from the leaving element, the ring is that element and then the rest.
        have reread : links.IsRing (x :: (back ++ a :: front)) := by
          have cut : links.IsRing ((a :: front) ++ (x :: back)) := by simpa using ring
          simpa using Links.isRing_append_comm.mp cut
        have removed : (qrRemove links x).IsRing (back ++ a :: front) := by
          cases back with
          | nil => exact isRing_qrRemove reread
          | cons b back => exact isRing_qrRemove reread
        have restored : (qrRemove links x).IsRing (a :: (front ++ back)) := by
          simpa using Links.isRing_append_comm.mp removed
        have absent : x ∉ front := by
          simp only [List.nodup_cons, List.nodup_append, List.mem_cons] at distinct
          intro inFront
          exact distinct.2.2.2 x inFront x (.inl rfl) rfl
        have rest : (a :: (front ++ x :: back)).erase x = a :: (front ++ back) := by
          simp [atHead, List.erase_append_right _ absent]
        rw [rest] at nonnull ⊢
        refine ⟨nonnull, ?_, fun _ => ?_⟩
        · simp [qlRemove, entry, atHead]
        · simpa [qlRemove, entry, atHead] using restored

/-- Removal touches the queue only. -/
theorem remove_other (ql : IsQl links first elms) (member : x ∈ elms) (outside : y ∉ elms) :
    (qlRemove links first x).1.next y = links.next y ∧
      (qlRemove links first x).1.prev y = links.prev y := by
  have ring := ql.ring (List.ne_nil_of_mem member)
  obtain ⟨front, back, rfl⟩ := List.append_of_mem member
  have reread : links.IsRing (x :: (back ++ front)) := by
    simpa using Links.isRing_append_comm.mp ring
  have outside' : y ∉ x :: (back ++ front) := by
    simp only [List.mem_append, List.mem_cons] at outside ⊢
    tauto
  have removed : (qrRemove links x).next y = links.next y ∧
      (qrRemove links x).prev y = links.prev y := by
    cases rest : back ++ front with
    | nil =>
        rw [rest] at reread outside'
        have self := Links.isRing_singleton.mp reread
        simp only [List.mem_singleton] at outside'
        simp [qrRemove, self.1, self.2, outside']
    | cons b others =>
        rw [rest] at reread outside'
        exact qrRemove_other reread outside'
  have outcome : (qlRemove links first x).1 = qrRemove links x ∨ (qlRemove links first x).1 = links := by
    simp only [qlRemove]
    by_cases stays : (if first = x then links.next first else first) ≠ x
    · exact .inl (by rw [if_pos stays])
    · exact .inr (by rw [if_neg stays])
  rcases outcome with same | same
  · rw [same]
    exact removed
  · rw [same]
    exact ⟨rfl, rfl⟩

end IsQl

end Lsmalloc
