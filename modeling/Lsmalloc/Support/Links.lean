import Mathlib.Data.List.Chain
import Mathlib.Data.List.Nodup
import Mathlib.Logic.Function.Basic

/-!
# Doubly linked rings

`Links` are the forward and backward pointers of a set of nodes. `IsRing` says
that a list of distinct nodes, read in order and closed at its end, is linked
both ways. The surgery rules describe the ring after one node is linked in or
out, from what the changed pointers are and that no other pointer of the ring
changed; `walk` reads the ring back.
-/

/-- The next and previous pointers of every node. -/
structure Links (α : Type*) where
  next : α → α
  prev : α → α

namespace Links

variable {α : Type*}

/-- `x` and `y` are linked to each other, `x` first. -/
def Linked (links : Links α) (x y : α) : Prop :=
  links.next x = y ∧ links.prev y = x

/-- The nodes are distinct and, read in order, form a closed chain. -/
def IsRing (links : Links α) : List α → Prop
  | [] => False
  | a :: rest => (a :: rest).Nodup ∧ (a :: (rest ++ [a])).IsChain links.Linked

theorem IsRing.nodup {links : Links α} {nodes : List α} (ring : links.IsRing nodes) :
    nodes.Nodup := by
  cases nodes with
  | nil => exact ring.elim
  | cons a rest => exact ring.1

/-- A ring is determined by the pointers of its own nodes. -/
theorem IsRing.congr {links links' : Links α} {nodes : List α} (ring : links.IsRing nodes)
    (agree : ∀ x ∈ nodes, links'.next x = links.next x ∧ links'.prev x = links.prev x) :
    links'.IsRing nodes := by
  cases nodes with
  | nil => exact ring.elim
  | cons a rest =>
      refine ⟨ring.1, ring.2.imp_of_mem_imp ?_⟩
      intro x y xMember yMember linked
      have inRing : ∀ z, z ∈ a :: (rest ++ [a]) → z ∈ a :: rest := by
        intro z member
        simp only [List.mem_cons, List.mem_append, List.not_mem_nil, or_false] at member ⊢
        tauto
      exact ⟨(agree x (inRing x xMember)).1.trans linked.1,
        (agree y (inRing y yMember)).2.trans linked.2⟩

/-- A ring of one node is linked to itself. -/
theorem isRing_singleton {links : Links α} {a : α} :
    links.IsRing [a] ↔ links.next a = a ∧ links.prev a = a := by
  simp [IsRing, Linked]

/-- The first node of a longer ring points at the second. -/
theorem IsRing.next_first {links : Links α} {a b : α} {rest : List α}
    (ring : links.IsRing (a :: b :: rest)) : links.next a = b := by
  have chain := ring.2
  rw [List.cons_append, List.isChain_cons_cons] at chain
  exact chain.1.1

/-- Only a ring of one node has a first node that points at itself. -/
theorem IsRing.next_first_eq_self_iff {links : Links α} {a : α} {rest : List α}
    (ring : links.IsRing (a :: rest)) : links.next a = a ↔ rest = [] := by
  constructor
  · intro self
    cases rest with
    | nil => rfl
    | cons b rest =>
        have different : a ≠ b := by
          have distinct := ring.nodup
          simp only [List.nodup_cons, List.mem_cons, not_or] at distinct
          exact distinct.1.1
        exact absurd (self.symm.trans ring.next_first) different
  · rintro rfl
    exact (isRing_singleton.mp ring).1

/-- Read the same ring from its second node. -/
theorem isRing_rotate {links : Links α} {a : α} {rest : List α} :
    links.IsRing (a :: rest) ↔ links.IsRing (rest ++ [a]) := by
  cases rest with
  | nil => simp
  | cons b rest =>
      simp only [IsRing, List.cons_append]
      constructor
      · rintro ⟨distinct, chain⟩
        rw [List.isChain_cons_cons] at chain
        refine ⟨(List.perm_append_singleton a (b :: rest)).symm.nodup distinct, ?_⟩
        have closing : (b :: rest ++ [a] ++ [b]).IsChain links.Linked := by
          rw [List.append_assoc]
          exact List.isChain_append_cons_cons.mpr ⟨chain.2, chain.1, List.isChain_singleton _⟩
        simpa using closing
      · rintro ⟨distinct, chain⟩
        have perm := List.perm_append_singleton a (b :: rest)
        refine ⟨perm.nodup distinct, ?_⟩
        have closing : (b :: rest ++ a :: b :: []).IsChain links.Linked := by
          simpa using chain
        obtain ⟨opened, linked, _⟩ := List.isChain_append_cons_cons.mp closing
        exact List.isChain_cons_cons.mpr ⟨linked, opened⟩

/-- Read the same ring from any later node. -/
theorem isRing_append_comm {links : Links α} {front back : List α} :
    links.IsRing (front ++ back) ↔ links.IsRing (back ++ front) := by
  induction front generalizing back with
  | nil => simp
  | cons a front ih =>
      rw [List.cons_append, isRing_rotate, List.append_assoc, ih, List.append_assoc]
      rfl

/-- The last node of a ring points back at the first, and the first at the last. -/
theorem IsRing.last_linked {links : Links α} {front : List α} {last : α} {a : α} {rest : List α}
    (ring : links.IsRing (a :: rest)) (ends : a :: rest = front ++ [last]) :
    links.next last = a ∧ links.prev a = last := by
  have chain := ring.2
  rw [← List.cons_append, ends, List.append_assoc] at chain
  exact (List.isChain_append_cons_cons.mp chain).2.1

/-- The neighbours of a node of a ring are nodes of the ring. -/
theorem IsRing.neighbours {links : Links α} {nodes : List α} {x : α} (ring : links.IsRing nodes)
    (member : x ∈ nodes) : links.next x ∈ nodes ∧ links.prev x ∈ nodes := by
  obtain ⟨front, back, rfl⟩ := List.append_of_mem member
  -- Read from `x`, the ring is `x`, the nodes behind it, and those before it.
  have reread : links.IsRing (x :: (back ++ front)) := by
    simpa using isRing_append_comm.mp ring
  have whole : ∀ y, y ∈ x :: (back ++ front) → y ∈ front ++ x :: back := by
    intro y
    simp only [List.mem_cons, List.mem_append]
    tauto
  obtain ⟨init, last, ends⟩ : ∃ init last, x :: (back ++ front) = init ++ [last] :=
    ⟨_, _, (List.dropLast_append_getLast (List.cons_ne_nil _ _)).symm⟩
  constructor
  · apply whole
    cases rest : back ++ front with
    | nil =>
        rw [rest] at reread
        simp [(isRing_singleton.mp reread).1]
    | cons b rest' =>
        rw [rest] at reread
        simp [reread.next_first]
  · apply whole
    rw [(reread.last_linked ends).2, ends]
    simp

theorem IsRing.next_mem {links : Links α} {nodes : List α} {x : α} (ring : links.IsRing nodes)
    (member : x ∈ nodes) : links.next x ∈ nodes :=
  (ring.neighbours member).1

theorem IsRing.prev_mem {links : Links α} {nodes : List α} {x : α} (ring : links.IsRing nodes)
    (member : x ∈ nodes) : links.prev x ∈ nodes :=
  (ring.neighbours member).2

/-- The node a node of a ring points at points back at it. -/
theorem IsRing.prev_next {links : Links α} {nodes : List α} {x : α} (ring : links.IsRing nodes)
    (member : x ∈ nodes) : links.prev (links.next x) = x := by
  obtain ⟨front, back, rfl⟩ := List.append_of_mem member
  have reread : links.IsRing (x :: (back ++ front)) := by
    simpa using isRing_append_comm.mp ring
  cases rest : back ++ front with
  | nil =>
      rw [rest] at reread
      simp [isRing_singleton.mp reread]
  | cons b rest' =>
      rw [rest] at reread
      have chain := reread.2
      rw [List.cons_append, List.isChain_cons_cons] at chain
      rw [chain.1.1]
      exact chain.1.2

/-- The chain a ring becomes when it is opened before its first node. -/
theorem IsRing.opened {links : Links α} {a : α} {rest : List α} (ring : links.IsRing (a :: rest)) :
    (a :: rest).IsChain links.Linked := by
  have chain := ring.2
  rw [← List.cons_append] at chain
  exact (List.isChain_append.mp chain).1

/-- A chain of distinct nodes uses neither the next pointer of its last node nor
the previous pointer of its first. -/
theorem chain_congr {links links' : Links α} {front rest : List α} {a last : α}
    (distinct : (a :: rest).Nodup) (chain : (a :: rest).IsChain links.Linked)
    (ends : a :: rest = front ++ [last])
    (nextSame : ∀ y ∈ a :: rest, y ≠ last → links'.next y = links.next y)
    (prevSame : ∀ y ∈ a :: rest, y ≠ a → links'.prev y = links.prev y) :
    (a :: rest).IsChain links'.Linked := by
  rw [List.isChain_iff_forall_rel_of_append_cons_cons] at chain ⊢
  intro x y before after split
  have linked := chain split
  have xMember : x ∈ a :: rest := by rw [split]; simp
  have yMember : y ∈ a :: rest := by rw [split]; simp
  -- `x` has a successor inside the list, so it is not the last node.
  have xNotLast : x ≠ last := by
    rintro rfl
    have lastLater : (y :: after).getLast (by simp) = x := by
      have ending : (a :: rest).getLast (by simp) = x := by simp [ends]
      simpa [split] using ending
    rw [split] at distinct
    have later : x ∈ y :: after := lastLater ▸ List.getLast_mem _
    exact (List.nodup_cons.mp (List.nodup_append.mp distinct).2.1).1 later
  -- `y` has a predecessor inside the list, so it is not the first node.
  have yNotFirst : y ≠ a := by
    rintro rfl
    rw [split] at distinct
    cases before with
    | nil =>
        have same : y = x := by simpa using congrArg List.head? split
        subst same
        simp at distinct
    | cons head before =>
        have same : y = head := by simpa using congrArg List.head? split
        subst same
        simp at distinct
  exact ⟨(nextSame x xMember xNotLast).trans linked.1, (prevSame y yMember yNotFirst).trans linked.2⟩

/-- **Link in.** A new node between the last node and the first: its own two
pointers and the two that now point at it. -/
theorem IsRing.link {links links' : Links α} {front rest : List α} {a last x : α}
    (ring : links.IsRing (a :: rest)) (ends : a :: rest = front ++ [last])
    (fresh : x ∉ a :: rest)
    (nextLast : links'.next last = x) (prevNew : links'.prev x = last)
    (nextNew : links'.next x = a) (prevFirst : links'.prev a = x)
    (nextSame : ∀ y ∈ a :: rest, y ≠ last → links'.next y = links.next y)
    (prevSame : ∀ y ∈ a :: rest, y ≠ a → links'.prev y = links.prev y) :
    links'.IsRing (a :: rest ++ [x]) := by
  have distinct : (a :: rest ++ [x]).Nodup := by
    rw [List.nodup_append]
    refine ⟨ring.nodup, by simp, ?_⟩
    intro y member z isNew same
    simp only [List.mem_singleton] at isNew
    exact fresh (isNew ▸ same ▸ member)
  refine ⟨distinct, ?_⟩
  have kept : (front ++ [last]).IsChain links'.Linked := by
    rw [← ends]
    exact chain_congr ring.nodup ring.opened ends nextSame prevSame
  have closing : (front ++ last :: x :: [a]).IsChain links'.Linked :=
    List.isChain_append_cons_cons.mpr ⟨kept, ⟨nextLast, prevNew⟩, by simp [Linked, nextNew, prevFirst]⟩
  have shape : a :: (rest ++ [x] ++ [a]) = front ++ last :: x :: [a] := by
    have reshaped : (a :: rest) ++ [x, a] = front ++ [last] ++ [x, a] := by rw [ends]
    simpa using reshaped
  exact shape ▸ closing

/-- **Link out.** The first node leaves: the last node and the second now point
at each other. -/
theorem IsRing.unlink {links links' : Links α} {front rest : List α} {a b last : α}
    (ring : links.IsRing (a :: b :: rest)) (ends : b :: rest = front ++ [last])
    (nextLast : links'.next last = b) (prevSecond : links'.prev b = last)
    (nextSame : ∀ y ∈ b :: rest, y ≠ last → links'.next y = links.next y)
    (prevSame : ∀ y ∈ b :: rest, y ≠ b → links'.prev y = links.prev y) :
    links'.IsRing (b :: rest) := by
  have distinct : (b :: rest).Nodup := (List.nodup_cons.mp ring.nodup).2
  refine ⟨distinct, ?_⟩
  -- Rotating puts the leaving node at the end, where opening the ring drops it.
  have rotated : links.IsRing (b :: (rest ++ [a])) := by
    simpa using isRing_rotate.mp ring
  have opened : (b :: rest).IsChain links.Linked := by
    have chain := rotated.opened
    rw [← List.cons_append] at chain
    exact (List.isChain_append.mp chain).1
  have kept : (front ++ [last]).IsChain links'.Linked := by
    rw [← ends]
    exact chain_congr distinct opened ends nextSame prevSame
  have closing : (front ++ last :: b :: []).IsChain links'.Linked :=
    List.isChain_append_cons_cons.mpr ⟨kept, ⟨nextLast, prevSecond⟩, List.isChain_singleton _⟩
  have shape : b :: (rest ++ [b]) = front ++ last :: b :: [] := by
    have reshaped : (b :: rest) ++ [b] = front ++ [last] ++ [b] := by rw [ends]
    simpa using reshaped
  exact shape ▸ closing

/-! ## Reading a ring -/

section Walk

variable [DecidableEq α]

/-- The nodes met from `x` by following next pointers, up to `stop` and no more
than the given number of them. -/
def walkUntil (links : Links α) (stop : α) : Nat → α → List α
  | 0, _ => []
  | count + 1, x => if x = stop then [] else x :: walkUntil links stop count (links.next x)

/-- The nodes met once round the ring of `a`. -/
def walk (links : Links α) (a : α) (count : Nat) : List α :=
  a :: links.walkUntil a count (links.next a)

/-- Following a chain to its stop collects the nodes before the stop. -/
theorem walkUntil_of_chain {links : Links α} {stop x : α} {nodes : List α} {count : Nat}
    (chain : (nodes ++ [stop]).IsChain links.Linked) (starts : (nodes ++ [stop]).head? = some x)
    (absent : stop ∉ nodes) (enough : nodes.length ≤ count) :
    links.walkUntil stop count x = nodes := by
  induction nodes generalizing x count with
  | nil =>
      have atStop : x = stop := by simpa using starts.symm
      cases count <;> simp [walkUntil, atStop]
  | cons y nodes ih =>
      have atHead : x = y := by simpa using starts.symm
      subst atHead
      simp only [List.mem_cons, not_or] at absent
      obtain ⟨count, rfl⟩ : ∃ fewer, count = fewer + 1 :=
        Nat.exists_eq_succ_of_ne_zero (by simp at enough; omega)
      have follows : (nodes ++ [stop]).head? = some (links.next x) := by
        cases nodes with
        | nil =>
            simp only [List.nil_append, List.cons_append, List.isChain_cons_cons] at chain
            simp [chain.1.1]
        | cons z nodes =>
            simp only [List.cons_append, List.isChain_cons_cons] at chain
            simp [chain.1.1]
      have rest : (nodes ++ [stop]).IsChain links.Linked := by
        rw [List.cons_append] at chain
        exact chain.tail
      rw [walkUntil, if_neg (Ne.symm absent.1),
        ih rest follows absent.2 (by simpa using enough)]

/-- Walking a ring reads its nodes in order. -/
theorem IsRing.walk_eq {links : Links α} {a : α} {rest : List α} {count : Nat}
    (ring : links.IsRing (a :: rest)) (enough : rest.length ≤ count) :
    links.walk a count = a :: rest := by
  have absent : a ∉ rest := (List.nodup_cons.mp ring.nodup).1
  have chain : (rest ++ [a]).IsChain links.Linked := ring.2.tail
  have follows : (rest ++ [a]).head? = some (links.next a) := by
    cases rest with
    | nil => simp [(isRing_singleton.mp ring).1]
    | cons b rest => simp [ring.next_first]
  rw [walk, walkUntil_of_chain chain follows absent enough]

/-- Two rings through one node are the same ring. -/
theorem IsRing.unique {links : Links α} {a : α} {rest other : List α}
    (ring : links.IsRing (a :: rest)) (ring' : links.IsRing (a :: other)) : rest = other := by
  have left := ring.walk_eq (Nat.le_max_left rest.length other.length)
  have right := ring'.walk_eq (Nat.le_max_right rest.length other.length)
  exact (List.cons.inj (left.symm.trans right)).2

end Walk

/-! ## Pointer stores -/

section Store

variable [DecidableEq α]

/-- Store a next pointer. -/
def setNext (links : Links α) (x y : α) : Links α :=
  { links with next := Function.update links.next x y }

/-- Store a previous pointer. -/
def setPrev (links : Links α) (x y : α) : Links α :=
  { links with prev := Function.update links.prev x y }

@[simp] theorem setNext_next (links : Links α) (x y z : α) :
    (links.setNext x y).next z = if z = x then y else links.next z := by
  simp [setNext, Function.update_apply]

@[simp] theorem setNext_prev (links : Links α) (x y : α) :
    (links.setNext x y).prev = links.prev := rfl

@[simp] theorem setPrev_prev (links : Links α) (x y z : α) :
    (links.setPrev x y).prev z = if z = x then y else links.prev z := by
  simp [setPrev, Function.update_apply]

@[simp] theorem setPrev_next (links : Links α) (x y : α) :
    (links.setPrev x y).next = links.next := rfl

end Store

end Links
