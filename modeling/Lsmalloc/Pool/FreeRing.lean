import Mathlib.Data.List.Perm.Subperm
import Lsmalloc.Pool.Model

/-!
# The free ring is a first-in first-out queue

`FreeRing pp free` reads the ring of a pool as a queue of addresses: from the
cursor on, skipping the one sentinel. Wherever the sentinel lies, popping takes
the front of the queue, freeing appends to its back, and growing an empty pool
fills it with the chunks of the new mapping in ascending order.
-/

namespace Lsmalloc

/-- The free ring is well formed, holds one sentinel, and reads as `free`. -/
structure FreeRing (pp : Pmempool) (free : List Nat) : Prop where
  reads : ∃ rest front back, pp.flLink.IsRing (pp.flNow :: rest) ∧
    (∀ n ∈ pp.flNow :: rest, n < pp.flNodes) ∧
    (pp.flNow :: rest).map pp.flPaddr = front ++ 0 :: back ∧
    free = front ++ back ∧ 0 ∉ free

/-- The file ring is well formed and lists `maps` after its sentinel. -/
structure FileRing (pp : Pmempool) (maps : List Nat) : Prop where
  reads : ∃ rest, pp.fileLink.IsRing (pp.file :: rest) ∧
    (∀ n ∈ pp.file :: rest, n < pp.fileNodes) ∧ rest.map pp.poolPaddr = maps

/-- Distinct node numbers below a bound are no more than the bound. -/
theorem length_le_of_named {nodes : List Nat} {bound : Nat} (distinct : nodes.Nodup)
    (named : ∀ n ∈ nodes, n < bound) : nodes.length ≤ bound := by
  have inRange : nodes ⊆ List.range bound := fun n member => List.mem_range.mpr (named n member)
  simpa using (List.Nodup.subperm distinct inRange).length_le

/-- What `freeAddrs` computes of a well-formed free ring. -/
theorem FreeRing.freeAddrs_eq {pp : Pmempool} {free : List Nat} (ring : FreeRing pp free) :
    pp.freeAddrs = free := by
  obtain ⟨rest, front, back, isRing, named, addrs, rfl, nonnull⟩ := ring.reads
  have enough : rest.length ≤ pp.flNodes := by
    have bound := length_le_of_named isRing.nodup named
    simp only [List.length_cons] at bound
    omega
  simp only [List.mem_append, not_or] at nonnull
  have skip : ∀ l : List Nat, 0 ∉ l → l.filter (· ≠ 0) = l := by
    intro l absent
    rw [List.filter_eq_self]
    intro x member
    simp only [decide_eq_true_eq]
    rintro rfl
    exact absent member
  rw [Pmempool.freeAddrs, Pmempool.freeNodes, isRing.walk_eq enough, addrs, List.filter_append,
    List.filter_cons_of_neg (by simp), skip front nonnull.1, skip back nonnull.2]

/-- What `mappings` computes of a well-formed file ring. -/
theorem FileRing.mappings_eq {pp : Pmempool} {maps : List Nat} (ring : FileRing pp maps) :
    pp.mappings = maps := by
  obtain ⟨rest, isRing, named, addrs⟩ := ring.reads
  have enough : rest.length ≤ pp.fileNodes := by
    have bound := length_le_of_named isRing.nodup named
    simp only [List.length_cons] at bound
    omega
  rw [Pmempool.mappings, isRing.walk_eq enough, List.tail_cons, addrs]

/-! ## Free and pop -/

/-- `pmempool_free` appends to the queue. -/
theorem FreeRing.free {pp : Pmempool} {free : List Nat} (ring : FreeRing pp free) {ptr : Nat}
    (nonnull : ptr ≠ 0) : FreeRing (pmempoolFree pp ptr) (free ++ [ptr]) := by
  obtain ⟨rest, front, back, isRing, named, addrs, rfl, noNull⟩ := ring.reads
  have fresh : pp.flNodes ∉ pp.flNow :: rest := fun member =>
    Nat.lt_irrefl _ (named _ member)
  have old : ∀ n ∈ pp.flNow :: rest, n ≠ pp.flNodes := by
    rintro n member rfl
    exact fresh member
  have kept : (qrNew pp.flLink pp.flNodes).IsRing (pp.flNow :: rest) :=
    isRing.congr fun n member => qrNew_other (old n member)
  refine ⟨rest ++ [pp.flNodes], front, back ++ [ptr], ?_, ?_, ?_, by simp, ?_⟩
  · exact isRing_qrBeforeInsert kept fresh
  · intro n member
    rw [← List.cons_append] at member
    rcases List.mem_append.mp member with before | new
    · exact Nat.lt_succ_of_lt (named n before)
    · rw [List.mem_singleton.mp new]
      exact Nat.lt_succ_self _
  · have same : (pp.flNow :: rest).map (Function.update pp.flPaddr pp.flNodes ptr) =
        (pp.flNow :: rest).map pp.flPaddr :=
      List.map_congr_left fun n member => Function.update_of_ne (old n member) _ _
    change ((pp.flNow :: rest) ++ [pp.flNodes]).map (Function.update pp.flPaddr pp.flNodes ptr) = _
    rw [List.map_append, same, addrs]
    simp
  · simp only [List.mem_append, List.mem_singleton, not_or] at noNull ⊢
    exact ⟨noNull, nonnull.symm⟩

/-- Taking the node under the cursor out of the ring, when it is not the sentinel. -/
theorem FreeRing.pop_front {pp : Pmempool} {a x : Nat} {free rest front back : List Nat}
    (isRing : pp.flLink.IsRing (x :: rest)) (named : ∀ n ∈ x :: rest, n < pp.flNodes)
    (addrs : (x :: rest).map pp.flPaddr = a :: (front ++ 0 :: back)) (reads : free = front ++ back)
    (noNull : 0 ∉ free) :
    FreeRing { pp with
      flNow := pp.flLink.next x
      flLink := qrRemove pp.flLink x
      chunkUsed := pp.chunkUsed + 1 } free := by
  cases rest with
  | nil => simp at addrs
  | cons b rest =>
      have second : pp.flLink.next x = b := isRing.next_first
      refine ⟨rest, front, back, ?_, ?_, ?_, reads, noNull⟩
      · simpa [second] using isRing_qrRemove isRing
      · intro n member
        rw [second] at member
        exact named n (List.mem_cons_of_mem _ member)
      · rw [second]
        exact (List.cons.inj addrs).2

/-- Popping takes the front of the queue, whether or not the cursor is on the
sentinel. -/
theorem FreeRing.pop {pp : Pmempool} {a : Nat} {free : List Nat} (ring : FreeRing pp (a :: free)) :
    (popFree pp).1 = a ∧ FreeRing (popFree pp).2 free := by
  obtain ⟨rest, front, back, isRing, named, addrs, reads, noNull⟩ := ring.reads
  have aNonnull : a ≠ 0 := by rintro rfl; simp at noNull
  have freeNonnull : 0 ∉ free := fun member => noNull (List.mem_cons_of_mem _ member)
  cases front with
  | nil =>
      -- The cursor is on the sentinel: the node after it is the front.
      simp only [List.nil_append] at addrs reads
      subst reads
      cases rest with
      | nil => simp at addrs
      | cons b rest =>
          have atSentinel : pp.flPaddr pp.flNow = 0 := (List.cons.inj addrs).1
          have later : (b :: rest).map pp.flPaddr = a :: free := (List.cons.inj addrs).2
          have second : pp.flLink.next pp.flNow = b := isRing.next_first
          have frontAddr : pp.flPaddr b = a := (List.cons.inj later).1
          have rotated : pp.flLink.IsRing (b :: (rest ++ [pp.flNow])) := by
            simpa using Links.isRing_rotate.mp isRing
          have stillNamed : ∀ n ∈ b :: (rest ++ [pp.flNow]), n < pp.flNodes := by
            intro n member
            apply named n
            simp only [List.mem_cons, List.mem_append, List.not_mem_nil, or_false] at member ⊢
            tauto
          have reread : (b :: (rest ++ [pp.flNow])).map pp.flPaddr = a :: (free ++ 0 :: []) := by
            simp [frontAddr, (List.cons.inj later).2, atSentinel]
          have popped := FreeRing.pop_front rotated stillNamed reread (by simp) freeNonnull
          constructor
          · simp [popFree, atSentinel, second, frontAddr]
          · simpa [popFree, atSentinel, second] using popped
  | cons head front =>
      simp only [List.cons_append, List.cons.injEq] at reads
      obtain ⟨rfl, reads⟩ := reads
      have atFront : pp.flPaddr pp.flNow = a := (List.cons.inj addrs).1
      have notSentinel : pp.flPaddr pp.flNow ≠ 0 := by rw [atFront]; exact aNonnull
      have popped := FreeRing.pop_front isRing named addrs reads freeNonnull
      constructor
      · simpa [popFree, notSentinel] using atFront
      · simpa [popFree, notSentinel] using popped

/-- The exhaustion test: the ring is one node exactly when the queue is empty. -/
theorem FreeRing.exhausted_iff {pp : Pmempool} {free : List Nat} (ring : FreeRing pp free) :
    pp.flLink.next pp.flNow = pp.flNow ↔ free = [] := by
  obtain ⟨rest, front, back, isRing, _, addrs, rfl, _⟩ := ring.reads
  rw [isRing.next_first_eq_self_iff]
  have lengths := congrArg List.length addrs
  simp only [List.length_map, List.length_cons, List.length_append] at lengths
  rw [← List.length_eq_zero_iff, ← List.length_eq_zero_iff, List.length_append]
  omega

end Lsmalloc
