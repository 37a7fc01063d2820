import Mathlib.Data.Nat.Digits.Lemmas

/-!
# Numerals

A numeral is a list of digits, the most significant first. `Numeral.digits` has no leading zero,
and `Numeral.value` reads it back by Horner's rule.
-/

namespace Numeral

/-- Horner's rule, on from a value. -/
def read (base value : Nat) (ds : List Nat) : Nat := ds.foldl (fun v d => v * base + d) value

/-- The value of a numeral. -/
def value (base : Nat) (ds : List Nat) : Nat := read base 0 ds

/-- The numeral of a number: `0` for zero, and no leading zero otherwise. -/
def digits (base x : Nat) : List Nat := if x = 0 then [0] else (Nat.digits base x).reverse

variable {base x d n : Nat} {ds : List Nat}

@[simp] theorem read_nil (base v : Nat) : read base v [] = v := rfl

@[simp] theorem read_cons (base v d : Nat) (ds : List Nat) :
    read base v (d :: ds) = read base (v * base + d) ds := rfl

theorem read_append (base v : Nat) (ds es : List Nat) :
    read base v (ds ++ es) = read base (read base v ds) es := List.foldl_append

/-- Reading on never makes the value smaller. -/
theorem le_read (positive : 0 < base) (v : Nat) (ds : List Nat) : v ≤ read base v ds := by
  induction ds generalizing v with
  | nil => exact Nat.le_refl v
  | cons d ds ih =>
      have here : v ≤ v * base := Nat.le_mul_of_pos_right v positive
      exact (here.trans (Nat.le_add_right _ d)).trans (ih _)

theorem digits_of_lt (small : x < base) : digits base x = [x] := by
  unfold digits
  split
  · rename_i zero
    rw [zero]
  · rename_i positive
    rw [Nat.digits_of_lt base x positive small]
    rfl

/-- The last digit is the remainder. -/
theorem digits_append (two : 2 ≤ base) (large : base ≤ x) :
    digits base x = digits base (x / base) ++ [x % base] := by
  have positive : 0 < x := by omega
  have quotient : x / base ≠ 0 := (Nat.div_pos large (by omega)).ne'
  rw [digits, digits, if_neg positive.ne', if_neg quotient, Nat.digits_def' two positive,
    List.reverse_cons]

/-- A numeral from the numeral of the quotient and the remainder, whatever its length. -/
theorem digits_induction {P : Nat → Prop} (two : 2 ≤ base) (small : ∀ x < base, P x)
    (large : ∀ x, base ≤ x → P (x / base) → P x) (x : Nat) : P x := by
  induction x using Nat.strong_induction_on with
  | _ x ih =>
      by_cases fits : x < base
      · exact small x fits
      · have le : base ≤ x := Nat.le_of_not_lt fits
        exact large x le (ih _ (Nat.div_lt_self (by omega) two))

/-- A number is the value of its numeral. -/
theorem value_digits (two : 2 ≤ base) (x : Nat) : value base (digits base x) = x := by
  induction x using digits_induction two with
  | small x small =>
      rw [digits_of_lt small, value, read_cons, read_nil]
      omega
  | large x large ih =>
      rw [digits_append two large, value, read_append, ← value, ih, read_cons, read_nil]
      exact Nat.div_add_mod' x base

theorem digits_lt (two : 2 ≤ base) (x : Nat) : ∀ d ∈ digits base x, d < base := by
  induction x using digits_induction two with
  | small x small =>
      rw [digits_of_lt small]
      simpa using small
  | large x large ih =>
      rw [digits_append two large]
      intro d member
      rcases List.mem_append.mp member with inFront | last
      · exact ih d inFront
      · rw [List.mem_singleton.mp last]
        exact Nat.mod_lt x (by omega)

theorem digits_ne_nil (two : 2 ≤ base) (x : Nat) : digits base x ≠ [] := by
  induction x using digits_induction two with
  | small x small => simp [digits_of_lt small]
  | large x large ih => simp [digits_append two large]

/-- Only the numeral of zero starts with zero. -/
theorem digits_eq_zero_cons (two : 2 ≤ base) (x : Nat) :
    ∀ ds, digits base x = 0 :: ds → x = 0 ∧ ds = [] := by
  induction x using digits_induction two with
  | small x small =>
      intro ds starts
      rw [digits_of_lt small] at starts
      simpa [eq_comm] using starts
  | large x large ih =>
      intro ds starts
      rw [digits_append two large] at starts
      have quotient : 0 < x / base := Nat.div_pos large (by omega)
      cases front : digits base (x / base) with
      | nil => exact absurd front (digits_ne_nil two _)
      | cons e es =>
          rw [front, List.cons_append, List.cons.injEq] at starts
          rw [starts.1] at front
          have zero := (ih es front).1
          omega

/-- A number below a power of the base has no more digits than the exponent says. -/
theorem length_digits_le (two : 2 ≤ base) (x : Nat) :
    ∀ n, 0 < n → x < base ^ n → (digits base x).length ≤ n := by
  induction x using digits_induction two with
  | small x small =>
      intro n positive _
      rw [digits_of_lt small]
      exact positive
  | large x large ih =>
      intro n positive bound
      obtain ⟨m, rfl⟩ : ∃ m, n = m + 1 := ⟨n - 1, by omega⟩
      have quotient : 0 < x / base := Nat.div_pos large (by omega)
      rw [Nat.pow_succ] at bound
      have below : x / base < base ^ m := Nat.div_lt_of_lt_mul (by rwa [Nat.mul_comm])
      have more : 0 < m := by
        by_contra none
        obtain rfl : m = 0 := by omega
        rw [Nat.pow_zero] at below
        omega
      rw [digits_append two large, List.length_append, List.length_singleton]
      exact Nat.succ_le_succ (ih m more below)

end Numeral
