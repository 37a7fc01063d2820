import Lsmalloc.Util.Convert

/-!
# What is written is read back

`malloc_strtoumax` reads back every number that `u2s` and its relatives write, in the base given
or in the one it detects. It reads any other numeral whose value fits in a word as well, unless a
leading `0` is followed by a digit other than an octal one or `x`: there it stops behind the `0`.
-/

namespace Lsmalloc

/-- The character of a digit. -/
def digitChar (uppercase : Bool) (d : Nat) : Char := (digitTable uppercase).getD d nul

/-- The sign in front of a number. -/
inductive Sign
  | none
  | plus
  | minus
deriving DecidableEq, Repr

/-- Its characters. -/
def Sign.chars : Sign → List Char
  | .none => []
  | .plus => ['+']
  | .minus => ['-']

/-- What it makes of a `uintmax_t`. -/
def Sign.apply (sign : Sign) (x : Nat) : Nat :=
  if sign = .minus then (2 ^ 64 - x) % 2 ^ 64 else x

variable {base b d x : Nat} {c : Char} {cs rest spaces : List Char} {ds : List Nat} {uppercase : Bool}

/-! ## Digits -/

/-- Digits below ten are decimal digits, and the others are letters of one case. -/
theorem digitChar_range : ∀ d < 36, ∀ uppercase,
    (d < 10 ∧ '0' ≤ digitChar uppercase d ∧ digitChar uppercase d ≤ '9' ∧
        (digitChar uppercase d).toNat - '0'.toNat = d) ∨
      (10 ≤ d ∧ ¬ digitChar uppercase d ≤ '9' ∧ 'A' ≤ digitChar uppercase d ∧
        digitChar uppercase d ≤ 'Z' ∧ 10 + (digitChar uppercase d).toNat - 'A'.toNat = d) ∨
      10 ≤ d ∧ ¬ digitChar uppercase d ≤ 'Z' ∧ ¬ digitChar uppercase d ≤ '9' ∧
        'a' ≤ digitChar uppercase d ∧ digitChar uppercase d ≤ 'z' ∧
        10 + (digitChar uppercase d).toNat - 'a'.toNat = d := by
  decide

/-- A digit is read in the bases above it. -/
theorem digitOf_digitChar (word : d < 36) (fits : d < b) (uppercase : Bool) :
    digitOf b (digitChar uppercase d) = some d := by
  unfold digitOf
  rcases digitChar_range d word uppercase with
    ⟨_, lower, upper, value⟩ | ⟨_, notDigit, lower, upper, value⟩ |
    ⟨_, notUpper, notDigit, lower, upper, value⟩
  · rw [if_pos ⟨lower, upper, by rwa [value]⟩, value]
  · rw [if_neg (fun digit => notDigit digit.2.1), if_pos ⟨lower, upper, by rwa [value]⟩, value]
  · rw [if_neg (fun digit => notDigit digit.2.1), if_neg (fun letter => notUpper letter.2.1),
      if_pos ⟨lower, upper, by rwa [value]⟩, value]

theorem char_le_iff {a c : Char} : a ≤ c ↔ a.toNat ≤ c.toNat := Iff.rfl

/-- What is read as a digit is one of ten digits or of the letters of either case. -/
theorem digitOf_cases (digit : digitOf b c = some d) :
    d < b ∧ (('0'.toNat ≤ c.toNat ∧ c.toNat ≤ '9'.toNat ∧ c.toNat = d + '0'.toNat) ∨
      ('A'.toNat ≤ c.toNat ∧ c.toNat ≤ 'Z'.toNat ∧ c.toNat + 10 = d + 'A'.toNat) ∨
      ('a'.toNat ≤ c.toNat ∧ c.toNat ≤ 'z'.toNat ∧ c.toNat + 10 = d + 'a'.toNat)) := by
  unfold digitOf at digit
  simp only [char_le_iff] at digit
  split at digit
  · cases digit
    omega
  split at digit
  · cases digit
    omega
  split at digit
  · cases digit
    omega
  · cases digit

/-- A digit is no space and no sign. -/
theorem digitOf_some (digit : digitOf b c = some d) : isSpace c = false ∧ c ≠ '-' ∧ c ≠ '+' := by
  have large : '0'.toNat ≤ c.toNat := by
    obtain ⟨_, decimal | upper | lower⟩ := digitOf_cases digit
    · exact decimal.1
    · exact le_trans (by decide) upper.1
    · exact le_trans (by decide) lower.1
  have other : ∀ e : Char, e.toNat < '0'.toNat → c ≠ e := by
    rintro e small rfl
    omega
  refine ⟨?_, other '-' (by decide), other '+' (by decide)⟩
  have notBlank : c ≠ ' ' := other ' ' (by decide)
  have above : ¬ c.toNat ≤ 13 := by
    have bound : 13 < '0'.toNat := by decide
    omega
  simp [isSpace, notBlank, above]

theorem digitOf_zero (digit : digitOf b '0' = some d) : d = 0 := by
  have value := (digitOf_cases digit).2
  have char : '0'.toNat = 48 ∧ 'A'.toNat = 65 ∧ 'a'.toNat = 97 := by decide
  omega

/-! ## Writing -/

/-- The loop of `u2s` writes the numeral, and stays inside the buffer. -/
theorem u2sLoop_eq (two : 2 ≤ base) {table : List Char} {digit next : Nat → Nat}
    (isDigit : ∀ x, digit x = x % base) (isNext : ∀ x, next x = x / base)
    (isTable : ∀ d < base, table.getD d nul = digitChar uppercase d) :
    ∀ i x s, 0 < i → x < base ^ i → u2sLoop table digit next i x s =
      .ok ((Numeral.digits base x).map (digitChar uppercase) ++ s) := by
  intro i
  induction i with
  | zero => simp
  | succ i ih =>
      intro x s _ bound
      have last : table.getD (digit x) nul = digitChar uppercase (x % base) := by
        rw [isDigit]
        exact isTable _ (Nat.mod_lt x (by omega))
      rw [u2sLoop]
      simp only [last, isNext]
      split
      · rename_i more
        have large : base ≤ x := by
          by_contra small
          rw [Nat.div_eq_of_lt (by omega)] at more
          omega
        rw [Nat.pow_succ] at bound
        have below : x / base < base ^ i := Nat.div_lt_of_lt_mul (by rwa [Nat.mul_comm])
        have room : 0 < i := by
          by_contra none
          obtain rfl : i = 0 := by omega
          rw [Nat.pow_zero] at below
          omega
        rw [ih _ _ room below, Numeral.digits_append two large, List.map_append, List.append_assoc]
        rfl
      · rename_i single
        have small : x < base := by
          by_contra large
          exact single (Nat.div_pos (by omega) (by omega))
        rw [Nat.mod_eq_of_lt small, Numeral.digits_of_lt small]
        rfl

/-- The digits that a number is written with. -/
def numeral (base : Nat) (uppercase : Bool) (x : Nat) : List Char :=
  (Numeral.digits base x).map (digitChar uppercase)

/-- `u2s` writes a numeral without leading zeros, and always has the room. -/
theorem u2s_eq (two : 2 ≤ base) (high : base ≤ 36) (word : x < 2 ^ 64) (uppercase : Bool) :
    u2s x base uppercase = .ok (numeral base uppercase x) := by
  have fits : x < base ^ u2sEnd := word.trans_le (Nat.pow_le_pow_left two 64)
  have room : 0 < u2sEnd := by decide
  have whole : ∀ {table : List Char} {digit next : Nat → Nat}, (∀ x, digit x = x % base) →
      (∀ x, next x = x / base) →
      (∀ d < base, table.getD d nul = digitChar uppercase d) →
      u2sLoop table digit next u2sEnd x [] = .ok (numeral base uppercase x) := by
    intro table digit next isDigit isNext isTable
    rw [u2sLoop_eq two isDigit isNext isTable u2sEnd x [] room fits, List.append_nil]
    rfl
  unfold u2s
  split
  · refine whole (fun _ => rfl) (fun _ => rfl) ?_
    cases uppercase <;> decide
  · refine whole (fun x => Nat.and_two_pow_sub_one_eq_mod x 4) (fun x => Nat.shiftRight_eq_div_pow x 4)
      ?_
    cases uppercase <;> decide
  · rw [if_pos ⟨two, high⟩]
    exact whole (fun _ => rfl) (fun _ => rfl) fun _ _ => rfl

/-! ## Reading -/

/-- The characters are the digits of a numeral. -/
def IsNumeral (base : Nat) (cs : List Char) (ds : List Nat) : Prop :=
  List.Forall₂ (fun c d => digitOf base c = some d) cs ds

/-- The string does not go on with a digit. -/
def Stops (base : Nat) (rest : List Char) : Prop := ∀ c p, rest = c :: p → digitOf base c = none

/-- What stops a numeral in one base stops it in the bases below. -/
theorem Stops.mono {b' : Nat} (stops : Stops b' rest) (le : b ≤ b') : Stops b rest := by
  intro c p goesOn
  have none := stops c p goesOn
  cases digit : digitOf b c with
  | none => rfl
  | some d =>
      have cases := digitOf_cases digit
      unfold digitOf at none
      simp only [char_le_iff] at none
      split at none
      · cases none
      split at none
      · cases none
      split at none
      · cases none
      · omega

/-- The loop of `malloc_strtoumax` reads a numeral to its end. -/
theorem convertDigits_eq (positive : 0 < b) (neg : Bool) (digits : IsNumeral b cs ds)
    (stops : Stops b rest) :
    ∀ ret, Numeral.read b ret ds < 2 ^ 64 → convertDigits b neg ret (cs ++ rest) =
      ⟨if neg = true then (2 ^ 64 - Numeral.read b ret ds) % 2 ^ 64 else Numeral.read b ret ds,
        rest, none⟩ := by
  unfold IsNumeral at digits
  induction digits with
  | nil =>
      intro ret _
      rw [List.nil_append]
      cases rest with
      | nil => rfl
      | cons c p => simp only [convertDigits, stops c p rfl, Numeral.read_nil]
  | @cons c d cs ds digit _ ih =>
      intro ret fits
      rw [Numeral.read_cons] at fits
      have here : ret * b + d < 2 ^ 64 := (Numeral.le_read positive _ _).trans_lt fits
      have grows : ret ≤ ret * b := Nat.le_mul_of_pos_right ret positive
      have sum : szAdd (ret * b % 2 ^ 64) d = ret * b + d := by
        rw [Nat.mod_eq_of_lt (by omega), szAdd_of_lt here]
      simp only [List.cons_append, convertDigits, digit, sum, Numeral.read_cons]
      rw [if_neg (by omega)]
      exact ih _ fits

/-- A sign and spaces in front of a digit are swallowed. -/
theorem swallowSign_eq (blank : ∀ c ∈ spaces, isSpace c = true) (sign : Sign) {p : List Char}
    (digit : digitOf b c = some d) :
    swallowSign (spaces ++ (sign.chars ++ c :: p)) = (decide (sign = .minus), c :: p) := by
  obtain ⟨notBlank, notMinus, notPlus⟩ := digitOf_some digit
  induction spaces with
  | nil =>
      cases sign with
      | none => simp [Sign.chars, swallowSign, notBlank, notMinus, notPlus]
      | plus => simp [Sign.chars, swallowSign, isSpace]
      | minus => simp [Sign.chars, swallowSign, isSpace]
  | cons e spaces ih =>
      have here : isSpace e = true := blank e (by simp)
      rw [List.cons_append, swallowSign, if_pos here]
      exact ih fun f member => blank f (by simp [member])

/-- A leading `0` that is followed by neither an octal digit nor an `x` of either case. -/
def LeadingZero (cs : List Char) : Prop :=
  ∃ c p, cs = '0' :: c :: p ∧ ¬ ('0' ≤ c ∧ c ≤ '7') ∧ c ≠ 'X' ∧ c ≠ 'x'

/-- What goes on as the prefix of a hexadecimal number does, behind its `0`. -/
def HexTail (rest : List Char) : Prop :=
  ∃ c p, rest = c :: p ∧ (c = 'X' ∨ c = 'x') ∧ (p.head?.bind (digitOf 16)).isSome = true

/-- In base sixteen, a `0` that goes on as the prefix of a hexadecimal number. -/
def HexPrefixed (base : Nat) (cs rest : List Char) : Prop :=
  base = 16 ∧ cs = ['0'] ∧ HexTail rest

theorem getPrefix_of_ne (nonzero : c ≠ '0') (p : List Char) :
    getPrefix base (c :: p) = some (base, c :: p) := by
  unfold getPrefix
  split
  · rename_i same
    exact absurd (List.cons.inj same).1 nonzero
  · rename_i same
    exact absurd (List.cons.inj same).1 nonzero
  · rfl

/-- In a base that is given, the prefix of a numeral is its leading `0` in base eight. -/
theorem getPrefix_numeral (two : 2 ≤ base) {p : List Char} (notZero : ¬ LeadingZero (c :: p))
    (digits : IsNumeral base (c :: p) ds) (unprefixed : ¬ HexPrefixed base (c :: p) rest) :
    getPrefix base (c :: p ++ rest) = some (base, c :: p ++ rest) ∨
      (c = '0' ∧ getPrefix base (c :: p ++ rest) = some (base, p ++ rest)) ∨
      (c = '0' ∧ p = [] ∧ getPrefix base (c :: p ++ rest) = none) := by
  by_cases zero : c = '0'
  · subst zero
    cases next : p ++ rest with
    | nil =>
        obtain ⟨rfl, rfl⟩ := List.append_eq_nil_iff.mp next
        exact .inr (.inr ⟨rfl, rfl, rfl⟩)
    | cons e q =>
        -- A digit that follows the zero is the next of the numeral, or the string goes on with it.
        have within : ∀ P : Prop, (∀ p', p = e :: p' → P) → (p = [] → rest = e :: q → P) → P := by
          intro P more ends
          cases p with
          | nil => exact ends rfl next
          | cons f p' =>
              rw [List.cons_append, List.cons.injEq] at next
              exact more p' (by rw [next.1])
        have given : ¬ base = 0 := by omega
        rw [List.cons_append, next, getPrefix]
        simp only [if_neg given]
        split
        · by_cases eight : base = 8
          · rw [if_pos eight]
            exact .inr (.inl ⟨trivial, rfl⟩)
          · rw [if_neg eight]
            exact .inl rfl
        · rename_i notOctal
          split
          · rename_i isX
            split
            · rename_i hex
              by_cases sixteen : base = 16
              · subst sixteen
                refine within _ ?_ fun ends goesOn =>
                  absurd ⟨rfl, by rw [ends], e, q, goesOn, isX, hex⟩ unprefixed
                rintro p' rfl
                obtain _ | ⟨_, _ | ⟨digit, _⟩⟩ := digits
                rcases isX with rfl | rfl <;> exact absurd digit (by simp [digitOf])
              · rw [if_neg sixteen]
                exact .inl rfl
            · exact .inl rfl
          · rename_i notX
            refine within _ ?_ fun ends _ => .inr (.inr ⟨trivial, ends, rfl⟩)
            rintro p' rfl
            exact absurd ⟨e, p', rfl, notOctal, fun upper => notX (.inl upper),
              fun lower => notX (.inr lower)⟩ notZero
  · exact .inl (getPrefix_of_ne zero _)

/-- Behind spaces, a sign and a prefix, what a conversion reads is what is returned. -/
theorem mallocStrtoumax_converts {b' : Nat} {ns : List Char}
    (valid : ¬ ((base : Int) < 0 ∨ (base : Int) = 1 ∨ (base : Int) > 36))
    (blank : ∀ c ∈ spaces, isSpace c = true) (sign : Sign) (digit : digitOf b c = some d)
    (found : getPrefix base (c :: ns) = some (b', cs ++ rest))
    (chosen : (if b' = 0 then 10 else b') = x) (positive : 0 < x) (digits : IsNumeral x cs ds)
    (stops : Stops x rest) (fits : Numeral.value x ds < 2 ^ 64)
    (consumed : rest.length < (c :: ns).length) :
    mallocStrtoumax (spaces ++ (sign.chars ++ c :: ns)) base =
      ⟨sign.apply (Numeral.value x ds), rest, none⟩ := by
  have moved : rest ≠ c :: ns := by
    rintro rfl
    exact Nat.lt_irrefl _ consumed
  have converted := convertDigits_eq positive (decide (sign = .minus)) digits stops 0 fits
  rw [mallocStrtoumax, if_neg valid, swallowSign_eq blank sign digit]
  simp only [Int.toNat_natCast, found, chosen, converted, true_and, if_neg moved, decide_eq_true_eq]
  rfl

/-- A `0` that no number goes on from is read alone. -/
theorem mallocStrtoumax_early {ns : List Char}
    (valid : ¬ ((base : Int) < 0 ∨ (base : Int) = 1 ∨ (base : Int) > 36))
    (blank : ∀ c ∈ spaces, isSpace c = true) (sign : Sign) (digit : digitOf b c = some d)
    (early : getPrefix base (c :: ns) = none) :
    mallocStrtoumax (spaces ++ (sign.chars ++ c :: ns)) base = ⟨0, ns, none⟩ := by
  rw [mallocStrtoumax, if_neg valid, swallowSign_eq blank sign digit]
  simp only [Int.toNat_natCast, early, List.tail_cons]

/-- A numeral is read, with its sign, unless it has a leading zero of the kind that ends it. -/
theorem mallocStrtoumax_of_not_leadingZero (two : 2 ≤ base) (high : base ≤ 36)
    (blank : ∀ c ∈ spaces, isSpace c = true) (sign : Sign) (digits : IsNumeral base cs ds)
    (nonempty : cs ≠ []) (stops : Stops base rest) (fits : Numeral.value base ds < 2 ^ 64)
    (unprefixed : ¬ HexPrefixed base cs rest) (notZero : ¬ LeadingZero cs) :
    mallocStrtoumax (spaces ++ (sign.chars ++ (cs ++ rest))) base =
      ⟨sign.apply (Numeral.value base ds), rest, none⟩ := by
  have valid : ¬ ((base : Int) < 0 ∨ (base : Int) = 1 ∨ (base : Int) > 36) := by omega
  have given : ¬ base = 0 := by omega
  have whole := digits
  obtain _ | ⟨digit, tail⟩ := digits
  · exact absurd rfl nonempty
  rename_i c d p ds
  rw [List.cons_append]
  have consumed : rest.length < (c :: (p ++ rest)).length := by
    simp only [List.length_cons, List.length_append]
    omega
  rcases getPrefix_numeral two notZero whole unprefixed with found | ⟨rfl, found⟩ | ⟨rfl, rfl, early⟩
  · exact mallocStrtoumax_converts valid blank sign digit found (if_neg given) (by omega) whole
      stops fits consumed
  · -- In base eight the conversion starts behind the zero, which adds nothing.
    obtain rfl := digitOf_zero digit
    have same : Numeral.value base (0 :: ds) = Numeral.value base ds := by
      rw [Numeral.value, Numeral.read_cons, Nat.zero_mul]
      rfl
    rw [same] at fits ⊢
    exact mallocStrtoumax_converts valid blank sign digit found (if_neg given) (by omega) tail
      stops fits consumed
  · cases tail
    obtain rfl := digitOf_zero digit
    have nothing : sign.apply (Numeral.value base [0]) = 0 := by
      cases sign <;> simp [Sign.apply, Numeral.value]
    rw [nothing]
    exact mallocStrtoumax_early valid blank sign digit early

/-- Behind such a zero `malloc_strtoumax` stops, whatever follows. -/
theorem mallocStrtoumax_of_leadingZero (two : 2 ≤ base) (high : base ≤ 36)
    (blank : ∀ c ∈ spaces, isSpace c = true) (sign : Sign) (zero : LeadingZero cs)
    (rest : List Char) :
    mallocStrtoumax (spaces ++ (sign.chars ++ (cs ++ rest))) base = ⟨0, cs.tail ++ rest, none⟩ := by
  have valid : ¬ ((base : Int) < 0 ∨ (base : Int) = 1 ∨ (base : Int) > 36) := by omega
  obtain ⟨e, q, rfl, notOctal, notUpper, notLower⟩ := zero
  have early : getPrefix base ('0' :: (e :: q ++ rest)) = none := by
    rw [List.cons_append, getPrefix, if_neg notOctal, if_neg (by rintro (h | h) <;> contradiction)]
  have digit : digitOf 10 '0' = some 0 := by decide
  exact mallocStrtoumax_early valid blank sign digit early

/-- **What `malloc_strtoumax` reads.** In a base that is given, it reads a numeral whose value fits
in a word, with its sign, exactly if no leading `0` is followed by an `8`, a `9` or a letter other
than `x`; there it returns `0` and stops behind the `0`. -/
theorem mallocStrtoumax_reads_iff (two : 2 ≤ base) (high : base ≤ 36)
    (blank : ∀ c ∈ spaces, isSpace c = true) (sign : Sign) (digits : IsNumeral base cs ds)
    (nonempty : cs ≠ []) (stops : Stops base rest) (fits : Numeral.value base ds < 2 ^ 64)
    (unprefixed : ¬ HexPrefixed base cs rest) :
    (mallocStrtoumax (spaces ++ (sign.chars ++ (cs ++ rest))) base =
        ⟨sign.apply (Numeral.value base ds), rest, none⟩ ↔ ¬ LeadingZero cs) ∧
      (LeadingZero cs → mallocStrtoumax (spaces ++ (sign.chars ++ (cs ++ rest))) base =
        ⟨0, cs.tail ++ rest, none⟩) := by
  have early := fun zero : LeadingZero cs =>
    mallocStrtoumax_of_leadingZero two high blank sign zero rest
  refine ⟨⟨fun reads zero => ?_, mallocStrtoumax_of_not_leadingZero two high blank sign digits nonempty
    stops fits unprefixed⟩, early⟩
  -- What is read ends at the rest, and the other way ends before it.
  rw [early zero, Strtoumax.mk.injEq] at reads
  obtain ⟨e, q, rfl, _⟩ := zero
  have lengths := congrArg List.length reads.2.1
  simp only [List.tail_cons, List.cons_append, List.length_cons, List.length_append] at lengths
  omega

/-- `"010 "` is read in base ten, of `"-09"` only the zero, and `"0x1"` is a numeral in base
thirty-six. -/
theorem mallocStrtoumax_reads_iff_of_zeros :
    mallocStrtoumax ['0', '1', '0', ' '] 10 = ⟨10, [' '], none⟩ ∧
      mallocStrtoumax [' ', '-', '0', '9'] 10 = ⟨0, ['9'], none⟩ ∧
      mallocStrtoumax ['0', 'x', '1'] 36 = ⟨1189, [], none⟩ := by
  refine ⟨?_, ?_, ?_⟩
  · have iff : mallocStrtoumax ([] ++ (Sign.none.chars ++ (['0', '1', '0'] ++ [' ']))) (10 : Nat) =
        ⟨Sign.none.apply (Numeral.value 10 [0, 1, 0]), [' '], none⟩ ↔ ¬ LeadingZero ['0', '1', '0'] :=
      (mallocStrtoumax_reads_iff (by decide) (by decide) (by simp) .none
        (.cons rfl (.cons rfl (.cons rfl .nil))) (by simp) (by rintro _ _ ⟨⟩; decide) (by decide)
        (fun prefixed => absurd prefixed.1 (by decide))).1
    refine iff.mpr ?_
    rintro ⟨c, p, same, notOctal, _⟩
    obtain ⟨_, rfl, _⟩ := List.cons.inj same
    exact notOctal (by decide)
  · have early : LeadingZero ['0', '9'] →
        mallocStrtoumax ([' '] ++ (Sign.minus.chars ++ (['0', '9'] ++ []))) (10 : Nat) =
          ⟨0, ['0', '9'].tail ++ [], none⟩ :=
      (mallocStrtoumax_reads_iff (by decide) (by decide) (by simp [isSpace]) .minus
        (.cons rfl (.cons rfl .nil)) (by simp) (by simp [Stops]) (by decide)
        (fun prefixed => absurd prefixed.1 (by decide))).2
    exact early ⟨'9', [], rfl, by decide, by decide, by decide⟩
  · have iff : mallocStrtoumax ([] ++ (Sign.none.chars ++ (['0', 'x', '1'] ++ []))) (36 : Nat) =
        ⟨Sign.none.apply (Numeral.value 36 [0, 33, 1]), [], none⟩ ↔ ¬ LeadingZero ['0', 'x', '1'] :=
      (mallocStrtoumax_reads_iff (by decide) (by decide) (by simp) .none
        (.cons rfl (.cons rfl (.cons rfl .nil))) (by simp) (by simp [Stops]) (by decide)
        (fun prefixed => absurd prefixed.1 (by decide))).1
    refine iff.mpr ?_
    rintro ⟨c, p, same, _, _, notX⟩
    obtain ⟨_, rfl, _⟩ := List.cons.inj same
    exact notX rfl

/-! ## Round trips -/

/-- What `u2s` writes is a numeral. -/
theorem isNumeral_numeral (two : 2 ≤ base) (high : base ≤ 36) (uppercase : Bool) (x : Nat) :
    IsNumeral base (numeral base uppercase x) (Numeral.digits base x) := by
  have bound := Numeral.digits_lt two x
  rw [IsNumeral, numeral, List.forall₂_map_left_iff, List.forall₂_same]
  exact fun d member => digitOf_digitChar (by have := bound d member; omega) (bound d member) _

/-- Only the numeral of zero starts with `0`. -/
theorem numeral_eq_zero (two : 2 ≤ base) (high : base ≤ 36)
    (starts : numeral base uppercase x = '0' :: cs) : x = 0 ∧ cs = [] := by
  have digits := isNumeral_numeral two high uppercase x
  rw [starts] at digits
  cases written : Numeral.digits base x with
  | nil => exact absurd written (Numeral.digits_ne_nil two x)
  | cons d ds =>
      rw [written] at digits
      obtain _ | ⟨digit, tail⟩ := digits
      obtain rfl := digitOf_zero digit
      obtain ⟨zero, rfl⟩ := Numeral.digits_eq_zero_cons two x ds written
      cases tail
      exact ⟨zero, rfl⟩

theorem numeral_zero (two : 2 ≤ base) (uppercase : Bool) : numeral base uppercase 0 = ['0'] := by
  rw [numeral, Numeral.digits_of_lt (by omega)]
  cases uppercase <;> rfl

theorem numeral_ne_nil (two : 2 ≤ base) (uppercase : Bool) (x : Nat) :
    numeral base uppercase x ≠ [] := by
  rw [numeral, ne_eq, List.map_eq_nil_iff]
  exact Numeral.digits_ne_nil two x

theorem pushFront_eq (room : cs.length < u2sEnd) (c : Char) : pushFront c cs = .ok (c :: cs) :=
  if_pos room

theorem length_numeral_le (two : 2 ≤ base) {n : Nat} (positive : 0 < n) (bound : x < base ^ n)
    (uppercase : Bool) : (numeral base uppercase x).length ≤ n := by
  rw [numeral, List.length_map]
  exact Numeral.length_digits_le two x n positive bound

/-- The sign that `d2s` writes in front of a number. -/
def d2sSign (x : Int) (sign : Char) : List Char :=
  if x < 0 then ['-'] else if sign = '-' then [] else [sign]

/-- `d2s` writes a sign and the decimal numeral of the absolute value. -/
theorem d2s_eq {x : Int} (low : -2 ^ 63 ≤ x) (high : x < 2 ^ 63) {sign : Char}
    (valid : sign ∈ ['-', ' ', '+']) :
    d2s x sign = .ok (d2sSign x sign ++ numeral 10 false x.natAbs) := by
  have word : x.natAbs < 2 ^ 64 := by omega
  have magnitude : ((if decide (x < 0) = true then -x else x) % 2 ^ 64).toNat = x.natAbs := by
    by_cases negative : x < 0
    · simp only [negative, decide_true, if_true]
      omega
    · simp only [negative, decide_false, Bool.false_eq_true, if_false]
      omega
  have short := length_numeral_le (by decide : 2 ≤ 10) (by decide : 0 < 20)
    (show x.natAbs < 10 ^ 20 by omega) false
  have room : (numeral 10 false x.natAbs).length < u2sEnd := by
    have buffer : u2sEnd = 64 := rfl
    omega
  rw [d2s]
  simp only [magnitude, u2s_eq (by decide : 2 ≤ 10) (by decide) word]
  by_cases negative : x < 0
  · simp only [d2sSign, negative, decide_true, if_true]
    exact pushFront_eq room '-'
  · simp only [List.mem_cons, List.not_mem_nil, or_false] at valid
    simp only [d2sSign, negative, decide_false, Bool.false_eq_true, if_false]
    rcases valid with rfl | rfl | rfl
    · rfl
    · exact pushFront_eq room ' '
    · exact pushFront_eq room '+'

/-- `o2s` writes an octal numeral, with one leading zero in the alternate form. -/
theorem o2s_eq (word : x < 2 ^ 64) (altForm : Bool) :
    o2s x altForm = .ok ((if altForm = true ∧ x ≠ 0 then ['0'] else []) ++ numeral 8 false x) := by
  have short := length_numeral_le (by decide : 2 ≤ 8) (by decide : 0 < 22)
    (show x < 8 ^ 22 by omega) false
  have buffer : u2sEnd = 64 := rfl
  have leading : (numeral 8 false x).head? ≠ some '0' ↔ x ≠ 0 := by
    refine not_congr ⟨fun starts => ?_, fun zero => ?_⟩
    · obtain ⟨cs, starts⟩ := List.head?_eq_some_iff.mp starts
      exact (numeral_eq_zero (by decide) (by decide) starts).1
    · rw [zero, numeral_zero (by decide)]
      rfl
  rw [o2s, u2s_eq (by decide : 2 ≤ 8) (by decide) word]
  change (if _ then _ else _) = _
  simp only [leading]
  by_cases marked : altForm = true ∧ x ≠ 0
  · rw [if_pos marked, if_pos marked, pushFront_eq (by omega)]
    rfl
  · rw [if_neg marked, if_neg marked]
    rfl

/-- `x2s` writes a hexadecimal numeral, behind a prefix in the alternate form. -/
theorem x2s_eq (word : x < 2 ^ 64) (altForm uppercase : Bool) :
    x2s x altForm uppercase =
      .ok ((if altForm = true then ['0', if uppercase = true then 'X' else 'x'] else []) ++
        numeral 16 uppercase x) := by
  have short := length_numeral_le (by decide : 2 ≤ 16) (by decide : 0 < 16)
    (show x < 16 ^ 16 by omega) uppercase
  have buffer : u2sEnd = 64 := rfl
  rw [x2s, u2s_eq (by decide : 2 ≤ 16) (by decide) word]
  cases altForm with
  | false => rfl
  | true =>
      change (pushFront _ _ >>= pushFront '0') = _
      rw [pushFront_eq (by omega)]
      change pushFront '0' _ = _
      rw [pushFront_eq (by rw [List.length_cons]; omega)]
      rfl

/-- Reading a numeral in the base it was written in. -/
theorem mallocStrtoumax_numeral (two : 2 ≤ base) (high : base ≤ 36) (word : x < 2 ^ 64)
    (blank : ∀ c ∈ spaces, isSpace c = true) (sign : Sign) (uppercase : Bool)
    (stops : Stops base rest) (unprefixed : base = 16 → x = 0 → ¬ HexTail rest) :
    mallocStrtoumax (spaces ++ (sign.chars ++ (numeral base uppercase x ++ rest))) base =
      ⟨sign.apply x, rest, none⟩ := by
  have value := Numeral.value_digits two x
  have reads := mallocStrtoumax_of_not_leadingZero two high blank sign
    (isNumeral_numeral two high uppercase x) (numeral_ne_nil two uppercase x) stops
    (by rwa [value]) ?_ ?_
  · rwa [value] at reads
  · rintro ⟨sixteen, single, goesOn⟩
    exact unprefixed sixteen (numeral_eq_zero two high single).1 goesOn
  · rintro ⟨c, p, starts, _⟩
    cases (numeral_eq_zero two high starts).2

/-- **What `u2s` writes is read back**, in any base and case, behind spaces and a sign. -/
theorem mallocStrtoumax_u2s (two : 2 ≤ base) (high : base ≤ 36) (word : x < 2 ^ 64)
    (blank : ∀ c ∈ spaces, isSpace c = true) (sign : Sign) (uppercase : Bool)
    (stops : Stops base rest) (unprefixed : base = 16 → x = 0 → ¬ HexTail rest) :
    ∃ s, u2s x base uppercase = .ok s ∧
      mallocStrtoumax (spaces ++ (sign.chars ++ (s ++ rest))) base = ⟨sign.apply x, rest, none⟩ :=
  ⟨_, u2s_eq two high word uppercase,
    mallocStrtoumax_numeral two high word blank sign uppercase stops unprefixed⟩

/-- A number in hexadecimal letters, and one in base thirty-six behind a sign. -/
theorem mallocStrtoumax_u2s_of_letters :
    (∃ s, u2s 48879 16 true = .ok s ∧ mallocStrtoumax (s ++ [',']) 16 = ⟨48879, [','], none⟩) ∧
      ∃ s, u2s 123456 36 false = .ok s ∧
        mallocStrtoumax (' ' :: '-' :: s) 36 = ⟨2 ^ 64 - 123456, [], none⟩ := by
  constructor
  · have roundTrip : ∃ s, u2s 48879 16 true = .ok s ∧
        mallocStrtoumax ([] ++ (Sign.none.chars ++ (s ++ [',']))) (16 : Nat) =
          ⟨Sign.none.apply 48879, [','], none⟩ :=
      mallocStrtoumax_u2s (by decide) (by decide) (by decide) (by simp) .none true
        (by rintro _ _ ⟨⟩; decide) (by simp)
    exact roundTrip
  · have roundTrip : ∃ s, u2s 123456 36 false = .ok s ∧
        mallocStrtoumax ([' '] ++ (Sign.minus.chars ++ (s ++ []))) (36 : Nat) =
          ⟨Sign.minus.apply 123456, [], none⟩ :=
      mallocStrtoumax_u2s (by decide) (by decide) (by decide) (by simp [isSpace]) .minus false
        (by simp [Stops]) (by simp)
    obtain ⟨s, written, reads⟩ := roundTrip
    rw [List.append_nil] at reads
    exact ⟨s, written, reads⟩

/-- **What `d2s` writes is read back** as a `uintmax_t`. -/
theorem mallocStrtoumax_d2s {x : Int} (low : -2 ^ 63 ≤ x) (high : x < 2 ^ 63) {sign : Char}
    (valid : sign ∈ ['-', ' ', '+']) (blank : ∀ c ∈ spaces, isSpace c = true)
    (stops : Stops 10 rest) :
    ∃ s, d2s x sign = .ok s ∧
      mallocStrtoumax (spaces ++ (s ++ rest)) 10 = ⟨(x % 2 ^ 64).toNat, rest, none⟩ := by
  refine ⟨_, d2s_eq low high valid, ?_⟩
  have word : x.natAbs < 2 ^ 64 := by omega
  have reads : ∀ sign : Sign, ∀ spaces : List Char, (∀ c ∈ spaces, isSpace c = true) →
      mallocStrtoumax (spaces ++ (sign.chars ++ (numeral 10 false x.natAbs ++ rest))) 10 =
        ⟨sign.apply x.natAbs, rest, none⟩ := fun sign spaces blank =>
    mallocStrtoumax_numeral (by decide) (by decide) word blank sign false stops (by simp)
  rw [List.append_assoc]
  by_cases negative : x < 0
  · have value : Sign.minus.apply x.natAbs = (x % 2 ^ 64).toNat := by
      rw [Sign.apply, if_pos rfl]
      omega
    rw [d2sSign, if_pos negative, ← value]
    exact reads .minus spaces blank
  · have value : x.natAbs = (x % 2 ^ 64).toNat := by omega
    rw [d2sSign, if_neg negative, ← value]
    simp only [List.mem_cons, List.not_mem_nil, or_false] at valid
    rcases valid with rfl | rfl | rfl
    · exact reads .none spaces blank
    · -- A space in front is one more space to swallow.
      have more := reads .none (spaces ++ [' ']) (by
        intro c member
        rcases List.mem_append.mp member with old | new
        · exact blank c old
        · rw [List.mem_singleton.mp new]
          rfl)
      rw [List.append_assoc] at more
      exact more
    · exact reads .plus spaces blank

/-- The least number. -/
theorem mallocStrtoumax_d2s_of_least : ∃ s, d2s (-2 ^ 63) '+' = .ok s ∧
    mallocStrtoumax (s ++ [' ']) 10 = ⟨2 ^ 63, [' '], none⟩ := by
  have roundTrip : ∃ s, d2s (-2 ^ 63) '+' = .ok s ∧
      mallocStrtoumax ([] ++ (s ++ [' '])) 10 = ⟨(-2 ^ 63 % 2 ^ 64 : Int).toNat, [' '], none⟩ :=
    mallocStrtoumax_d2s (by decide) (by decide) (by decide) (by simp) (by rintro _ _ ⟨⟩; decide)
  exact roundTrip

/-- A zero without a prefix, whose base is to be detected. -/
theorem mallocStrtoumax_zero (blank : ∀ c ∈ spaces, isSpace c = true) (sign : Sign)
    (stops : Stops 8 rest) (unprefixed : ¬ HexTail rest) :
    mallocStrtoumax (spaces ++ (sign.chars ++ '0' :: rest)) 0 = ⟨sign.apply 0, rest, none⟩ := by
  have nothing : sign.apply 0 = 0 := by cases sign <;> rfl
  have valid : ¬ (((0 : Nat) : Int) < 0 ∨ ((0 : Nat) : Int) = 1 ∨ ((0 : Nat) : Int) > 36) := by omega
  have digit : digitOf 10 '0' = some 0 := by decide
  cases rest with
  | nil =>
      rw [nothing]
      exact mallocStrtoumax_early valid blank sign digit rfl
  | cons c p =>
      have notOctal : ¬ ('0' ≤ c ∧ c ≤ '7') := by
        rintro ⟨lower, upper⟩
        have none := stops c p rfl
        rw [char_le_iff] at lower upper
        have bounds : '0'.toNat = 48 ∧ '7'.toNat = 55 ∧ '9'.toNat = 57 := by decide
        rw [digitOf, if_pos ⟨lower, by rw [char_le_iff]; omega, by omega⟩] at none
        cases none
      by_cases isX : c = 'X' ∨ c = 'x'
      · have notHex : ¬ (p.head?.bind (digitOf 16)).isSome = true := fun hex =>
          unprefixed ⟨c, p, rfl, isX, hex⟩
        have found : getPrefix 0 ('0' :: c :: p) = some (0, ['0'] ++ c :: p) := by
          rw [getPrefix, if_neg notOctal, if_pos isX, if_neg notHex]
          rfl
        have stops' : Stops 10 (c :: p) := by
          rintro _ _ ⟨⟩
          rcases isX with rfl | rfl <;> decide
        exact mallocStrtoumax_converts valid blank sign digit found rfl (by decide)
          (.cons digit .nil) stops' (by decide) (by simp)
      · rw [nothing]
        refine mallocStrtoumax_early valid blank sign digit ?_
        rw [getPrefix, if_neg notOctal, if_neg isX]

/-- The digits of an octal number. -/
theorem octal_range (digit : digitOf 8 c = some d) : '0' ≤ c ∧ c ≤ '7' := by
  obtain ⟨small, ranges⟩ := digitOf_cases digit
  have bounds : '0'.toNat = 48 ∧ '7'.toNat = 55 ∧ 'A'.toNat = 65 ∧ 'a'.toNat = 97 := by decide
  rw [char_le_iff, char_le_iff]
  omega

/-- **The base of a number that is written in decimal, octal or hexadecimal is detected**, where
octal and hexadecimal numbers are written in their alternate forms. -/
theorem mallocStrtoumax_detects (word : x < 2 ^ 64) (blank : ∀ c ∈ spaces, isSpace c = true)
    (sign : Sign) (uppercase : Bool) :
    (∃ s, u2s x 10 false = .ok s ∧ ∀ rest, Stops 10 rest → (x = 0 → ¬ HexTail rest) →
      mallocStrtoumax (spaces ++ (sign.chars ++ (s ++ rest))) 0 = ⟨sign.apply x, rest, none⟩) ∧
    (∃ s, o2s x true = .ok s ∧ ∀ rest, Stops 8 rest → (x = 0 → ¬ HexTail rest) →
      mallocStrtoumax (spaces ++ (sign.chars ++ (s ++ rest))) 0 = ⟨sign.apply x, rest, none⟩) ∧
    (∃ s, x2s x true uppercase = .ok s ∧ ∀ rest, Stops 16 rest →
      mallocStrtoumax (spaces ++ (sign.chars ++ (s ++ rest))) 0 = ⟨sign.apply x, rest, none⟩) := by
  have valid : ¬ (((0 : Nat) : Int) < 0 ∨ ((0 : Nat) : Int) = 1 ∨ ((0 : Nat) : Int) > 36) := by omega
  -- A numeral with a first digit, in the base that its prefix says.
  have first : ∀ {base : Nat}, 2 ≤ base → base ≤ 36 → ∀ uppercase, ∃ c p d ds,
      numeral base uppercase x = c :: p ∧ digitOf base c = some d ∧
        IsNumeral base (c :: p) (d :: ds) ∧ Numeral.value base (d :: ds) = x := by
    intro base two high uppercase
    have digits := isNumeral_numeral two high uppercase x
    have value := Numeral.value_digits two x
    cases written : Numeral.digits base x with
    | nil => exact absurd written (Numeral.digits_ne_nil two x)
    | cons d ds =>
        rw [written] at digits value
        cases shown : numeral base uppercase x with
        | nil => exact absurd shown (numeral_ne_nil two uppercase x)
        | cons c p =>
            rw [shown] at digits
            have head := digits
            obtain _ | ⟨digit, _⟩ := head
            exact ⟨c, p, d, ds, rfl, digit, digits, value⟩
  have zeroDigit : digitOf 10 '0' = some 0 := by decide
  refine ⟨⟨_, u2s_eq (by decide) (by decide) word false, fun rest stops unprefixed => ?_⟩,
    ⟨_, o2s_eq word true, fun rest stops unprefixed => ?_⟩,
    ⟨_, x2s_eq word true uppercase, fun rest stops => ?_⟩⟩
  · by_cases zero : x = 0
    · subst zero
      rw [numeral_zero (by decide)]
      exact mallocStrtoumax_zero blank sign (stops.mono (by decide)) (unprefixed rfl)
    · obtain ⟨c, p, d, ds, shown, digit, digits, value⟩ := first (by decide : 2 ≤ 10) (by decide) false
      have nonzero : c ≠ '0' := by
        rintro rfl
        exact zero (numeral_eq_zero (by decide) (by decide) shown).1
      have found : getPrefix 0 (c :: (p ++ rest)) = some (0, c :: p ++ rest) :=
        getPrefix_of_ne nonzero (p ++ rest)
      have reads := mallocStrtoumax_converts (x := 10) valid blank sign digit found rfl (by decide)
        digits stops (by rwa [value])
        (by simp only [List.length_cons, List.length_append]; omega)
      rw [value] at reads
      rw [shown]
      exact reads
  · by_cases zero : x = 0
    · subst zero
      rw [if_neg (by simp), numeral_zero (by decide)]
      exact mallocStrtoumax_zero blank sign stops (unprefixed rfl)
    · obtain ⟨c, p, d, ds, shown, digit, digits, value⟩ := first (by decide : 2 ≤ 8) (by decide) false
      have found : getPrefix 0 ('0' :: (c :: p ++ rest)) = some (8, c :: p ++ rest) := by
        rw [List.cons_append, getPrefix, if_pos (octal_range digit)]
        rfl
      have reads := mallocStrtoumax_converts (x := 8) valid blank sign zeroDigit found rfl
        (by decide) digits stops (by rwa [value]) (by simp only [List.length_cons, List.length_append]; omega)
      rw [value] at reads
      rw [if_pos ⟨rfl, zero⟩, shown]
      exact reads
  · obtain ⟨c, p, d, ds, shown, digit, digits, value⟩ := first (by decide : 2 ≤ 16) (by decide) uppercase
    have found : ∀ e, e = 'X' ∨ e = 'x' →
        getPrefix 0 ('0' :: e :: (c :: p ++ rest)) = some (16, c :: p ++ rest) := by
      intro e isX
      have notOctal : ¬ ('0' ≤ e ∧ e ≤ '7') := by rcases isX with rfl | rfl <;> decide
      have hex : ((c :: p ++ rest).head?.bind (digitOf 16)).isSome = true := by
        rw [List.cons_append, List.head?_cons, Option.bind_some, digit]
        rfl
      rw [getPrefix, if_neg notOctal, if_pos isX, if_pos hex]
      rfl
    have mark : (if uppercase = true then 'X' else 'x') = 'X' ∨
        (if uppercase = true then 'X' else 'x') = 'x' := by
      cases uppercase
      · exact .inr rfl
      · exact .inl rfl
    have reads := mallocStrtoumax_converts (x := 16) valid blank sign zeroDigit (found _ mark) rfl
      (by decide) digits stops (by rwa [value]) (by simp only [List.length_cons, List.length_append]; omega)
    rw [value] at reads
    rw [if_pos rfl, shown]
    exact reads

/-- One number in three bases. -/
theorem mallocStrtoumax_detects_of_three :
    (∃ s, u2s 64 10 false = .ok s ∧ mallocStrtoumax s 0 = ⟨64, [], none⟩) ∧
      (∃ s, o2s 64 true = .ok s ∧ mallocStrtoumax s 0 = ⟨64, [], none⟩) ∧
      ∃ s, x2s 64 true false = .ok s ∧ mallocStrtoumax s 0 = ⟨64, [], none⟩ := by
  obtain ⟨⟨s, decimal, reads⟩, ⟨t, octal, reads'⟩, ⟨u, hex, reads''⟩⟩ :=
    mallocStrtoumax_detects (show 64 < 2 ^ 64 by decide) (show ∀ c ∈ [], isSpace c = true by simp)
      .none false
  have ends : ∀ base, Stops base [] := by simp [Stops]
  have here := reads [] (ends 10) (by omega)
  have here' := reads' [] (ends 8) (by omega)
  have here'' := reads'' [] (ends 16)
  rw [List.append_nil] at here here' here''
  exact ⟨⟨s, decimal, here⟩, ⟨t, octal, here'⟩, ⟨u, hex, here''⟩⟩

end Lsmalloc
