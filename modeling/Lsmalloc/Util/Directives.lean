import Lsmalloc.Util.Format
import Lsmalloc.Util.RoundTrip

/-!
# What `malloc_vsnprintf` prints

A format is written by a grammar of plain characters and directives, and each directive has a
text. `malloc_vsnprintf` returns the length of the texts of a format and leaves as much of them as
the buffer has room for, with a terminator. The precision counts for strings only.
-/

namespace Lsmalloc

/-! ## The grammar -/

/-- A flag. -/
inductive Flag
  | altForm
  | leftJustify
  | plusSpace
  | plusPlus
deriving DecidableEq, Repr

/-- Its character. -/
def Flag.char : Flag → Char
  | .altForm => '#'
  | .leftJustify => '-'
  | .plusSpace => ' '
  | .plusPlus => '+'

/-- A width or a precision, in an argument or in digits. -/
inductive Amount
  | star (v : BitVec 32)
  | digits (n : Nat)
deriving DecidableEq, Repr

def Amount.chars : Amount → List Char
  | .star _ => ['*']
  | .digits n => numeral 10 false n

def Amount.args : Amount → List Arg
  | .star v => [.word32 v]
  | .digits _ => []

def Amount.value : Amount → Int
  | .star v => v.toInt
  | .digits n => n

/-- An amount that an `int` has, and its absolute value too. -/
def Amount.Ok : Amount → Prop
  | .star v => v ≠ BitVec.intMin 32
  | .digits n => n < 2 ^ 31

instance : DecidablePred Amount.Ok
  | .star v => inferInstanceAs (Decidable (v ≠ BitVec.intMin 32))
  | .digits n => inferInstanceAs (Decidable (n < 2 ^ 31))

/-- The length modifiers of integers of eight bytes. -/
inductive Wide
  | l
  | ll
  | q
  | j
  | t
  | z
deriving DecidableEq, Repr

def Wide.chars : Wide → List Char
  | .l => ['l']
  | .ll => ['l', 'l']
  | .q => ['q']
  | .j => ['j']
  | .t => ['t']
  | .z => ['z']

/-- An integer argument with the length modifier for it. -/
inductive Integer
  | int (v : BitVec 32)
  | wide (length : Wide) (v : BitVec 64)
deriving DecidableEq, Repr

def Integer.chars : Integer → List Char
  | .int _ => []
  | .wide length _ => length.chars

def Integer.arg : Integer → Arg
  | .int v => .word32 v
  | .wide _ v => .word64 v

def Integer.toInt : Integer → Int
  | .int v => v.toInt
  | .wide _ v => v.toInt

def Integer.toNat : Integer → Nat
  | .int v => v.toNat
  | .wide _ v => v.toNat

/-- An integer that the unsigned conversions take: `t` has no unsigned type. -/
def Integer.Unsigned (v : Integer) : Prop := ∀ w, v ≠ .wide .t w

/-- A conversion, with its argument. -/
inductive Conversion
  | percent
  | signed (letter : Bool) (v : Integer)
  | octal (v : Integer)
  | unsigned (v : Integer)
  | hex (uppercase : Bool) (v : Integer)
  | char (v : BitVec 32)
  /-- A string, and what is in its object behind the terminator. -/
  | string (s behind : List Char)
  | pointer (v : BitVec 64)
deriving DecidableEq, Repr

/-- The length modifier. -/
def Conversion.length : Conversion → List Char
  | .signed _ v => v.chars
  | .octal v => v.chars
  | .unsigned v => v.chars
  | .hex _ v => v.chars
  | _ => []

/-- The conversion specifier. -/
def Conversion.specifier : Conversion → Char
  | .percent => '%'
  | .signed letter _ => if letter = true then 'i' else 'd'
  | .octal _ => 'o'
  | .unsigned _ => 'u'
  | .hex uppercase _ => if uppercase = true then 'X' else 'x'
  | .char _ => 'c'
  | .string _ _ => 's'
  | .pointer _ => 'p'

def Conversion.chars (c : Conversion) : List Char := c.length ++ [c.specifier]

def Conversion.args : Conversion → List Arg
  | .percent => []
  | .signed _ v => [v.arg]
  | .octal v => [v.arg]
  | .unsigned v => [v.arg]
  | .hex _ v => [v.arg]
  | .char v => [.word32 v]
  | .string s behind => [.string (s ++ nul :: behind)]
  | .pointer v => [.word64 v]

/-- A directive with its arguments. -/
structure Directive where
  flags : List Flag
  width : Option Amount
  /-- The precision behind a `.`, which may be left out. -/
  prec : Option (Option Amount)
  conversion : Conversion
deriving DecidableEq, Repr

/-- The characters of a directive, behind its `%`. -/
def Directive.chars (d : Directive) : List Char :=
  d.flags.map Flag.char ++
    ((d.width.map Amount.chars).getD [] ++
      ((d.prec.map fun amount => '.' :: (amount.map Amount.chars).getD []).getD [] ++
        d.conversion.chars))

def Directive.args (d : Directive) : List Arg :=
  (d.width.map Amount.args).getD [] ++
    ((d.prec.join.map Amount.args).getD [] ++ d.conversion.args)

/-- What a precision makes of a string: as many characters of its object, also where the
terminator is among them. -/
def Directive.cut (d : Directive) (s behind : List Char) : List Char :=
  match d.prec.join with
  | none => s
  | some amount => if amount.value < 0 then s else (s ++ nul :: behind).take amount.value.toNat

/-- The text of the value of a directive. -/
def Directive.body (d : Directive) : List Char :=
  match d.conversion with
  | .percent => ['%']
  | .signed _ v =>
      (if v.toInt < 0 then ['-'] else if .plusPlus ∈ d.flags then ['+']
        else if .plusSpace ∈ d.flags then [' '] else []) ++ numeral 10 false v.toInt.natAbs
  | .octal v =>
      (if .altForm ∈ d.flags ∧ v.toNat ≠ 0 then ['0'] else []) ++ numeral 8 false v.toNat
  | .unsigned v => numeral 10 false v.toNat
  | .hex uppercase v =>
      (if .altForm ∈ d.flags then ['0', if uppercase = true then 'X' else 'x'] else []) ++
        numeral 16 uppercase v.toNat
  | .char v => [Char.ofNat (v.toNat % 256)]
  | .string s behind => d.cut s behind
  | .pointer v => ['0', 'x'] ++ numeral 16 false v.toNat

/-- The number of columns that the text of a directive is padded to. -/
def Directive.columns (d : Directive) : Nat := (d.width.map fun w => w.value.natAbs).getD 0

/-- The text is padded on its right. -/
def Directive.Left (d : Directive) : Prop :=
  .leftJustify ∈ d.flags ∨ ∃ w, d.width = some w ∧ w.value < 0

instance (d : Directive) : Decidable d.Left :=
  match here : d.width with
  | none => decidable_of_iff (.leftJustify ∈ d.flags) (by simp [Directive.Left, here])
  | some w => decidable_of_iff (.leftJustify ∈ d.flags ∨ w.value < 0) (by simp [Directive.Left, here])

/-- A text that is padded to a width on its left or on its right. -/
def padded (columns : Nat) (left : Bool) (s : List Char) : List Char :=
  if left = true then s ++ List.replicate (columns - s.length) ' '
  else List.replicate (columns - s.length) ' ' ++ s

/-- The text of a directive. A percent sign is not padded. -/
def Directive.text (d : Directive) : List Char :=
  if d.conversion = .percent then ['%'] else padded d.columns (decide d.Left) d.body

/-- A directive that the function takes: no flag is repeated, the amounts are those of an `int`, and
the precision of a string ends in its object. -/
structure Directive.Ok (d : Directive) : Prop where
  flags : d.flags.Nodup
  width : ∀ w, d.width = some w → w.Ok
  prec : ∀ p, d.prec = some (some p) → p.Ok
  unsigned : ∀ v, (d.conversion = .octal v ∨ d.conversion = .unsigned v ∨
    ∃ uppercase, d.conversion = .hex uppercase v) → v.Unsigned
  string : ∀ s behind, d.conversion = .string s behind → nul ∉ s ∧
    ∀ p, d.prec = some (some p) → p.value ≤ (s ++ nul :: behind).length

/-- A part of a format: a character that is printed, or a directive. -/
inductive Item
  | plain (c : Char)
  | directive (d : Directive)
deriving DecidableEq, Repr

def Item.chars : Item → List Char
  | .plain c => [c]
  | .directive d => '%' :: d.chars

def Item.args : Item → List Arg
  | .plain _ => []
  | .directive d => d.args

def Item.text : Item → List Char
  | .plain c => [c]
  | .directive d => d.text

def Item.Ok : Item → Prop
  | .plain c => c ≠ '%' ∧ c ≠ nul
  | .directive d => d.Ok

/-! ## The buffer -/

/-- The buffer shows the front of a text, and is as it was elsewhere. -/
structure Shows (size : Nat) (old : Nat → Char) (reports : Nat) (text : List Char) (out : Output) :
    Prop where
  i : out.i = text.length
  str : ∀ j, out.str j = if j < size then text.getD j (old j) else old j
  notImplemented : out.notImplemented = reports

variable {size reports : Nat} {old : Nat → Char} {text s more : List Char} {out : Output} {c : Char}

theorem getD_append (text s : List Char) (j : Nat) (c : Char) :
    (text ++ s).getD j c = if j < text.length then text.getD j c else s.getD (j - text.length) c := by
  split
  · rename_i front
    exact List.getD_append text s c j front
  · rename_i behind
    exact List.getD_append_right text s c j (Nat.le_of_not_lt behind)

theorem Shows.appendC (shows : Shows size old reports text out) (room : text.length + 1 < 2 ^ 64)
    (c : Char) : Shows size old reports (text ++ [c]) (appendC size c out) where
  i := by
    rw [List.length_append, List.length_singleton]
    change szAdd out.i 1 = _
    rw [shows.i, szAdd_of_lt room]
  str j := by
    have before := shows.str j
    change (if out.i < size then Function.update out.str out.i c else out.str) j = _
    rw [getD_append, shows.i]
    by_cases inside : text.length < size
    · rw [if_pos inside]
      by_cases last : j = text.length
      · rw [last, Function.update_self, if_pos inside, if_neg (Nat.lt_irrefl _), Nat.sub_self]
        rfl
      · rw [Function.update_of_ne last, before]
        split
        · split
          · rfl
          · rw [List.getD_eq_default _ _ (by omega), List.getD_eq_default _ _ (by simp; omega)]
        · rfl
    · rw [if_neg inside, before]
      split
      · rw [if_pos (by omega)]
      · rfl
  notImplemented := shows.notImplemented

/-- The characters that are copied are those that the buffer has room for. -/
theorem Shows.appendS (shows : Shows size old reports text out) {slen : Nat}
    (readable : slen ≤ s.length) (room : text.length + slen < 2 ^ 64) :
    ∃ out', appendS size s slen out = .ok out' ∧
      Shows size old reports (text ++ s.take slen) out' := by
  have length : (text ++ s.take slen).length = text.length + slen := by
    rw [List.length_append, List.length_take, Nat.min_eq_left readable]
  have sum : szAdd out.i slen = (text ++ s.take slen).length := by
    rw [shows.i, length, szAdd_of_lt room]
  by_cases inside : out.i < size
  · have cut : (if slen ≤ size - out.i then slen else size - out.i) ≤ s.length := by
      split <;> omega
    have copied : Lsmalloc.appendS size s slen out = .ok { out with
        str := memcpy out.str out.i (s.take (if slen ≤ size - out.i then slen else size - out.i))
        i := szAdd out.i slen } := by
      rw [Lsmalloc.appendS, if_pos inside]
      exact if_pos cut
    refine ⟨_, copied, sum, fun j => ?_, shows.notImplemented⟩
    have before := shows.str j
    rw [getD_append]
    change (if j < out.i then out.str j else _) = _
    rw [shows.i] at inside ⊢
    by_cases front : j < text.length
    · rw [if_pos front, if_pos front, before]
    · have behind : out.str j = old j := by
        rw [before, List.getD_eq_default _ _ (Nat.le_of_not_lt front), ite_self]
      rw [if_neg front, if_neg front, behind]
      simp only [List.getD_eq_getElem?_getD, List.getElem?_take]
      by_cases whole : slen ≤ size - text.length
      · rw [if_pos whole]
        by_cases fits : j < size
        · rw [if_pos fits]
        · rw [if_neg fits, if_neg (by omega)]
          rfl
      · rw [if_neg whole]
        by_cases fits : j < size
        · rw [if_pos fits, if_pos (by omega), if_pos (by omega)]
        · rw [if_neg fits, if_neg (by omega)]
          rfl
  · have counted : Lsmalloc.appendS size s slen out = .ok { out with i := szAdd out.i slen } := by
      rw [Lsmalloc.appendS, if_neg inside]
    refine ⟨_, counted, sum, fun j => ?_, shows.notImplemented⟩
    rw [shows.i] at inside
    change out.str j = _
    rw [shows.str j, getD_append]
    split
    · rw [if_pos (by omega)]
    · rfl

theorem Shows.appendSpaces {padLen : Nat} (shows : Shows size old reports text out)
    (room : text.length + padLen < 2 ^ 64) :
    Shows size old reports (text ++ List.replicate padLen ' ') (appendSpaces size padLen out) := by
  induction padLen generalizing text out with
  | zero =>
      rw [List.replicate_zero, List.append_nil]
      exact shows
  | succ padLen ih =>
      have more := ih (shows.appendC (by omega) ' ') (by simp; omega)
      rw [List.append_assoc] at more
      rw [List.replicate_succ]
      exact more

/-- `APPEND_PADDED_S` pads to the width. -/
theorem Shows.appendPaddedS (shows : Shows size old reports text out) {slen columns : Nat}
    {width : Int} (readable : slen ≤ s.length)
    (isWidth : (width = -1 ∧ columns = 0) ∨ width = (columns : Nat)) (small : columns < 2 ^ 32)
    (left : Bool) (room : text.length + (slen + (columns - slen)) < 2 ^ 64) :
    ∃ out', appendPaddedS size s slen width left out = .ok out' ∧
      Shows size old reports (text ++ padded columns left (s.take slen)) out' := by
  have length : (s.take slen).length = slen := by rw [List.length_take, Nat.min_eq_left readable]
  have padLen : (if width = -1 then 0 else if slen < (width % 2 ^ 64).toNat then
      (width % 2 ^ 64).toNat - slen else 0) = columns - slen := by
    rcases isWidth with ⟨rfl, rfl⟩ | rfl
    · simp
    · have value : ((columns : Int) % 2 ^ 64).toNat = columns := by omega
      rw [if_neg (by omega), value]
      split <;> omega
  unfold Lsmalloc.appendPaddedS padded
  simp only [padLen, length]
  -- The spaces on either side.
  have spaces : ∀ {text : List Char} {out : Output}, Shows size old reports text out →
      text.length + (columns - slen) < 2 ^ 64 →
      Shows size old reports (text ++ List.replicate (columns - slen) ' ')
        (if columns - slen ≠ 0 then Lsmalloc.appendSpaces size (columns - slen) out else out) := by
    intro text out shows room
    by_cases none : columns - slen = 0
    · simpa [none] using shows
    · rw [if_pos none]
      exact shows.appendSpaces room
  cases left with
  | false =>
      obtain ⟨out', copied, shows'⟩ :=
        (spaces shows (by omega)).appendS readable (by simp; omega)
      rw [List.append_assoc] at shows'
      simp only [true_and, copied, Bool.false_eq_true, false_and, if_false]
      exact ⟨out', rfl, shows'⟩
  | true =>
      obtain ⟨out', copied, shows'⟩ := shows.appendS readable (by omega)
      have padded := spaces shows' (by simp; omega)
      rw [List.append_assoc] at padded
      simp only [Bool.true_eq_false, false_and, if_false, copied, true_and, if_true]
      exact ⟨_, rfl, padded⟩

/-! ## Reading a directive -/

/-- The flags of a list. -/
def Flags.of (flags : List Flag) : Flags where
  altForm := decide (.altForm ∈ flags)
  leftJustify := decide (.leftJustify ∈ flags)
  plusSpace := decide (.plusSpace ∈ flags)
  plusPlus := decide (.plusPlus ∈ flags)

variable {rest : List Char} {ap : List Arg}

/-- What a length modifier or a conversion specifier starts with. -/
def starters : List Char :=
  ['%', 'd', 'i', 'o', 'u', 'x', 'X', 'c', 's', 'p', 'l', 'q', 'j', 't', 'z']

theorem Conversion.starts (conversion : Conversion) (rest : List Char) :
    ∃ c p, conversion.chars ++ rest = c :: p ∧ c ∈ starters := by
  have integer : ∀ (v : Integer) (e : Char), e ∈ starters →
      ∃ c p, v.chars ++ [e] ++ rest = c :: p ∧ c ∈ starters := by
    intro v e member
    cases v with
    | int _ => exact ⟨e, rest, rfl, member⟩
    | wide length _ => cases length <;> exact ⟨_, _, rfl, by simp [starters]⟩
  cases conversion with
  | percent => exact ⟨_, _, rfl, by simp [Conversion.specifier, starters]⟩
  | signed letter v => exact integer v _ (by cases letter <;> simp [Conversion.specifier, starters])
  | octal v => exact integer v _ (by simp [Conversion.specifier, starters])
  | unsigned v => exact integer v _ (by simp [Conversion.specifier, starters])
  | hex uppercase v => exact integer v _ (by cases uppercase <;> simp [Conversion.specifier, starters])
  | char _ => exact ⟨_, _, rfl, by simp [Conversion.specifier, starters]⟩
  | string _ _ => exact ⟨_, _, rfl, by simp [Conversion.specifier, starters]⟩
  | pointer _ => exact ⟨_, _, rfl, by simp [Conversion.specifier, starters]⟩

/-- What `getWidth` returns for a width that is left out or given. -/
def widthOf : Option Amount → Int
  | none => -1
  | some w => w.value.natAbs

/-- What `getPrec` returns for a precision. -/
def precOf (prec : Option (Option Amount)) : Int := (prec.join.map Amount.value).getD (-1)

/-- The value of `len` for an integer. -/
def Integer.len : Integer → Len
  | .int _ => .int
  | .wide .l _ => .l
  | .wide .ll _ => .q
  | .wide .q _ => .q
  | .wide .j _ => .j
  | .wide .t _ => .t
  | .wide .z _ => .z

def Conversion.len : Conversion → Len
  | .signed _ v => v.len
  | .octal v => v.len
  | .unsigned v => v.len
  | .hex _ v => v.len
  | _ => .int

theorem Integer.toNat_lt (v : Integer) : v.toNat < 2 ^ 64 := by
  cases v with
  | int v => exact v.isLt.trans (by decide)
  | wide _ v => exact v.isLt

/-- What is before the conversion specifier of a directive. -/
def Directive.spec (d : Directive) : Spec where
  flags := { Flags.of d.flags with leftJustify := decide d.Left }
  width := widthOf d.width
  prec := precOf d.prec
  len := d.conversion.len

variable {d : Directive}

theorem Directive.Ok.columns (ok : d.Ok) :
    ((d.spec.width = -1 ∧ d.columns = 0) ∨ d.spec.width = (d.columns : Nat)) ∧
      d.columns < 2 ^ 32 := by
  have width := ok.width
  simp only [Directive.spec, Directive.columns]
  cases here : d.width with
  | none => exact ⟨.inl ⟨rfl, rfl⟩, by simp⟩
  | some amount =>
      refine ⟨.inr rfl, ?_⟩
      change amount.value.natAbs < 2 ^ 32
      cases amount with
      | star v =>
          have low := v.le_toInt
          have high := v.toInt_lt
          simp only [Amount.value]
          omega
      | digits n =>
          have small : n < 2 ^ 31 := width _ here
          simp only [Amount.value]
          omega

/-- The front of a string is padded as the directive says. -/
theorem Directive.Ok.prints (ok : d.Ok) (shows : Shows size old reports text out) {slen : Nat}
    (readable : slen ≤ s.length)
    (room : text.length + (padded d.columns (decide d.Left) (s.take slen)).length < 2 ^ 64) :
    ∃ out', appendPaddedS size s slen d.spec.width d.spec.flags.leftJustify out = .ok out' ∧
      Shows size old reports (text ++ padded d.columns (decide d.Left) (s.take slen)) out' := by
  obtain ⟨isWidth, small⟩ := ok.columns
  refine shows.appendPaddedS readable isWidth small _ ?_
  rw [padded] at room
  split at room <;> simp at room <;> omega

end Lsmalloc
