import Lsmalloc.Support.Numeral
import Lsmalloc.World

/-!
# Numbers and their digits in `util.c`

`u2s` and its relatives write a number into a buffer from its end, and `malloc_strtoumax` reads
one. A C string is the list of its characters before the terminator, and a pointer into it is
what is left of it from there.
-/

namespace Lsmalloc

/-- `'\0'`. -/
def nul : Char := Char.ofNat 0

/-- `UINTMAX_MAX`. -/
def uintmaxMax : Nat := 2 ^ 64 - 1

/-! ## Writing -/

/-- `U2S_BUFSIZE - 1`, where `u2s` puts the terminator. -/
def u2sEnd : Nat := 1 <<< (3 + 3)

/-- The digits that `u2s` writes. -/
def digitTable (uppercase : Bool) : List Char :=
  ['0', '1', '2', '3', '4', '5', '6', '7', '8', '9'] ++
    if uppercase = true then
      ['A', 'B', 'C', 'D', 'E', 'F', 'G', 'H', 'I', 'J', 'K', 'L', 'M', 'N', 'O', 'P', 'Q', 'R',
        'S', 'T', 'U', 'V', 'W', 'X', 'Y', 'Z']
    else
      ['a', 'b', 'c', 'd', 'e', 'f', 'g', 'h', 'i', 'j', 'k', 'l', 'm', 'n', 'o', 'p', 'q', 'r',
        's', 't', 'u', 'v', 'w', 'x', 'y', 'z']

/-- The loops of `u2s`, at the index `i` of the buffer. `s` is what is written so far. -/
def u2sLoop (table : List Char) (digit rest : Nat → Nat) : Nat → Nat → List Char →
    Except Fault (List Char)
  | 0, _, _ => .error .wild
  | i + 1, x, s =>
      let s := table.getD (digit x) nul :: s
      let x := rest x
      if x > 0 then u2sLoop table digit rest i x s else .ok s

/-- `u2s`: the string that the returned pointer points at. Its length is what `slen_p` is set to. -/
def u2s (x base : Nat) (uppercase : Bool) : Except Fault (List Char) :=
  match base with
  | 10 => u2sLoop ((digitTable false).take 10) (· % 10) (· / 10) u2sEnd x []
  | 16 => u2sLoop ((digitTable uppercase).take 16) (· &&& 0xf) (· >>> 4) u2sEnd x []
  | base =>
      if base ≥ 2 ∧ base ≤ 36 then
        u2sLoop (digitTable uppercase) (· % base) (· / base) u2sEnd x []
      else .error .abort

/-- Put a character in front of what `u2s` wrote. -/
def pushFront (c : Char) (s : List Char) : Except Fault (List Char) :=
  if s.length < u2sEnd then .ok (c :: s) else .error .wild

/-- `d2s`. -/
def d2s (x : Int) (sign : Char) : Except Fault (List Char) := do
  let neg := decide (x < 0)
  let x := if neg = true then -x else x
  let s ← u2s (x % 2 ^ 64).toNat 10 false
  let sign := if neg = true then '-' else sign
  match sign with
  | '-' => if neg = false then .ok s else pushFront sign s
  | ' ' => pushFront sign s
  | '+' => pushFront sign s
  | _ => .error .abort

/-- `o2s`. -/
def o2s (x : Nat) (altForm : Bool) : Except Fault (List Char) := do
  let s ← u2s x 8 false
  if altForm = true ∧ s.head? ≠ some '0' then pushFront '0' s else .ok s

/-- `x2s`. -/
def x2s (x : Nat) (altForm uppercase : Bool) : Except Fault (List Char) := do
  let s ← u2s x 16 uppercase
  if altForm = true then do
    let s ← pushFront (if uppercase = true then 'X' else 'x') s
    pushFront '0' s
  else .ok s

/-! ## Reading -/

/-- What `malloc_strtoumax` sets `errno` to. -/
inductive Errno
  | einval
  | erange
deriving DecidableEq, Repr

/-- What `malloc_strtoumax` returns, where it sets `*endptr`, and `errno` where it is set. -/
structure Strtoumax where
  ret : Nat
  endptr : List Char
  errno : Option Errno
deriving DecidableEq, Repr

/-- `'\t'`, `'\n'`, `'\v'`, `'\f'`, `'\r'` and `' '`. -/
def isSpace (c : Char) : Bool := (c.toNat ≥ 9 && c.toNat ≤ 13) || c = ' '

/-- Swallow leading whitespace and get sign, if any. -/
def swallowSign : List Char → Bool × List Char
  | [] => (false, [])
  | c :: p =>
      if isSpace c = true then swallowSign p
      else if c = '-' then (true, p)
      else if c = '+' then (false, p)
      else (false, c :: p)

/-- The digit that a character stands for in a base: `*p` in the three ranges of the loop. -/
def digitOf (b : Nat) (c : Char) : Option Nat :=
  if '0' ≤ c ∧ c ≤ '9' ∧ c.toNat - '0'.toNat < b then some (c.toNat - '0'.toNat)
  else if 'A' ≤ c ∧ c ≤ 'Z' ∧ 10 + c.toNat - 'A'.toNat < b then some (10 + c.toNat - 'A'.toNat)
  else if 'a' ≤ c ∧ c ≤ 'z' ∧ 10 + c.toNat - 'a'.toNat < b then some (10 + c.toNat - 'a'.toNat)
  else none

/-- Get prefix, if any: the base, and where the digits start. The function returns `0` at once
behind a `0` that no octal digit and no `x` follows. -/
def getPrefix (b : Nat) : List Char → Option (Nat × List Char)
  | '0' :: c :: p =>
      if '0' ≤ c ∧ c ≤ '7' then
        let b := if b = 0 then 8 else b
        some (b, if b = 8 then c :: p else '0' :: c :: p)
      else if c = 'X' ∨ c = 'x' then
        if (p.head?.bind (digitOf 16)).isSome = true then
          let b := if b = 0 then 16 else b
          some (b, if b = 16 then p else '0' :: c :: p)
        else some (b, '0' :: c :: p)
      else none
  | ['0'] => none
  | p => some (b, p)

/-- Convert, with the sign to apply: the value, the end, and whether it overflowed. -/
def convertDigits (b : Nat) (neg : Bool) : Nat → List Char → Strtoumax
  | ret, [] => ⟨if neg = true then (2 ^ 64 - ret) % 2 ^ 64 else ret, [], none⟩
  | ret, c :: p =>
      match digitOf b c with
      | none => ⟨if neg = true then (2 ^ 64 - ret) % 2 ^ 64 else ret, c :: p, none⟩
      | some digit =>
          let pret := ret
          let ret := szAdd (ret * b % 2 ^ 64) digit
          if ret < pret then ⟨uintmaxMax, c :: p, some .erange⟩ else convertDigits b neg ret p

/-- `malloc_strtoumax`. -/
def mallocStrtoumax (nptr : List Char) (base : Int) : Strtoumax :=
  if base < 0 ∨ base = 1 ∨ base > 36 then ⟨uintmaxMax, nptr, some .einval⟩
  else
    let (neg, ns) := swallowSign nptr
    match getPrefix base.toNat ns with
    | none => ⟨0, ns.tail, none⟩
    | some (b, p) =>
        let converted := convertDigits (if b = 0 then 10 else b) neg 0 p
        if converted.errno = none ∧ converted.endptr = ns then ⟨uintmaxMax, nptr, some .einval⟩
        else if converted.endptr = ns then { converted with endptr := nptr }
        else converted

/-- Overflow is not always seen: the sum may wrap past what it was. -/
example : mallocStrtoumax ['3', '0', '0', '0', '0', '0', '0', '0', '0', '0', '0', '0', '0', '0', '0',
    '0', '0', '0', '0', '0'] 10 = ⟨11553255926290448384, [], none⟩ := by decide

end Lsmalloc
