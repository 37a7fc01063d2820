import Mathlib.Logic.Function.Basic
import Lsmalloc.Util.Convert

/-!
# `malloc_vsnprintf`

The formats that the allocator's own `printf` knows. The function walks the format, keeps the
number of characters it would have written in `i`, and stores those that the buffer has room for.
Its assertions reject a flag that is repeated and every directive it does not know.
-/

namespace Lsmalloc

/-! ## Arguments -/

/-- What `va_arg` finds next: an `int` or an `unsigned int`, an integer of eight bytes or a pointer,
or a pointer to characters, with those of the object it points into. -/
inductive Arg
  | word32 (v : BitVec 32)
  | word64 (v : BitVec 64)
  | string (object : List Char)
deriving DecidableEq, Repr

def vaWord32 : List Arg → Except Fault (BitVec 32 × List Arg)
  | .word32 v :: ap => .ok (v, ap)
  | _ => .error .contract

def vaWord64 : List Arg → Except Fault (BitVec 64 × List Arg)
  | .word64 v :: ap => .ok (v, ap)
  | _ => .error .contract

def vaString : List Arg → Except Fault (List Char × List Arg)
  | .string object :: ap => .ok (object, ap)
  | _ => .error .contract

/-- `strlen`. -/
def strlen (object : List Char) : Except Fault Nat :=
  if nul ∈ object then .ok (object.idxOf nul) else .error .wild

/-! ## Output -/

/-- The buffer, the number of characters so far, and how often `not_implemented` has reported. -/
structure Output where
  str : Nat → Char
  i : Nat
  notImplemented : Nat

/-- `APPEND_C`. -/
def appendC (size : Nat) (c : Char) (out : Output) : Output :=
  { out with
    str := if out.i < size then Function.update out.str out.i c else out.str
    i := szAdd out.i 1 }

/-- `memcpy(&str[i], s, ..)` of all the characters of `s`. -/
def memcpy (str : Nat → Char) (i : Nat) (s : List Char) : Nat → Char :=
  fun j => if j < i then str j else s.getD (j - i) (str j)

/-- `APPEND_S`, for a pointer to the characters `s`. -/
def appendS (size : Nat) (s : List Char) (slen : Nat) (out : Output) : Except Fault Output :=
  if out.i < size then
    let cpylen := if slen ≤ size - out.i then slen else size - out.i
    if cpylen ≤ s.length then
      .ok { out with str := memcpy out.str out.i (s.take cpylen), i := szAdd out.i slen }
    else .error .wild
  else .ok { out with i := szAdd out.i slen }

/-- The loops of `APPEND_PADDED_S`. -/
def appendSpaces (size : Nat) : Nat → Output → Output
  | 0, out => out
  | padLen + 1, out => appendSpaces size padLen (appendC size ' ' out)

/-- `APPEND_PADDED_S`. -/
def appendPaddedS (size : Nat) (s : List Char) (slen : Nat) (width : Int) (leftJustify : Bool)
    (out : Output) : Except Fault Output := do
  -- `(size_t)width`
  let columns := (width % 2 ^ 64).toNat
  let padLen := if width = -1 then 0 else if slen < columns then columns - slen else 0
  let out := if leftJustify = false ∧ padLen ≠ 0 then appendSpaces size padLen out else out
  let out ← appendS size s slen out
  .ok (if leftJustify = true ∧ padLen ≠ 0 then appendSpaces size padLen out else out)

/-! ## Directives -/

/-- The flags of a directive. -/
structure Flags where
  altForm : Bool
  leftJustify : Bool
  plusSpace : Bool
  plusPlus : Bool
deriving DecidableEq, Repr

/-- The values of `len`, `'?'` first. -/
inductive Len
  | int
  | l
  | q
  | j
  | t
  | z
  | p
deriving DecidableEq, Repr

/-- A directive up to its conversion specifier. -/
structure Spec where
  flags : Flags
  width : Int
  prec : Int
  len : Len
deriving DecidableEq, Repr

/-- `GET_ARG_NUMERIC(val, len)`, or with `len | 0x80`. -/
def getArgNumeric (len : Len) (unsigned : Bool) (ap : List Arg) :
    Except Fault (BitVec 64 × List Arg) :=
  match len, unsigned with
  | .int, false => do
      let (v, ap) ← vaWord32 ap
      .ok (v.signExtend 64, ap)
  | .int, true => do
      let (v, ap) ← vaWord32 ap
      .ok (v.zeroExtend 64, ap)
  | .t, true => .error .abort
  | .p, true => .error .abort
  | _, _ => vaWord64 ap

/-- Flags. -/
def getFlags (flags : Flags) : List Char → Except Fault (Flags × List Char)
  | '#' :: f =>
      if flags.altForm = false then getFlags { flags with altForm := true } f else .error .abort
  | '-' :: f =>
      if flags.leftJustify = false then getFlags { flags with leftJustify := true } f
      else .error .abort
  | ' ' :: f =>
      if flags.plusSpace = false then getFlags { flags with plusSpace := true } f
      else .error .abort
  | '+' :: f =>
      if flags.plusPlus = false then getFlags { flags with plusPlus := true } f
      else .error .abort
  | f => .ok (flags, f)

/-- A width or a precision in digits, as an `int`. -/
def getNumber (f : List Char) : Except Fault (Int × List Char) :=
  let number := mallocStrtoumax f 10
  if number.ret = uintmaxMax ∧ number.errno = some .erange then .error .abort
  else .ok ((BitVec.ofNat 32 number.ret).toInt, number.endptr)

/-- Width, with `left_justify`. -/
def getWidth (leftJustify : Bool) (ap : List Arg) (f : List Char) :
    Except Fault (Bool × Int × List Arg × List Char) :=
  match f with
  | [] => .ok (leftJustify, -1, ap, [])
  | c :: rest =>
      if c = '*' then do
        let (width, ap) ← vaWord32 ap
        if width.toInt < 0 then .ok (true, (-width).toInt, ap, rest)
        else .ok (leftJustify, width.toInt, ap, rest)
      else if '0' ≤ c ∧ c ≤ '9' then do
        let (width, f) ← getNumber f
        .ok (leftJustify, width, ap, f)
      else .ok (leftJustify, -1, ap, f)

/-- Width/precision separator, and precision. -/
def getPrec (ap : List Arg) (f : List Char) : Except Fault (Int × List Arg × List Char) :=
  match f with
  | '.' :: [] => .ok (-1, ap, [])
  | '.' :: c :: rest =>
      if c = '*' then do
        let (prec, ap) ← vaWord32 ap
        .ok (prec.toInt, ap, rest)
      else if '0' ≤ c ∧ c ≤ '9' then do
        let (prec, f) ← getNumber (c :: rest)
        .ok (prec, ap, f)
      else .ok (-1, ap, c :: rest)
  | f => .ok (-1, ap, f)

/-- Length. -/
def getLength : List Char → Len × List Char
  | 'l' :: 'l' :: f => (.q, f)
  | 'l' :: f => (.l, f)
  | 'q' :: f => (.q, f)
  | 'j' :: f => (.j, f)
  | 't' :: f => (.t, f)
  | 'z' :: f => (.z, f)
  | f => (.int, f)

/-- `%d` and `%i`. -/
def convertSigned (size : Nat) (spec : Spec) (ap : List Arg) (out : Output) :
    Except Fault (List Arg × Output) := do
  let (val, ap) ← getArgNumeric spec.len false ap
  let sign :=
    if spec.flags.plusPlus = true then '+' else if spec.flags.plusSpace = true then ' ' else '-'
  let s ← d2s val.toInt sign
  let out ← appendPaddedS size s s.length spec.width spec.flags.leftJustify out
  .ok (ap, out)

/-- `%o`, `%u`, `%x`, `%X` and `%p`, with the function that writes the number. -/
def convertUnsigned (size : Nat) (spec : Spec) (len : Len) (unsigned : Bool)
    (write : Nat → Except Fault (List Char)) (ap : List Arg) (out : Output) :
    Except Fault (List Arg × Output) := do
  let (val, ap) ← getArgNumeric len unsigned ap
  let s ← write val.toNat
  let out ← appendPaddedS size s s.length spec.width spec.flags.leftJustify out
  .ok (ap, out)

/-- What `%c` and `%s` assert of the length. -/
def assertLength (len : Len) (out : Output) : Except Fault Output :=
  match len with
  | .int => .ok out
  | .l => .ok { out with notImplemented := out.notImplemented + 1 }
  | _ => .error .abort

/-- `%c`. -/
def convertChar (size : Nat) (spec : Spec) (ap : List Arg) (out : Output) :
    Except Fault (List Arg × Output) := do
  let out ← assertLength spec.len out
  let (val, ap) ← vaWord32 ap
  let buf := [Char.ofNat (val.toNat % 256), nul]
  let out ← appendPaddedS size buf 1 spec.width spec.flags.leftJustify out
  .ok (ap, out)

/-- `%s`. -/
def convertString (size : Nat) (spec : Spec) (ap : List Arg) (out : Output) :
    Except Fault (List Arg × Output) := do
  let out ← assertLength spec.len out
  let (s, ap) ← vaString ap
  let slen ← (if spec.prec < 0 then strlen s else .ok spec.prec.toNat)
  let out ← appendPaddedS size s slen spec.width spec.flags.leftJustify out
  .ok (ap, out)

/-- Conversion specifier. -/
def convertArg (size : Nat) (spec : Spec) (specifier : Char) (ap : List Arg) (out : Output) :
    Except Fault (List Arg × Output) :=
  match specifier with
  | '%' => .ok (ap, appendC size '%' out)
  | 'd' => convertSigned size spec ap out
  | 'i' => convertSigned size spec ap out
  | 'o' => convertUnsigned size spec spec.len true (o2s · spec.flags.altForm) ap out
  | 'u' => convertUnsigned size spec spec.len true (u2s · 10 false) ap out
  | 'x' => convertUnsigned size spec spec.len true (x2s · spec.flags.altForm false) ap out
  | 'X' => convertUnsigned size spec spec.len true (x2s · spec.flags.altForm true) ap out
  | 'c' => convertChar size spec ap out
  | 's' => convertString size spec ap out
  | 'p' => convertUnsigned size spec .p false (x2s · true false) ap out
  | _ => .error .abort

/-- A directive, behind its `%`. -/
def directive (size : Nat) (f : List Char) (ap : List Arg) (out : Output) :
    Except Fault (List Char × List Arg × Output) := do
  let (flags, f) ← getFlags ⟨false, false, false, false⟩ f
  let (leftJustify, width, ap, f) ← getWidth flags.leftJustify ap f
  let (prec, ap, f) ← getPrec ap f
  let (len, f) := getLength f
  match f with
  | [] => .error .abort
  | specifier :: f => do
      let spec := ⟨{ flags with leftJustify := leftJustify }, width, prec, len⟩
      let (ap, out) ← convertArg size spec specifier ap out
      .ok (f, ap, out)

/-- The loop of `malloc_vsnprintf`. -/
def vsnprintfLoop (size : Nat) : Nat → List Char → List Arg → Output → Except Fault Output
  | _, [], _, out => .ok out
  | 0, _ :: _, _, _ => .error .fuel
  | fuel + 1, c :: f, ap, out =>
      if c = '%' then do
        let (f, ap, out) ← directive size f ap out
        vsnprintfLoop size fuel f ap out
      else vsnprintfLoop size fuel f ap (appendC size c out)

/-- `malloc_vsnprintf`: what it returns, and the buffer. Each round of the loop consumes a
character of the format. With a size of zero it stores in front of the buffer. -/
def mallocVsnprintf (str : Nat → Char) (size : Nat) (format : List Char) (ap : List Arg) :
    Except Fault (Int × Output) := do
  let out ← vsnprintfLoop size format.length format ap ⟨str, 0, 0⟩
  let ret := (BitVec.ofNat 32 out.i).toInt
  if out.i < size then .ok (ret, { out with str := Function.update out.str out.i nul })
  else if size = 0 then .error .wild
  else .ok (ret, { out with str := Function.update out.str (size - 1) nul })

/-- The terminator is behind the characters, or in the last byte. -/
theorem mallocVsnprintf_eq {str : Nat → Char} {size : Nat} {format : List Char} {ap : List Arg}
    {out : Output} (hasByte : 0 < size)
    (loop : vsnprintfLoop size format.length format ap ⟨str, 0, 0⟩ = .ok out) :
    mallocVsnprintf str size format ap = .ok ((BitVec.ofNat 32 out.i).toInt,
      { out with str := Function.update out.str (min out.i (size - 1)) nul }) := by
  refine Execution.bind_eq_ok.mpr ⟨out, loop, ?_⟩
  dsimp only
  by_cases fits : out.i < size
  · rw [if_pos fits, Nat.min_eq_left (by omega)]
  · rw [if_neg fits, if_neg (by omega), Nat.min_eq_right (by omega)]

end Lsmalloc
