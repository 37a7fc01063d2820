import Lsmalloc.Support.Simulation
import Lsmalloc.Util.Format
import Lsmalloc.Util.RoundTrip

/-!
# The buffer of `malloc_vsnprintf`

What holds for every format and every list of arguments. The function stores in front of `size`
only, terminates what it stores, and ends: each directive consumes a character. A buffer that is
smaller gets the front of what a larger one gets, and the same number is returned.
-/

namespace Lsmalloc

open Execution

universe u v

/-- The faults of `malloc_vsnprintf`: an assertion, an argument of another type, or an access
outside of an object, where there is one to be `past`. -/
def Fault.Printing (past : Prop) (fault : Fault) : Prop :=
  fault = .abort ∨ fault = .contract ∨ fault = .wild ∧ past

/-- The same number of characters so far, and the same bytes in front of `size`. -/
structure Alike (size : Nat) (out out' : Output) : Prop where
  i : out.i = out'.i
  notImplemented : out.notImplemented = out'.notImplemented
  str : ∀ j < size, out.str j = out'.str j

theorem Alike.refl (size : Nat) (out : Output) : Alike size out out := ⟨rfl, rfl, fun _ _ => rfl⟩

/-- An action on the output that is right for buffers of every size. It stores in front of `size`
only, and where it succeeds with a larger buffer it succeeds with a smaller one alike. -/
structure Bounded {ρ : Type u} {α : Type v} (past : Prop) (part : ρ → α) (output : ρ → Output)
    (act : Nat → Output → Except Fault ρ) : Prop where
  stays : ∀ size out, Delivers (Fault.Printing past)
    (fun r => ∀ j, size ≤ j → (output r).str j = out.str j) (act size out)
  truncates : ∀ {size size' : Nat} {out out' : Output}, size ≤ size' → Alike size out out' →
    Covers (fun r' r => part r = part r' ∧ Alike size (output r) (output r'))
      (act size' out') (act size out)

section Bounded

variable {ρ σ β : Type u} {α γ : Type v} {part : ρ → α} {output : ρ → Output}
  {part' : σ → γ} {output' : σ → Output} {past : Prop}

theorem bounded_ok {make : Output → ρ} {a : α} (parts : ∀ out, part (make out) = a)
    (same : ∀ out, output (make out) = out) :
    Bounded past part output fun _ out => .ok (make out) where
  stays size out := delivers_ok fun j _ => by rw [same]
  truncates _ alike := by
    refine covers_ok ⟨by rw [parts, parts], ?_⟩
    rw [same, same]
    exact alike

theorem bounded_error {fault : Fault} (printing : fault.Printing past) :
    Bounded past part output fun _ _ => .error fault where
  stays _ _ := delivers_error printing
  truncates _ _ := covers_error fault

/-- What does not look at the output comes first. -/
theorem Bounded.read {act : β → Nat → Output → Except Fault ρ} {first : Except Fault β}
    (fails : FailsOnly (Fault.Printing past) first)
    (later : ∀ b, first = .ok b → Bounded past part output (act b)) :
    Bounded past part output fun size out => first >>= fun b => act b size out where
  stays size out := by
    have here : Delivers (Fault.Printing past) (fun b => first = .ok b) first :=
      ⟨fails, fun _ outcome => outcome⟩
    exact here.bind fun b outcome => (later b outcome).stays size out
  truncates le alike := by
    have here : Covers (fun b c => b = c ∧ first = .ok b) first first := fun b outcome =>
      ⟨b, outcome, rfl, outcome⟩
    refine here.bind ?_
    rintro b _ ⟨rfl, outcome⟩
    exact (later b outcome).truncates le alike

/-- One action after another. -/
theorem Bounded.seq {act : Nat → Output → Except Fault ρ}
    {next : α → Nat → Output → Except Fault σ} (here : Bounded past part output act)
    (later : ∀ a, (∃ size out r, act size out = .ok r ∧ part r = a) →
      Bounded past part' output' (next a)) :
    Bounded past part' output' fun size out => act size out >>= fun r =>
      next (part r) size (output r) where
  stays size out := by
    have first : Delivers (Fault.Printing past)
        (fun r => (∀ j, size ≤ j → (output r).str j = out.str j) ∧ act size out = .ok r)
        (act size out) :=
      ⟨(here.stays size out).1, fun r outcome => ⟨(here.stays size out).2 r outcome, outcome⟩⟩
    refine first.bind fun r holds => ?_
    obtain ⟨kept, outcome⟩ := holds
    refine ((later (part r) ⟨size, out, r, outcome, rfl⟩).stays size (output r)).mono
      (fun _ printing => printing) fun s kept' j behind => ?_
    rw [kept' j behind, kept j behind]
  truncates := by
    intro size size' out out' le alike
    have first : Covers (fun r' r => (part r = part r' ∧ Alike size (output r) (output r')) ∧
        act size' out' = .ok r') (act size' out') (act size out) := by
      intro r' outcome
      obtain ⟨r, outcome', related⟩ := here.truncates le alike r' outcome
      exact ⟨r, outcome', related, outcome⟩
    refine first.bind ?_
    rintro r' r ⟨⟨same, alike'⟩, outcome⟩
    rw [same]
    exact (later (part r') ⟨size', out', r', outcome, rfl⟩).truncates le alike'

end Bounded

/-! ## Storing characters -/

/-- An action that returns the output alone. -/
abbrev Prints (past : Prop) (act : Nat → Output → Except Fault Output) : Prop :=
  Bounded past (fun _ => ()) id act

variable {past : Prop}

theorem Alike.appendC {size size' : Nat} {out out' : Output} (alike : Alike size out out')
    (le : size ≤ size') (c : Char) : Alike size (appendC size c out) (appendC size' c out') where
  i := by
    change szAdd out.i 1 = szAdd out'.i 1
    rw [alike.i]
  notImplemented := alike.notImplemented
  str j inside := by
    have same := alike.str j inside
    change (if out.i < size then Function.update out.str out.i c else out.str) j =
      (if out'.i < size' then Function.update out'.str out'.i c else out'.str) j
    rw [← alike.i]
    by_cases here : j = out.i
    · subst here
      rw [if_pos inside, if_pos (by omega), Function.update_self, Function.update_self]
    · split <;> split <;> simp only [Function.update_of_ne here, same]

theorem appendC_stays {size : Nat} (c : Char) (out : Output) {j : Nat} (behind : size ≤ j) :
    (appendC size c out).str j = out.str j := by
  change (if out.i < size then Function.update out.str out.i c else out.str) j = _
  split
  · exact Function.update_of_ne (by omega) _ _
  · rfl

theorem appendC_prints (c : Char) : Prints past fun size out => .ok (appendC size c out) where
  stays _ out := delivers_ok fun _ behind => appendC_stays c out behind
  truncates le alike := covers_ok ⟨rfl, alike.appendC le c⟩

theorem appendSpaces_prints (padLen : Nat) :
    Prints past fun size out => .ok (appendSpaces size padLen out) := by
  induction padLen with
  | zero => exact bounded_ok (fun _ => rfl) fun _ => rfl
  | succ padLen ih => exact (appendC_prints ' ').seq fun _ _ => ih

/-- `APPEND_S` where the buffer has room. -/
theorem appendS_of_room {size slen : Nat} {s : List Char} {out : Output} (room : out.i < size) :
    appendS size s slen out =
      if min slen (size - out.i) ≤ s.length then
        .ok { out with
          str := memcpy out.str out.i (s.take (min slen (size - out.i)))
          i := szAdd out.i slen }
      else .error .wild := by
  rw [appendS, if_pos room]
  simp only [Nat.min_def]

/-- How many characters are copied depends on the room: no more of them where there is less. -/
theorem appendS_prints (s : List Char) (slen : Nat) (reads : s.length < slen → past) :
    Prints past fun size out => appendS size s slen out where
  stays size out := by
    by_cases room : out.i < size
    · rw [appendS_of_room room]
      by_cases readable : min slen (size - out.i) ≤ s.length
      · rw [if_pos readable]
        have stays : ∀ j, size ≤ j →
            memcpy out.str out.i (s.take (min slen (size - out.i))) j = out.str j := by
          intro j behind
          rw [memcpy, if_neg (by omega), List.getD_eq_default]
          rw [List.length_take]
          omega
        exact delivers_ok stays
      · rw [if_neg readable]
        exact delivers_error (.inr (.inr ⟨rfl, reads (by omega)⟩))
    · have counted : appendS size s slen out = .ok { out with i := szAdd out.i slen } := by
        rw [appendS, if_neg room]
      rw [counted]
      exact delivers_ok fun _ _ => rfl
  truncates := by
    intro size size' out out' le alike r' succeeds
    by_cases room' : out'.i < size'
    · rw [appendS_of_room room'] at succeeds
      by_cases readable' : min slen (size' - out'.i) ≤ s.length
      · rw [if_pos readable'] at succeeds
        cases succeeds
        have i := alike.i
        by_cases room : out.i < size
        · rw [appendS_of_room room, if_pos (by omega)]
          refine ⟨_, rfl, rfl, by simp only [id, i], alike.notImplemented, fun j inside => ?_⟩
          have same := alike.str j inside
          simp only [id, memcpy, List.getD_eq_getElem?_getD, List.getElem?_take, same, i]
          split
          · rfl
          · have both : j - out'.i < min slen (size - out'.i) ↔
                j - out'.i < min slen (size' - out'.i) := by omega
            simp only [both]
        · rw [appendS, if_neg room]
          refine ⟨_, rfl, rfl, by simp only [id, i], alike.notImplemented, fun j inside => ?_⟩
          simp only [id, memcpy]
          rw [if_pos (by omega)]
          exact alike.str j inside
      · rw [if_neg readable'] at succeeds
        cases succeeds
    · rw [appendS, if_neg room'] at succeeds
      cases succeeds
      have i := alike.i
      rw [appendS, if_neg (by omega)]
      exact ⟨_, rfl, rfl, by simp only [id, i], alike.notImplemented, alike.str⟩

theorem appendPaddedS_prints (s : List Char) (slen : Nat) (reads : s.length < slen → past)
    (width : Int) (leftJustify : Bool) :
    Prints past fun size out => appendPaddedS size s slen width leftJustify out := by
  let columns := (width % 2 ^ 64).toNat
  let padLen := if width = -1 then 0 else if slen < columns then columns - slen else 0
  have spaces : ∀ (pad : Prop) [Decidable pad], Prints past fun size out =>
      .ok (if pad then appendSpaces size padLen out else out) := by
    intro pad _
    by_cases padded : pad
    · simp only [if_pos padded]
      exact appendSpaces_prints padLen
    · simp only [if_neg padded]
      exact bounded_ok (fun _ => rfl) fun _ => rfl
  exact (spaces (leftJustify = false ∧ padLen ≠ 0)).seq fun _ _ =>
    (appendS_prints s slen reads).seq fun _ _ => spaces (leftJustify = true ∧ padLen ≠ 0)

/-! ## Conversions -/

theorem vaWord32_fails (ap : List Arg) : FailsOnly (Fault.Printing past) (vaWord32 ap) := by
  unfold vaWord32
  split
  · exact failsOnly_ok _
  · exact failsOnly_error (.inr (.inl rfl))

/-- What is left of the arguments. -/
theorem vaWord32_suffix {ap : List Arg} {r : BitVec 32 × List Arg} (reads : vaWord32 ap = .ok r) :
    r.2 <:+ ap := by
  unfold vaWord32 at reads
  split at reads
  · cases reads
    exact List.suffix_cons _ _
  · cases reads

theorem vaWord64_suffix {ap : List Arg} {r : BitVec 64 × List Arg} (reads : vaWord64 ap = .ok r) :
    r.2 <:+ ap := by
  unfold vaWord64 at reads
  split at reads
  · cases reads
    exact List.suffix_cons _ _
  · cases reads

theorem vaString_eq_ok {ap : List Arg} {r : List Char × List Arg} (reads : vaString ap = .ok r) :
    ap = .string r.1 :: r.2 := by
  unfold vaString at reads
  split at reads
  · cases reads
    rfl
  · cases reads

theorem vaWord32_delivers (ap : List Arg) :
    Delivers (Fault.Printing past) (fun r => r.2 <:+ ap) (vaWord32 ap) :=
  ⟨vaWord32_fails ap, fun _ => vaWord32_suffix⟩

theorem vaWord64_fails (ap : List Arg) : FailsOnly (Fault.Printing past) (vaWord64 ap) := by
  unfold vaWord64
  split
  · exact failsOnly_ok _
  · exact failsOnly_error (.inr (.inl rfl))

theorem vaString_fails (ap : List Arg) : FailsOnly (Fault.Printing past) (vaString ap) := by
  unfold vaString
  split
  · exact failsOnly_ok _
  · exact failsOnly_error (.inr (.inl rfl))

theorem getArgNumeric_fails (len : Len) (unsigned : Bool) (ap : List Arg) :
    FailsOnly (Fault.Printing past) (getArgNumeric len unsigned ap) := by
  unfold getArgNumeric
  split
  · exact (vaWord32_fails ap).bind fun _ _ => failsOnly_ok _
  · exact (vaWord32_fails ap).bind fun _ _ => failsOnly_ok _
  · exact failsOnly_error (.inl rfl)
  · exact failsOnly_error (.inl rfl)
  · exact vaWord64_fails ap

theorem getArgNumeric_suffix {len : Len} {unsigned : Bool} {ap : List Arg}
    {r : BitVec 64 × List Arg} (reads : getArgNumeric len unsigned ap = .ok r) : r.2 <:+ ap := by
  unfold getArgNumeric at reads
  split at reads
  · obtain ⟨_, read, reads⟩ := bind_eq_ok.mp reads
    cases reads
    exact vaWord32_suffix read
  · obtain ⟨_, read, reads⟩ := bind_eq_ok.mp reads
    cases reads
    exact vaWord32_suffix read
  · cases reads
  · cases reads
  · exact vaWord64_suffix reads

/-- An action that returns the arguments that are left, and the output. -/
abbrev Converts (past : Prop) (act : Nat → Output → Except Fault (List Arg × Output)) : Prop :=
  Bounded past Prod.fst Prod.snd act

/-- A text is padded, and the arguments that are left are returned. -/
theorem padded_converts (s : List Char) (slen : Nat) (reads : s.length < slen → past)
    (width : Int) (leftJustify : Bool) (ap : List Arg) :
    Converts past fun size out =>
      appendPaddedS size s slen width leftJustify out >>= fun out => .ok (ap, out) := by
  have returns : Converts past fun _ out => .ok (ap, out) := bounded_ok (fun _ => rfl) fun _ => rfl
  exact (appendPaddedS_prints s slen reads width leftJustify).seq fun _ _ => returns

theorem convertSigned_converts (spec : Spec) (ap : List Arg) :
    Converts past fun size out => convertSigned size spec ap out := by
  refine Bounded.read (getArgNumeric_fails spec.len false ap) ?_
  rintro ⟨val, ap⟩ _
  have writes : ∀ sign ∈ ['-', ' ', '+'], FailsOnly (Fault.Printing past) (d2s val.toInt sign) :=
    fun _ valid => .of_eq_ok (d2s_eq val.le_toInt val.toInt_lt valid)
  exact Bounded.read (writes _ (by split <;> [simp; (split <;> simp)])) fun s _ =>
    padded_converts s s.length (fun longer => absurd longer (Nat.lt_irrefl _)) spec.width
      spec.flags.leftJustify ap

/-- The buffer of a number has the room for every number. -/
theorem convertUnsigned_converts (spec : Spec) (len : Len) (unsigned : Bool)
    {write : Nat → Except Fault (List Char)} (writes : ∀ x < 2 ^ 64, ∃ s, write x = .ok s)
    (ap : List Arg) :
    Converts past fun size out => convertUnsigned size spec len unsigned write ap out := by
  refine Bounded.read (getArgNumeric_fails len unsigned ap) ?_
  rintro ⟨val, ap⟩ _
  obtain ⟨s, written⟩ := writes val.toNat val.isLt
  exact Bounded.read (FailsOnly.of_eq_ok written) fun s _ =>
    padded_converts s s.length (fun longer => absurd longer (Nat.lt_irrefl _)) spec.width
      spec.flags.leftJustify ap

theorem assertLength_prints (len : Len) : Prints past fun _ out => assertLength len out := by
  cases len with
  | int => exact bounded_ok (fun _ => rfl) fun _ => rfl
  | l =>
      constructor
      · exact fun _ _ => delivers_ok fun _ _ => rfl
      · intro _ _ _ _ _ alike
        refine covers_ok ⟨rfl, alike.i, ?_, alike.str⟩
        simp only [id, alike.notImplemented]
  | _ => exact bounded_error (.inl rfl)

theorem convertChar_converts (spec : Spec) (ap : List Arg) :
    Converts past fun size out => convertChar size spec ap out := by
  have later : Converts past fun size out => vaWord32 ap >>= fun arg =>
      appendPaddedS size [Char.ofNat (arg.1.toNat % 256), nul] 1 spec.width
        spec.flags.leftJustify out >>= fun out => .ok (arg.2, out) :=
    Bounded.read (vaWord32_fails ap) fun arg _ =>
      padded_converts _ 1 (fun longer => absurd longer (by simp)) spec.width
        spec.flags.leftJustify arg.2
  exact (assertLength_prints spec.len).seq fun _ _ => later

/-- The string that `%s` finds is read past its end: it has no terminator, or the precision is
larger than the object. -/
def Spec.ReadsPast (spec : Spec) (ap : List Arg) : Prop :=
  ∃ object rest, ap = .string object :: rest ∧
    (spec.prec < 0 ∧ nul ∉ object ∨ (object.length : Int) < spec.prec)

theorem convertString_converts (spec : Spec) (ap : List Arg) (reads : spec.ReadsPast ap → past) :
    Converts past fun size out => convertString size spec ap out := by
  have counts : ∀ arg, vaString ap = .ok arg → FailsOnly (Fault.Printing past)
      (if spec.prec < 0 then strlen arg.1 else .ok spec.prec.toNat) := by
    intro arg found
    split
    · rename_i unlimited
      unfold strlen
      split
      · exact failsOnly_ok _
      · rename_i unterminated
        have reached := reads ⟨_, _, vaString_eq_ok found, .inl ⟨unlimited, unterminated⟩⟩
        exact failsOnly_error (.inr (.inr ⟨rfl, reached⟩))
    · exact failsOnly_ok _
  have longer : ∀ arg slen, vaString ap = .ok arg →
      (if spec.prec < 0 then strlen arg.1 else .ok spec.prec.toNat) = .ok slen →
      arg.1.length < slen → past := by
    intro arg slen found counted short
    split at counted
    · -- The terminator is in the object.
      unfold strlen at counted
      split at counted
      · cases counted
        exact absurd short (Nat.not_lt_of_ge List.idxOf_le_length)
      · cases counted
    · cases counted
      exact reads ⟨_, _, vaString_eq_ok found, .inr (by omega)⟩
  have later : Converts past fun size out => vaString ap >>= fun arg =>
      (if spec.prec < 0 then strlen arg.1 else .ok spec.prec.toNat) >>= fun slen =>
        appendPaddedS size arg.1 slen spec.width spec.flags.leftJustify out >>= fun out =>
          .ok (arg.2, out) :=
    Bounded.read (vaString_fails ap) fun arg found =>
      Bounded.read (counts arg found) fun slen counted =>
        padded_converts arg.1 slen (longer arg slen found counted) spec.width
          spec.flags.leftJustify arg.2
  exact (assertLength_prints spec.len).seq fun _ _ => later

theorem convertArg_converts (spec : Spec) (specifier : Char) (ap : List Arg)
    (reads : specifier = 's' → spec.ReadsPast ap → past) :
    Converts past fun size out => convertArg size spec specifier ap out := by
  unfold convertArg
  split
  · exact ⟨fun _ out => delivers_ok fun _ behind => appendC_stays '%' out behind,
      fun le alike => covers_ok ⟨rfl, alike.appendC le '%'⟩⟩
  · exact convertSigned_converts spec ap
  · exact convertSigned_converts spec ap
  · exact convertUnsigned_converts spec _ _ (fun _ word => ⟨_, o2s_eq word _⟩) ap
  · exact convertUnsigned_converts spec _ _
      (fun _ word => ⟨_, u2s_eq (by decide) (by decide) word _⟩) ap
  · exact convertUnsigned_converts spec _ _ (fun _ word => ⟨_, x2s_eq word _ _⟩) ap
  · exact convertUnsigned_converts spec _ _ (fun _ word => ⟨_, x2s_eq word _ _⟩) ap
  · exact convertChar_converts spec ap
  · exact convertString_converts spec ap (reads rfl)
  · exact convertUnsigned_converts spec _ _ (fun _ word => ⟨_, x2s_eq word _ _⟩) ap
  · exact bounded_error (.inl rfl)

theorem convertSigned_suffix {spec : Spec} {ap : List Arg} {out : Output} {r : List Arg × Output}
    (converts : convertSigned size spec ap out = .ok r) : r.1 <:+ ap := by
  obtain ⟨arg, found, converts⟩ := bind_eq_ok.mp converts
  obtain ⟨_, _, converts⟩ := bind_eq_ok.mp converts
  obtain ⟨_, _, converts⟩ := bind_eq_ok.mp converts
  cases converts
  exact getArgNumeric_suffix found

theorem convertUnsigned_suffix {spec : Spec} {len : Len} {unsigned : Bool}
    {write : Nat → Except Fault (List Char)} {ap : List Arg} {out : Output}
    {r : List Arg × Output}
    (converts : convertUnsigned size spec len unsigned write ap out = .ok r) : r.1 <:+ ap := by
  obtain ⟨arg, found, converts⟩ := bind_eq_ok.mp converts
  obtain ⟨_, _, converts⟩ := bind_eq_ok.mp converts
  obtain ⟨_, _, converts⟩ := bind_eq_ok.mp converts
  cases converts
  exact getArgNumeric_suffix found

theorem convertChar_suffix {spec : Spec} {ap : List Arg} {out : Output} {r : List Arg × Output}
    (converts : convertChar size spec ap out = .ok r) : r.1 <:+ ap := by
  obtain ⟨_, _, converts⟩ := bind_eq_ok.mp converts
  obtain ⟨arg, found, converts⟩ := bind_eq_ok.mp converts
  obtain ⟨_, _, converts⟩ := bind_eq_ok.mp converts
  cases converts
  exact vaWord32_suffix found

theorem convertString_suffix {spec : Spec} {ap : List Arg} {out : Output} {r : List Arg × Output}
    (converts : convertString size spec ap out = .ok r) : r.1 <:+ ap := by
  obtain ⟨_, _, converts⟩ := bind_eq_ok.mp converts
  obtain ⟨arg, found, converts⟩ := bind_eq_ok.mp converts
  obtain ⟨_, _, converts⟩ := bind_eq_ok.mp converts
  obtain ⟨_, _, converts⟩ := bind_eq_ok.mp converts
  cases converts
  rw [vaString_eq_ok found]
  exact List.suffix_cons _ _

/-- A conversion takes arguments from the front. -/
theorem convertArg_suffix {spec : Spec} {specifier : Char} {ap : List Arg} {out : Output}
    {r : List Arg × Output} (converts : convertArg size spec specifier ap out = .ok r) :
    r.1 <:+ ap := by
  unfold convertArg at converts
  split at converts
  · cases converts
    exact List.suffix_refl _
  · exact convertSigned_suffix converts
  · exact convertSigned_suffix converts
  · exact convertUnsigned_suffix converts
  · exact convertUnsigned_suffix converts
  · exact convertUnsigned_suffix converts
  · exact convertUnsigned_suffix converts
  · exact convertChar_suffix converts
  · exact convertString_suffix converts
  · exact convertUnsigned_suffix converts
  · cases converts

/-! ## Consuming the format -/

/-- The loop over the flags goes forward. -/
theorem getFlags_delivers (flags : Flags) (f : List Char) :
    Delivers (Fault.Printing past) (fun r => r.2 <:+ f) (getFlags flags f) := by
  have behind : ∀ {c : Char} {f : List Char} {flags : Flags},
      Delivers (Fault.Printing past) (fun r => r.2 <:+ f) (getFlags flags f) →
      Delivers (Fault.Printing past) (fun r => r.2 <:+ c :: f) (getFlags flags f) :=
    fun delivers => delivers.mono (fun _ printing => printing) fun _ suffix =>
      suffix.trans (List.suffix_cons _ _)
  have repeated : ∀ {f : List Char},
      Delivers (Fault.Printing past) (fun r : Flags × List Char => r.2 <:+ f)
        (.error .abort) := delivers_error (.inl rfl)
  fun_induction getFlags flags f with
  | case1 flags f unset ih => exact behind ih
  | case2 flags f set => exact repeated
  | case3 flags f unset ih => exact behind ih
  | case4 flags f set => exact repeated
  | case5 flags f unset ih => exact behind ih
  | case6 flags f set => exact repeated
  | case7 flags f unset ih => exact behind ih
  | case8 flags f set => exact repeated
  | case9 => exact delivers_ok (List.suffix_refl _)

theorem swallowSign_suffix (p : List Char) : (swallowSign p).2 <:+ p := by
  fun_induction swallowSign p with
  | case1 => exact List.suffix_refl _
  | case2 c p blank ih => exact ih.trans (List.suffix_cons _ _)
  | case3 => exact List.suffix_cons _ _
  | case4 => exact List.suffix_cons _ _
  | case5 => exact List.suffix_refl _

theorem getPrefix_suffix {b : Nat} {p : List Char} {r : Nat × List Char}
    (found : getPrefix b p = some r) : r.2 <:+ p := by
  have either : ∀ {other : Prop} [Decidable other] {p q : List Char}, p <:+ q →
      (if other then p else q) <:+ q := by
    intro other _ p q suffix
    split
    · exact suffix
    · exact List.suffix_refl _
  unfold getPrefix at found
  split at found
  · rename_i c p
    have digits : c :: p <:+ '0' :: c :: p := List.suffix_cons _ _
    split at found
    · cases found
      exact either digits
    · split at found
      · split at found
        · cases found
          exact either ((List.suffix_cons _ _).trans digits)
        · cases found
          exact List.suffix_refl _
      · cases found
  · cases found
  · cases found
    exact List.suffix_refl _

theorem convertDigits_suffix (b : Nat) (neg : Bool) (ret : Nat) (p : List Char) :
    (convertDigits b neg ret p).endptr <:+ p := by
  fun_induction convertDigits b neg ret p with
  | case1 => exact List.suffix_refl _
  | case2 => exact List.suffix_refl _
  | case3 => exact List.suffix_refl _
  | case4 ret c p digit isDigit pret ret' fits ih => exact ih.trans (List.suffix_cons _ _)

/-- `*endptr` is in the string. -/
theorem mallocStrtoumax_suffix (nptr : List Char) (base : Int) :
    (mallocStrtoumax nptr base).endptr <:+ nptr := by
  have swallowed := swallowSign_suffix nptr
  unfold mallocStrtoumax
  split
  · exact List.suffix_refl _
  · dsimp only
    split
    · exact (List.tail_suffix _).trans swallowed
    · rename_i b p found
      have behind : p <:+ (swallowSign nptr).2 := getPrefix_suffix found
      have converted := convertDigits_suffix (if b = 0 then 10 else b) (swallowSign nptr).1 0 p
      generalize convertDigits (if b = 0 then 10 else b) (swallowSign nptr).1 0 p = read
        at converted ⊢
      split
      · exact List.suffix_refl _
      · split
        · exact List.suffix_refl _
        · exact converted.trans (behind.trans swallowed)

theorem getNumber_delivers (f : List Char) :
    Delivers (Fault.Printing past) (fun r => r.2 <:+ f) (getNumber f) := by
  unfold getNumber
  dsimp only
  split
  · exact delivers_error (.inl rfl)
  · exact delivers_ok (mallocStrtoumax_suffix f 10)

theorem getWidth_delivers (leftJustify : Bool) (ap : List Arg) (f : List Char) :
    Delivers (Fault.Printing past) (fun r => r.2.2.1 <:+ ap ∧ r.2.2.2 <:+ f)
      (getWidth leftJustify ap f) := by
  cases f with
  | nil => exact delivers_ok ⟨List.suffix_refl _, List.suffix_refl _⟩
  | cons c rest =>
      rw [getWidth]
      split
      · refine (vaWord32_delivers ap).bind ?_
        rintro ⟨v, ap⟩ suffix
        dsimp only
        split
        · exact delivers_ok ⟨suffix, List.suffix_cons _ _⟩
        · exact delivers_ok ⟨suffix, List.suffix_cons _ _⟩
      · split
        · exact (getNumber_delivers _).bind fun _ suffix =>
            delivers_ok ⟨List.suffix_refl _, suffix⟩
        · exact delivers_ok ⟨List.suffix_refl _, List.suffix_refl _⟩

theorem getPrec_delivers (ap : List Arg) (f : List Char) :
    Delivers (Fault.Printing past) (fun r => r.2.1 <:+ ap ∧ r.2.2 <:+ f) (getPrec ap f) := by
  unfold getPrec
  split
  · exact delivers_ok ⟨List.suffix_refl _, List.suffix_cons _ _⟩
  · rename_i c rest
    split
    · refine (vaWord32_delivers ap).bind fun r suffix => delivers_ok ⟨suffix, ?_⟩
      exact (List.suffix_cons _ _).trans (List.suffix_cons _ _)
    · split
      · refine (getNumber_delivers _).bind fun r suffix => delivers_ok ⟨List.suffix_refl _, ?_⟩
        exact suffix.trans (List.suffix_cons _ _)
      · exact delivers_ok ⟨List.suffix_refl _, List.suffix_cons _ _⟩
  · exact delivers_ok ⟨List.suffix_refl _, List.suffix_refl _⟩

theorem getLength_suffix (f : List Char) : (getLength f).2 <:+ f := by
  unfold getLength
  split
  · exact (List.suffix_cons _ _).trans (List.suffix_cons _ _)
  · exact List.suffix_cons _ _
  · exact List.suffix_cons _ _
  · exact List.suffix_cons _ _
  · exact List.suffix_cons _ _
  · exact List.suffix_cons _ _
  · exact List.suffix_refl _

/-! ## Directives -/

/-- A directive up to its conversion specifier, the specifier, and what is left of the format and
of the arguments. -/
def getSpec (f : List Char) (ap : List Arg) :
    Except Fault (Spec × Char × List Char × List Arg) := do
  let (flags, f) ← getFlags ⟨false, false, false, false⟩ f
  let (leftJustify, width, ap, f) ← getWidth flags.leftJustify ap f
  let (prec, ap, f) ← getPrec ap f
  let (len, f) := getLength f
  match f with
  | [] => .error .abort
  | specifier :: f =>
      .ok (⟨{ flags with leftJustify := leftJustify }, width, prec, len⟩, specifier, f, ap)

theorem directive_eq (size : Nat) (f : List Char) (ap : List Arg) (out : Output) :
    directive size f ap out = getSpec f ap >>= fun r =>
      convertArg size r.1 r.2.1 r.2.2.2 out >>= fun c => .ok (r.2.2.1, c.1, c.2) := by
  unfold directive getSpec
  simp only [bind_assoc]
  refine bind_congr_ok fun flags _ => bind_congr_ok fun width _ => bind_congr_ok fun prec _ => ?_
  generalize (getLength prec.2.2).2 = rest
  cases rest with
  | nil => rfl
  | cons specifier rest => rfl

theorem getSpec_delivers (f : List Char) (ap : List Arg) :
    Delivers (Fault.Printing past) (fun r => r.2.1 :: r.2.2.1 <:+ f ∧ r.2.2.2 <:+ ap)
      (getSpec f ap) := by
  refine (getFlags_delivers _ f).bind fun r₁ flags => ?_
  refine (getWidth_delivers r₁.1.leftJustify ap r₁.2).bind fun r₂ width => ?_
  refine (getPrec_delivers r₂.2.2.1 r₂.2.2.2).bind ?_
  rintro ⟨precision, args, g⟩ prec
  have length := getLength_suffix g
  dsimp only
  generalize (getLength g).2 = rest at length ⊢
  cases rest with
  | nil => exact delivers_error (.inl rfl)
  | cons specifier rest =>
      refine delivers_ok ⟨?_, prec.1.trans width.1⟩
      exact length.trans (prec.2.trans (width.2.trans flags))

/-- A directive ends behind its conversion specifier. -/
theorem directive_suffix {f : List Char} {ap : List Arg} {out : Output}
    {r : List Char × List Arg × Output} (succeeds : directive size f ap out = .ok r) :
    r.1 <:+ f ∧ r.1.length < f.length ∧ r.2.1 <:+ ap := by
  rw [directive_eq] at succeeds
  obtain ⟨spec, read, succeeds⟩ := bind_eq_ok.mp succeeds
  obtain ⟨converted, converts, succeeds⟩ := bind_eq_ok.mp succeeds
  cases succeeds
  have delivers : Delivers (Fault.Printing True) _ (getSpec f ap) := getSpec_delivers f ap
  obtain ⟨format, args⟩ := delivers.2 _ read
  have shorter := format.length_le
  rw [List.length_cons] at shorter
  exact ⟨(List.suffix_cons _ _).trans format, shorter, (convertArg_suffix converts).trans args⟩

/-- An action that returns what is left of the format and of the arguments, and the output. -/
abbrev Directs (past : Prop) (act : Nat → Output → Except Fault (List Char × List Arg × Output)) :
    Prop :=
  Bounded past (fun r => (r.1, r.2.1)) (fun r => r.2.2) act

theorem directive_directs (f : List Char) (ap : List Arg)
    (reads : ∀ spec rest args, getSpec f ap = .ok (spec, 's', rest, args) → spec.ReadsPast args →
      past) :
    Directs past fun size out => directive size f ap out := by
  simp only [directive_eq]
  refine Bounded.read (getSpec_delivers f ap).1 ?_
  rintro ⟨spec, specifier, rest, args⟩ read
  have returns : ∀ ap, Directs past fun _ out => .ok (rest, ap, out) := fun ap =>
    bounded_ok (a := (rest, ap)) (fun _ => rfl) fun _ => rfl
  have past' : specifier = 's' → spec.ReadsPast args → past := by
    rintro rfl
    exact reads spec rest args read
  exact (convertArg_converts spec specifier args past').seq fun ap _ => returns ap

/-- Somewhere in the format a `%s` reads its argument past its end. -/
def ReadsPast (format : List Char) (ap : List Arg) : Prop :=
  ∃ f args, '%' :: f <:+ format ∧ args <:+ ap ∧
    ∃ spec rest args', getSpec f args = .ok (spec, 's', rest, args') ∧ spec.ReadsPast args'

/-- Each round consumes a character. -/
theorem vsnprintfLoop_prints {format : List Char} {args : List Arg} {fuel : Nat} {f : List Char}
    {ap : List Arg} (enough : f.length ≤ fuel) (suffix : f <:+ format) (left : ap <:+ args) :
    Prints (ReadsPast format args) fun size out => vsnprintfLoop size fuel f ap out := by
  induction fuel generalizing f ap with
  | zero =>
      cases f with
      | nil => exact bounded_ok (fun _ => rfl) fun _ => rfl
      | cons c f => exact absurd enough (by simp)
  | succ fuel ih =>
      cases f with
      | nil => exact bounded_ok (fun _ => rfl) fun _ => rfl
      | cons c f =>
          rw [List.length_cons] at enough
          have behind : f <:+ format := (List.suffix_cons _ _).trans suffix
          by_cases percent : c = '%'
          · subst percent
            simp only [vsnprintfLoop, if_pos]
            have later : ∀ a, (∃ size out r, directive size f ap out = .ok r ∧ (r.1, r.2.1) = a) →
                Prints (ReadsPast format args) fun size out =>
                  vsnprintfLoop size fuel a.1 a.2 out := by
              rintro _ ⟨size, out, r, succeeds, rfl⟩
              obtain ⟨rest, shorter, taken⟩ := directive_suffix succeeds
              exact ih (by dsimp only; omega) (rest.trans behind) (taken.trans left)
            refine (directive_directs f ap ?_).seq later
            exact fun spec rest args' read past =>
              ⟨f, ap, suffix, left, spec, rest, args', read, past⟩
          · simp only [vsnprintfLoop, if_neg percent]
            exact (appendC_prints c).seq fun _ _ => ih (by omega) behind left

/-- **Whatever the format and the arguments**, `malloc_vsnprintf` ends, and it fails only for an
assertion, an argument of another type, a string that is read past its end, or a buffer without a
byte. Where it returns the buffer has a byte, the string in it is terminated, and nothing behind
it is stored to. -/
theorem mallocVsnprintf_stays (str : Nat → Char) (size : Nat) (format : List Char)
    (ap : List Arg) :
    Delivers (Fault.Printing (size = 0 ∨ ReadsPast format ap))
      (fun r => 0 < size ∧ (∃ j < size, r.2.str j = nul) ∧ ∀ j, size ≤ j → r.2.str j = str j)
      (mallocVsnprintf str size format ap) := by
  have loop := (vsnprintfLoop_prints (Nat.le_refl _) (List.suffix_refl format)
    (List.suffix_refl ap)).stays size ⟨str, 0, 0⟩
  refine (loop.mono ?_ fun _ => id).bind fun out stays => ?_
  · rintro fault (abort | contract | wild)
    · exact .inl abort
    · exact .inr (.inl contract)
    · exact .inr (.inr ⟨wild.1, .inr wild.2⟩)
  have terminated : ∀ last < size, 0 < size ∧
      (∃ j < size, Function.update out.str last nul j = nul) ∧
      ∀ j, size ≤ j → Function.update out.str last nul j = str j := by
    intro last inside
    refine ⟨by omega, ⟨last, inside, Function.update_self ..⟩, fun j behind => ?_⟩
    rw [Function.update_of_ne (by omega)]
    exact stays j behind
  dsimp only
  split
  · rename_i room
    exact delivers_ok (terminated out.i room)
  · split
    · rename_i noByte
      exact delivers_error (.inr (.inr ⟨rfl, .inl noByte⟩))
    · exact delivers_ok (terminated (size - 1) (by omega))

/-- Four bytes hold a string; without a byte the function does not return. -/
theorem mallocVsnprintf_stays_of_noByte :
    (∃ r, mallocVsnprintf (fun _ => '?') 4 ['%', '-', '6', 'd', '|'] [.word32 42] = .ok r ∧
      ∃ j < 4, r.2.str j = nul) ∧
    ∀ r, mallocVsnprintf (fun _ => '?') 0 ['%', '-', '6', 'd', '|'] [.word32 42] ≠ .ok r := by
  constructor
  · obtain ⟨r, returns⟩ : ∃ r, mallocVsnprintf (fun _ => '?') 4 ['%', '-', '6', 'd', '|']
        [.word32 42] = .ok r := exists_eq_ok (by decide +kernel)
    exact ⟨r, returns, ((mallocVsnprintf_stays _ _ _ _).2 r returns).2.1⟩
  · intro r returns
    exact Nat.lt_irrefl 0 ((mallocVsnprintf_stays _ _ _ _).2 r returns).1

/-- **A smaller buffer gets the front** of what a larger one gets, and the same number is
returned: a caller may ask for the length first. -/
theorem mallocVsnprintf_truncates {str : Nat → Char} {size size' : Nat} {format : List Char}
    {ap : List Arg} {ret : Int} {out' : Output} (hasByte : 0 < size) (le : size ≤ size')
    (succeeds : mallocVsnprintf str size' format ap = .ok (ret, out')) :
    ∃ out, mallocVsnprintf str size format ap = .ok (ret, out) ∧
      ∀ j, j + 1 < size → out.str j = out'.str j := by
  obtain ⟨last', loop', returns'⟩ := bind_eq_ok.mp succeeds
  have prints := vsnprintfLoop_prints (Nat.le_refl _) (List.suffix_refl format)
    (List.suffix_refl ap)
  obtain ⟨last, loop, -, alike⟩ :=
    prints.truncates le (Alike.refl size ⟨str, 0, 0⟩) last' loop'
  have same := alike.i
  have front := alike.str
  dsimp only [id] at same front
  rw [mallocVsnprintf_eq (by omega) loop'] at succeeds
  cases succeeds
  rw [← same]
  refine ⟨_, mallocVsnprintf_eq hasByte loop, fun j inside => ?_⟩
  dsimp only
  by_cases here : j = last.i
  · have both : min last.i (size - 1) = j ∧ min last.i (size' - 1) = j := by omega
    rw [both.1, both.2, Function.update_self, Function.update_self]
  · rw [Function.update_of_ne (by omega), Function.update_of_ne (by omega)]
    exact front j (by omega)

/-- Four bytes of seven. -/
theorem mallocVsnprintf_truncates_of_four :
    ∃ out, mallocVsnprintf (fun _ => '?') 4 ['%', '-', '6', 'd', '|'] [.word32 42] =
        .ok (7, out) ∧ out.str 0 = '4' ∧ out.str 1 = '2' ∧ out.str 2 = ' ' := by
  obtain ⟨⟨ret, out'⟩, returns, rfl, bytes⟩ :
      ∃ r, mallocVsnprintf (fun _ => '?') 16 ['%', '-', '6', 'd', '|'] [.word32 42] = .ok r ∧
        r.1 = 7 ∧ r.2.str 0 = '4' ∧ r.2.str 1 = '2' ∧ r.2.str 2 = ' ' :=
    exists_eq_ok_and (by decide +kernel)
  obtain ⟨out, smaller, front⟩ := mallocVsnprintf_truncates (by decide : 0 < 4) (by decide) returns
  refine ⟨out, smaller, ?_⟩
  rw [front 0 (by decide), front 1 (by decide), front 2 (by decide)]
  exact bytes

end Lsmalloc
