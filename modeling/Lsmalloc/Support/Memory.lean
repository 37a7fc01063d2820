import Mathlib.Logic.Function.Basic
import Mathlib.Algebra.Ring.Nat

/-!
# Byte-addressed memory

Words are stored low byte first. A load sees the word last stored at its
address (`loadWord_storeWord`) and is blind to stores elsewhere
(`loadWord_storeWord_outside`).
-/

/-- The contents of an address space. -/
abbrev Memory := Nat → UInt8

namespace Memory

/-- Store the low `width` bytes of `value` at `address`, low byte first. -/
def storeWord (memory : Memory) (address : Nat) : (width : Nat) → (value : Nat) → Memory
  | 0, _ => memory
  | width + 1, value =>
      Function.update (storeWord memory (address + 1) width (value / 256)) address
        (UInt8.ofNat value)

/-- Load `width` bytes at `address`, low byte first. -/
def loadWord (memory : Memory) (address : Nat) : (width : Nat) → Nat
  | 0 => 0
  | width + 1 => (memory address).toNat + 256 * loadWord memory (address + 1) width

/-- A store changes no byte outside the word. -/
theorem storeWord_outside (memory : Memory) {address width value x : Nat}
    (outside : x < address ∨ address + width ≤ x) :
    memory.storeWord address width value x = memory x := by
  induction width generalizing address value with
  | zero => rfl
  | succ width ih =>
      have notFirst : x ≠ address := by omega
      rw [storeWord, Function.update_of_ne notFirst]
      exact ih (by omega)

/-- The same store leaves two memories alike where they were. -/
theorem storeWord_congr {left right : Memory} {x : Nat} (agree : left x = right x)
    (address width value : Nat) :
    left.storeWord address width value x = right.storeWord address width value x := by
  induction width generalizing address value with
  | zero => exact agree
  | succ width ih =>
      by_cases first : x = address
      · subst first
        rw [storeWord, storeWord, Function.update_self, Function.update_self]
      · rw [storeWord, storeWord, Function.update_of_ne first, Function.update_of_ne first]
        exact ih _ _

/-- The first byte of a stored word is its low byte. -/
theorem storeWord_first (memory : Memory) (address width value : Nat) :
    memory.storeWord address (width + 1) value address = UInt8.ofNat value := by
  rw [storeWord, Function.update_self]

/-- A load depends on the bytes of its word only. -/
theorem loadWord_congr {left right : Memory} {address width : Nat}
    (agree : ∀ x, address ≤ x → x < address + width → left x = right x) :
    left.loadWord address width = right.loadWord address width := by
  induction width generalizing address with
  | zero => rfl
  | succ width ih =>
      have first := agree address (Nat.le_refl _) (by omega)
      have rest : left.loadWord (address + 1) width = right.loadWord (address + 1) width :=
        ih fun x lower upper => agree x (by omega) (by omega)
      rw [loadWord, loadWord, first, rest]

/-- A load sees the word stored at its address, cut to the width. -/
theorem loadWord_storeWord (memory : Memory) (address width value : Nat) :
    (memory.storeWord address width value).loadWord address width = value % 256 ^ width := by
  induction width generalizing address value with
  | zero => simp [loadWord, Nat.mod_one]
  | succ width ih =>
      have rest : (memory.storeWord address (width + 1) value).loadWord (address + 1) width =
          (memory.storeWord (address + 1) width (value / 256)).loadWord (address + 1) width := by
        apply loadWord_congr
        intro x lower _
        rw [storeWord, Function.update_of_ne (by omega)]
      rw [loadWord, rest, ih, storeWord_first, Nat.pow_succ', Nat.mod_mul]
      simp [UInt8.toNat_ofNat']

/-- A load is blind to a store elsewhere. -/
theorem loadWord_storeWord_outside (memory : Memory) {read write readWidth writeWidth value : Nat}
    (outside : read + readWidth ≤ write ∨ write + writeWidth ≤ read) :
    (memory.storeWord write writeWidth value).loadWord read readWidth =
      memory.loadWord read readWidth := by
  apply loadWord_congr
  intro x lower upper
  exact storeWord_outside memory (by omega)

/-- The first byte of a word, as a number, is the word modulo `256`. -/
theorem first_eq_loadWord_mod (memory : Memory) (address width : Nat) :
    (memory address).toNat = memory.loadWord address (width + 1) % 256 := by
  have bound : (memory address).toNat < 256 := (memory address).toNat_lt
  rw [loadWord]
  omega

end Memory
