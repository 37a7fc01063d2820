import Lsmalloc.Arena.Accounting
import Lsmalloc.Gc.Model

/-!
# What a migration does to an object

`gc_region_migration` makes a descriptor for the new region and points its header at it.
Neither the payload nor the user's pointer is written (`todo replace ptr`), so an object
survives its migration exactly when both happen to be right before it
(`gcRegionMigration_preserves_iff`). The bytes of the user's own variables are bytes of
`pmem` here, wherever they are.
-/

namespace Lsmalloc

variable {h h' : Heap} {gcChunk oldregion region : Nat}

/-- Where the payload of a region starts. -/
def Region.payload (region : Region) : Nat := region.paddr + sizeofPregion

/-- How long the payload of a region is. -/
def Region.payloadSize (region : Region) : Nat := region.size - sizeofPregion

/-- The width of a `void *`. -/
def sizeofPtr : Nat := 8

/-- The user's location `*(region->ptr)`. -/
def Region.location (region : Region) : Span := ⟨region.ptr, sizeofPtr⟩

/-- What the user's location holds. -/
def Heap.userPointer (h : Heap) (ptr : Nat) : Nat := h.pmem.loadWord ptr sizeofPtr

/-- The object moved, and its user can go on with it. -/
structure ObjectPreserved (h h' : Heap) (gcChunk oldregion region : Nat) : Prop where
  payload : ∀ i < (h.regions oldregion).payloadSize,
    h'.pmem ((h'.regions region).payload + i) = h.pmem ((h.regions oldregion).payload + i)
  user : h'.userPointer (h.regions oldregion).ptr = (h'.regions region).payload
  header : h'.pmem.loadWord (h'.regions region).paddr sizeofPregion = region
  descriptor : (h'.regions region).ptr = (h.regions oldregion).ptr ∧
    (h'.regions region).size = (h.regions oldregion).size ∧
    (h'.regions region).threadid = (h.regions oldregion).threadid ∧
    (h'.regions region).chunk = gcChunk
  others : ∀ x, (Span.mk x 1).Apart ⟨(h'.regions region).paddr, sizeofPregion⟩ →
    (Span.mk x 1).Apart ⟨(h'.regions region).payload, (h'.regions region).payloadSize⟩ →
    (Span.mk x 1).Apart (h.regions oldregion).location → h'.pmem x = h.pmem x

/-- Where the object is to go, its bytes are there already, and its user points there. -/
structure AlreadyThere (h : Heap) (gcChunk oldregion : Nat) : Prop where
  payload : ∀ i < (h.regions oldregion).payloadSize,
    h.pmem ((h.chunks gcChunk).tail + sizeofPregion + i) =
      h.pmem ((h.regions oldregion).payload + i)
  user : h.userPointer (h.regions oldregion).ptr = (h.chunks gcChunk).tail + sizeofPregion

/-- A migration writes one word: the header of the new region. -/
theorem gcRegionMigration_writes
    (migrated : gcRegionMigration h gcChunk oldregion = .ok (region, h')) :
    h'.regions region = ⟨.alive, (h.regions oldregion).threadid, (h.regions oldregion).size,
        (h.regions oldregion).ptr, (h.chunks gcChunk).tail, gcChunk⟩ ∧
      h'.pmem.loadWord (h.chunks gcChunk).tail sizeofPregion = region ∧
      ∀ x, x < (h.chunks gcChunk).tail ∨ (h.chunks gcChunk).tail + sizeofPregion ≤ x →
        h'.pmem x = h.pmem x := by
  obtain ⟨w, new, placed⟩ := gcRegionMigration_effect migrated
  have isRegion : ⟨region, .region⟩ ∈ h'.blocks := by
    rw [placed.world]
    change _ ∈ w.blocks
    rw [new.blocks]
    exact List.mem_cons_self
  have word : region < 256 ^ sizeofPregion := h'.placed.word _ isRegion
  refine ⟨?_, ?_, ?_⟩
  · rw [placed.regions, Function.update_self]
  · rw [placed.pmem]
    exact (Memory.loadWord_storeWord _ _ _ _).trans (Nat.mod_eq_of_lt word)
  · intro x outside
    rw [placed.pmem]
    exact Memory.storeWord_outside _ outside

/-- **A migration moves the descriptor and leaves the object behind.** With the user's
location clear of the new header, the object is preserved exactly when its bytes and its
user's pointer were already where they should go. -/
theorem gcRegionMigration_preserves_iff
    (migrated : gcRegionMigration h gcChunk oldregion = .ok (region, h'))
    (clear : (h.regions oldregion).location.Apart ⟨(h.chunks gcChunk).tail, sizeofPregion⟩) :
    ObjectPreserved h h' gcChunk oldregion region ↔ AlreadyThere h gcChunk oldregion := by
  obtain ⟨self, header, outside⟩ := gcRegionMigration_writes migrated
  have payload : (h'.regions region).payload = (h.chunks gcChunk).tail + sizeofPregion := by
    rw [self]
    rfl
  have bytes : ∀ i, h'.pmem ((h'.regions region).payload + i) =
      h.pmem ((h.chunks gcChunk).tail + sizeofPregion + i) := by
    intro i
    rw [payload]
    exact outside _ (.inr (by omega))
  have user : h'.userPointer (h.regions oldregion).ptr =
      h.userPointer (h.regions oldregion).ptr := by
    refine Memory.loadWord_congr fun x lower upper => outside x ?_
    have apart := Span.apart_mk.mp clear
    omega
  constructor
  · intro preserved
    refine ⟨?_, ?_⟩
    · intro i inside
      rw [← bytes]
      exact preserved.payload i inside
    · rw [← user, ← payload]
      exact preserved.user
  · intro there
    refine ⟨?_, ?_, ?_, ?_, ?_⟩
    · intro i inside
      rw [bytes]
      exact there.payload i inside
    · rw [user, payload]
      exact there.user
    · rw [self]
      exact header
    · rw [self]
      exact ⟨rfl, rfl, rfl, rfl⟩
    · intro x offHeader _ _
      rw [self] at offHeader
      have apart := Span.apart_mk.mp offHeader
      exact outside x (by simp only at apart; omega)

/-- The user of the location writes a pointer there. -/
def Heap.setPointer (h : Heap) (ptr value : Nat) : Heap :=
  { h with pmem := h.pmem.storeWord ptr sizeofPtr value }

/-- A freed object of zero bytes, whose user points at where it is to go. -/
theorem gcRegionMigration_preserves_iff_of_zero :
    ∃ s h arena h', logRun (.fresh [chunksize] [1024, 2048, 3072, 4096]) .zeroed 0
        [.regionAlloc 240 64 7, .dallocLarge 1024 2048] = .ok s ∧
      gcAllocChunk s.heap s.arena = .ok (3072, h, arena) ∧
      gcRegionMigration (h.setPointer 64 (2 * chunksize + 16)) 3072 2048 = .ok (4096, h') ∧
      ObjectPreserved (h.setPointer 64 (2 * chunksize + 16)) h' 3072 2048 4096 := by
  obtain ⟨⟨s, ⟨gc, h, arena⟩, region, h'⟩, ran, rfl, rfl, clear, payload, user⟩ :
      ∃ r : ArenaState × (Nat × Heap × Arena) × Nat × Heap,
        (logRun (.fresh [chunksize] [1024, 2048, 3072, 4096]) .zeroed 0
            [.regionAlloc 240 64 7, .dallocLarge 1024 2048] >>= fun s =>
          gcAllocChunk s.heap s.arena >>= fun made =>
          gcRegionMigration (made.2.1.setPointer 64 (2 * chunksize + 16)) made.1 2048 >>=
            fun moved => .ok (s, made, moved)) = .ok r ∧
        r.2.1.1 = 3072 ∧ r.2.2.1 = 4096 ∧
        (r.2.1.2.1.regions 2048).location.Apart ⟨(r.2.1.2.1.chunks 3072).tail, sizeofPregion⟩ ∧
        (∀ i < (r.2.1.2.1.regions 2048).payloadSize,
          (r.2.1.2.1.setPointer 64 (2 * chunksize + 16)).pmem
              ((r.2.1.2.1.chunks 3072).tail + sizeofPregion + i) =
            (r.2.1.2.1.setPointer 64 (2 * chunksize + 16)).pmem
              ((r.2.1.2.1.regions 2048).payload + i)) ∧
        (r.2.1.2.1.setPointer 64 (2 * chunksize + 16)).userPointer
            (r.2.1.2.1.regions 2048).ptr = (r.2.1.2.1.chunks 3072).tail + sizeofPregion :=
    Execution.exists_eq_ok_and (by decide +kernel)
  obtain ⟨_, reached, ran⟩ := Execution.bind_eq_ok.mp ran
  obtain ⟨_, allocated, ran⟩ := Execution.bind_eq_ok.mp ran
  obtain ⟨_, migrated, ran⟩ := Execution.bind_eq_ok.mp ran
  cases ran
  have preserves := gcRegionMigration_preserves_iff migrated clear
  exact ⟨s, h, arena, h', reached, allocated, migrated, preserves.mpr ⟨payload, user⟩⟩

/-- A freed object whose first word is `7`, and whose user points at it, is left behind: the
new payload is zero, and the user points at the old one. -/
theorem not_gcRegionMigration_preserves :
    ∃ s h arena h', logRun (.fresh [chunksize] [1024, 2048, 3072, 4096]) .zeroed 0
        [.regionAlloc 240 64 7, .dallocLarge 1024 2048] = .ok s ∧
      gcAllocChunk s.heap s.arena = .ok (3072, h, arena) ∧
      240 ≤ (h.chunks 3072).availsize ∧
      gcRegionMigration ((h.setPointer (chunksize + 16) 7).setPointer 64 (chunksize + 16)) 3072
        2048 = .ok (4096, h') ∧
      h'.pmem (2 * chunksize + 16) = 0 ∧ h'.userPointer 64 = chunksize + 16 ∧
      ¬ ObjectPreserved ((h.setPointer (chunksize + 16) 7).setPointer 64 (chunksize + 16)) h' 3072
        2048 4096 := by
  obtain ⟨⟨s, ⟨gc, h, arena⟩, region, h'⟩, ran, rfl, rfl, room, size, old, first, zero, user⟩ :
      ∃ r : ArenaState × (Nat × Heap × Arena) × Nat × Heap,
        (logRun (.fresh [chunksize] [1024, 2048, 3072, 4096]) .zeroed 0
            [.regionAlloc 240 64 7, .dallocLarge 1024 2048] >>= fun s =>
          gcAllocChunk s.heap s.arena >>= fun made =>
          gcRegionMigration
              ((made.2.1.setPointer (chunksize + 16) 7).setPointer 64 (chunksize + 16)) made.1
              2048 >>= fun moved => .ok (s, made, moved)) = .ok r ∧
        r.2.1.1 = 3072 ∧ r.2.2.1 = 4096 ∧ 240 ≤ (r.2.1.2.1.chunks 3072).availsize ∧
        0 < (r.2.1.2.1.regions 2048).payloadSize ∧
        ((r.2.1.2.1.setPointer (chunksize + 16) 7).setPointer 64 (chunksize + 16)).pmem
          ((r.2.1.2.1.regions 2048).payload + 0) = 7 ∧
        r.2.2.2.pmem ((r.2.2.2.regions 4096).payload + 0) = 0 ∧
        r.2.2.2.pmem (2 * chunksize + 16) = 0 ∧ r.2.2.2.userPointer 64 = chunksize + 16 :=
    Execution.exists_eq_ok_and (by decide +kernel)
  obtain ⟨_, reached, ran⟩ := Execution.bind_eq_ok.mp ran
  obtain ⟨_, allocated, ran⟩ := Execution.bind_eq_ok.mp ran
  obtain ⟨_, migrated, ran⟩ := Execution.bind_eq_ok.mp ran
  cases ran
  refine ⟨s, h, arena, h', reached, allocated, room, migrated, zero, user, ?_⟩
  intro preserved
  have copied := preserved.payload 0 size
  have differ : (0 : UInt8) ≠ 7 := by decide
  exact differ (first.symm.trans (copied.trans old))

end Lsmalloc
