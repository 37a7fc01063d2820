import Lsmalloc.Arena.Progress
import Lsmalloc.Process.Arenas

/-!
# Small requests get through

A small request on an arena without log chunks fails only as the environment makes it
fail: every pointer it follows is one the arena keeps in order.
-/

namespace Lsmalloc

open Execution (FailsOnly failsOnly_ok)

variable {h : Heap} {arena : Arena} {admitted : Fault → Prop} {ind c p size ptr cls base : Nat}

/-! ## Bytes of a chunk -/

/-- The bytes inside a chunk are mapped. -/
theorem Headed.mapped_of_within (headed : Headed h base) (x width : Nat) (lower : base ≤ x)
    (upper : x + width ≤ base + chunksize) : x ≠ 0 ∧ Mapped h.maps ⟨x, width⟩ := by
  have nonnull := headed.isBase.nonnull
  exact ⟨by omega, headed.mapped.mono ⟨lower, upper⟩⟩

/-- A slab header can be written to mapped bytes. -/
theorem pslabInit_failsOnly {tail : Nat} (nonnull : tail ≠ 0) (word : tail + 16 ≤ 2 ^ 64)
    (mapped : Mapped h.maps ⟨tail, 16⟩) : FailsOnly admitted (pslabInit h tail ptr) := by
  have second : szAdd tail 8 = tail + 8 := szAdd_of_lt (by omega)
  have pointer : Mapped h.maps ⟨tail, 8⟩ := mapped.mono ⟨Nat.le_refl _, by simp only; omega⟩
  have attr : Mapped h.maps ⟨tail + 8, 1⟩ := mapped.mono (Span.within_mk.mpr (by omega))
  refine (storePmem_failsOnly ptr nonnull pointer).bind fun h₁ stored => ?_
  obtain ⟨_, rfl⟩ := storePmem_eq_ok.mp stored
  rw [second]
  exact storePmem_failsOnly _ (by omega) attr

/-! ## The small path -/

/-- `arena_chunk_alloc` of a slab chunk. -/
theorem SlabArena.arenaChunkAlloc_failsOnly (ok : SlabArena h ind arena) :
    FailsOnly Fault.FromEnvironment (arenaChunkAlloc h arena .slab) := by
  obtain ⟨free, maps, out, pool⟩ := ok.pool
  obtain ⟨slabs, ring, slab⟩ := ok.slabs
  exact pool.givesChunk.arenaChunkAlloc_failsOnly ring fun d member => (slab d member).isChunk

/-- Choosing the chunk to carve. -/
theorem SlabArena.sregionChunk_failsOnly (ok : SlabArena h ind arena) :
    FailsOnly Fault.FromEnvironment (Lsmalloc.sregionChunk h arena) := by
  obtain ⟨slabs, ring, slab⟩ := ok.slabs
  have tested : FailsOnly Fault.FromEnvironment
      (chunkLacks h arena.availSchunks sregionSize .slab) := by
    unfold chunkLacks
    split
    · exact failsOnly_ok _
    · rename_i present
      have member := ring.first_mem present
      exact (getChunk_failsOnly (slab _ member).isChunk).bind fun _ _ => failsOnly_ok _
  refine tested.bind fun lacks _ => ?_
  cases lacks with
  | true => exact ok.arenaChunkAlloc_failsOnly
  | false => exact failsOnly_ok _

/-- An sregion is carved off a chunk whose tail is mapped. -/
theorem carveSregion_failsOnly {sregion : Nat} (isChunk : ⟨c, .chunk⟩ ∈ h.blocks)
    (nonnull : (h.chunks c).tail ≠ 0) (mapped : Mapped h.maps ⟨(h.chunks c).tail, sizeofPsregion⟩) :
    FailsOnly admitted (carveSregion h c sregion) := by
  refine (getChunk_failsOnly isChunk).bind fun chunk read => ?_
  obtain ⟨_, rfl⟩ := getChunk_eq_ok.mp read
  refine .bind (storePmem_failsOnly _ nonnull ?_) fun _ _ => failsOnly_ok _
  exact mapped

/-- What carving an sregion returns, and that it maps and unmaps nothing. -/
theorem carveSregion_eq_ok {h' : Heap} {sregion paddr : Nat}
    (carved : carveSregion h c sregion = .ok (paddr, h')) :
    paddr = (h.chunks c).tail ∧ h'.maps = h.maps := by
  obtain ⟨chunk, read, carved⟩ := Execution.bind_eq_ok.mp carved
  obtain ⟨_, rfl⟩ := getChunk_eq_ok.mp read
  obtain ⟨h₃, stored, carved⟩ := Execution.bind_eq_ok.mp carved
  obtain ⟨_, rfl⟩ := storePmem_eq_ok.mp stored
  simp only [Except.ok.injEq, Prod.mk.injEq] at carved
  obtain ⟨rfl, rfl⟩ := carved
  exact ⟨rfl, rfl⟩

/-- `arena_malloc_small_hard`. -/
theorem SlabArena.arenaMallocSmallHard_failsOnly (ok : SlabArena h ind arena) :
    FailsOnly Fault.FromEnvironment (arenaMallocSmallHard h arena size ptr cls) := by
  refine (malloc_failsOnly _ _).bind ?_
  rintro ⟨sregion, w⟩ allocated
  have first : SlabArena { h with toWorld := w } ind arena :=
    ok.of_all (.newBlock (malloc_newBlock allocated))
  refine first.sregionChunk_failsOnly.bind ?_
  rintro ⟨c, h₁, arena₁⟩ chosen
  obtain ⟨_, _, slab, room⟩ := first.sregionChunk chosen
  obtain ⟨isBase, started, ends⟩ := slab.bumped
  have word := isBase.word
  have sizes : sizeofPchunk = 8 ∧ sizeofPsregion = 8 ∧ sregionSize = 1024 := ⟨rfl, rfl, rfl⟩
  obtain ⟨pchunk, psregion, sregionBytes⟩ := sizes
  rw [pchunk] at started
  rw [sregionBytes] at room
  have inside : (h₁.chunks c).tail + 1024 ≤ (h₁.chunks c).paddr + chunksize := by omega
  have next : szAdd (h₁.chunks c).tail sizeofPsregion = (h₁.chunks c).tail + 8 := by
    rw [chunksize_eq] at ends
    rw [psregion]
    exact szAdd_of_lt (by omega)
  obtain ⟨nonnull, mapped⟩ := slab.headed.mapped_of_within (h₁.chunks c).tail 1024 (by omega) inside
  have header : Mapped h₁.maps ⟨(h₁.chunks c).tail, sizeofPsregion⟩ :=
    mapped.mono (by rw [psregion, Span.within_mk]; omega)
  have pslab : Mapped h₁.maps ⟨(h₁.chunks c).tail + 8, 16⟩ :=
    mapped.mono (Span.within_mk.mpr (by omega))
  refine (carveSregion_failsOnly slab.isChunk nonnull header).bind ?_
  rintro ⟨paddr, h₂⟩ carved
  obtain ⟨rfl, sameMaps⟩ := carveSregion_eq_ok carved
  rw [← sameMaps, ← next] at pslab
  rw [chunksize_eq] at ends
  refine .bind (pslabInit_failsOnly ?_ ?_ ?_) fun _ _ => failsOnly_ok _
  · rw [next]
    omega
  · rw [next]
    omega
  · exact pslab

/-- **A small request** fails only as the environment makes it fail. -/
theorem SlabArena.arenaMallocSmall_failsOnly (ok : SlabArena h ind arena)
    (small : size < arenaMaxsmall) :
    FailsOnly Fault.FromEnvironment (Lsmalloc.arenaMallocSmall h arena size ptr) := by
  obtain ⟨isClass, _, bound⟩ := sizeToClass_spec small
  simp only [Lsmalloc.arenaMallocSmall]
  split
  · rename_i present
    have opened := ok.sregions _ isClass present
    obtain ⟨next, last, limit, _⟩ := Sregion.sums opened.ends opened.word bound
    obtain ⟨isSregion, ⟨base, headed, lower, upper⟩, started, _⟩ := opened
    have word := headed.isBase.word
    refine (getSregion_failsOnly isSregion).bind fun s read => ?_
    obtain ⟨_, rfl⟩ := getSregion_eq_ok.mp read
    simp only
    split
    · exact ok.arenaMallocSmallHard_failsOnly
    · rename_i fits
      rw [next, last, limit] at fits
      have pchunk : sizeofPchunk = 8 := rfl
      have sregionBytes : sregionSize = 1024 := rfl
      rw [pchunk] at lower
      rw [sregionBytes] at upper
      obtain ⟨nonnull, mapped⟩ := headed.mapped_of_within
        (h.sregions (arena.availSregion (sizeToClass size))).ptail 16 (by omega) (by omega)
      rw [chunksize_eq] at upper
      exact (pslabInit_failsOnly nonnull (by omega) mapped).bind fun _ _ => failsOnly_ok _
  · exact ok.arenaMallocSmallHard_failsOnly

end Lsmalloc
