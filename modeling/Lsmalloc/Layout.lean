import Mathlib.Data.Nat.Bitwise
import Mathlib.Tactic.NormNum

/-!
# Sizes, alignments and machine words

The constants of the headers, the sizes the compiler gives the structures on a
64-bit target, and the address macros. A `size_t` is a natural number below
`2 ^ 64`; `szAdd` and `szSub` wrap there.
-/

namespace Lsmalloc

/-! ## Machine words -/

/-- Addition of two `size_t` values. -/
def szAdd (a b : Nat) : Nat := (a + b) % 2 ^ 64

/-- Subtraction of two `size_t` values. -/
def szSub (a b : Nat) : Nat := (a + (2 ^ 64 - b % 2 ^ 64)) % 2 ^ 64

theorem szSub_lt (a b : Nat) : szSub a b < 2 ^ 64 :=
  Nat.mod_lt _ (by norm_num)

theorem szAdd_of_lt {a b : Nat} (fits : a + b < 2 ^ 64) : szAdd a b = a + b :=
  Nat.mod_eq_of_lt fits

theorem szSub_of_le {a b : Nat} (fits : a < 2 ^ 64) (ordered : b ≤ a) : szSub a b = a - b := by
  unfold szSub
  omega

/-! ## Constants -/

/-- `LG_CHUNK_DEFAULT`. -/
def lgChunkDefault : Nat := 22

/-- `chunksize`, as `chunk_boot` sets it. -/
def chunksize : Nat := 1 <<< lgChunkDefault

/-- `chunksize_mask`, as `chunk_boot` sets it. -/
def chunksizeMask : Nat := chunksize - 1

/-- `PAGE`. -/
def page : Nat := 1 <<< 12

/-- `PMEMPOOL_SIZE`. -/
def pmempoolSize : Nat := 160 * 1024 * 1024

/-- `PMEMPOOL_SIZE/chunksize`, the chunks of one pool mapping. -/
def freelistLen : Nat := pmempoolSize / chunksize

/-- `arena_maxlarge`, as `arena_boot` sets it. -/
def arenaMaxlarge : Nat := chunksize

/-- `arena_maxsmall`, as `arena_boot` sets it. -/
def arenaMaxsmall : Nat := 224

/-- `sregion_size`. -/
def sregionSize : Nat := 1024

/-- `CLASS_NUM`. -/
def classNum : Nat := 12

/-- `sizeof(pchunk_t)`: one pointer. -/
def sizeofPchunk : Nat := 8

/-- `sizeof(pregion_t)`: one pointer. -/
def sizeofPregion : Nat := 8

/-- `sizeof(psregion_t)`: one pointer. -/
def sizeofPsregion : Nat := 8

/-- `sizeof(pslab_t)`: a pointer and a `char`, padded to the pointer's alignment. -/
def sizeofPslab : Nat := 16

/-- `sizeof(pthread_mutex_t)`. -/
def sizeofMutex : Nat := 40

/-- The offset of `write_lock` in `chunk_t`: `chunktype` (padded to 8), `regions`,
`arena`, `tail`, `paddr` (8 each), `avail_link` (16), `availsize`, `dirtysize`
(8 each) and `gc_lock` come before it. -/
def offsetofWriteLock : Nat := 8 + 8 + 8 + 8 + 8 + 16 + 8 + 8 + sizeofMutex

/-- `sizeof(chunk_t)`: `write_lock`, `live` and `gcing` end it, padded to 8. -/
def sizeofChunk : Nat := offsetofWriteLock + sizeofMutex + 8

/-- `sizeof(region_t)`: `regions_link` (16), `attr` and `threadid` (padded to 8),
`size`, `ptr`, `paddr` and `chunk`. -/
def sizeofRegion : Nat := 16 + 8 + 8 + 8 + 8 + 8

/-- `sizeof(sregion_t)`: `size`, `paddr` and `ptail`. -/
def sizeofSregion : Nat := 8 + 8 + 8

theorem chunksize_eq : chunksize = 4194304 := rfl

theorem page_eq : page = 4096 := rfl

theorem freelistLen_eq : freelistLen = 40 := rfl

theorem pmempoolSize_eq : pmempoolSize = 167772160 := rfl

/-- A pool mapping is whole pages, holds a chunk, and leaves room for one more. -/
theorem pmempoolSize_bounds : pmempoolSize % page = 0 ∧ chunksize ≤ pmempoolSize ∧
    pmempoolSize + chunksize < 2 ^ 64 := by
  rw [pmempoolSize_eq, chunksize_eq, page_eq]
  norm_num

/-! ## Address macros -/

/-- `ALIGNMENT_CEILING(s, alignment)`. -/
def alignmentCeiling (s alignment : Nat) : Nat :=
  szAdd s (alignment - 1) &&& szSub 0 alignment

/-- `CHUNK_ADDR2BASE(a)`. -/
def chunkAddr2base (a : Nat) : Nat :=
  a &&& (2 ^ 64 - 1 - chunksizeMask)

/-- The kernel maps whole pages. -/
def pageCeiling (len : Nat) : Nat := (len + (page - 1)) / page * page

theorem pageCeiling_of_dvd {len : Nat} (whole : len % page = 0) : pageCeiling len = len := by
  unfold pageCeiling
  rw [page_eq] at *
  omega

/-- Pages hold what they are rounded up from. -/
theorem le_pageCeiling (len : Nat) : len ≤ pageCeiling len ∧ pageCeiling len % page = 0 := by
  unfold pageCeiling
  rw [page_eq]
  omega

/-- A chunk is whole pages. -/
theorem pageCeiling_add_chunksize (len : Nat) :
    pageCeiling (len + chunksize) = pageCeiling len + chunksize := by
  unfold pageCeiling
  rw [page_eq, chunksize_eq]
  omega

/-- Masking with the complement of the low `k` bits rounds down to `2 ^ k`. -/
theorem and_high_mask {x k : Nat} (word : x < 2 ^ 64) (low : k ≤ 64) :
    x &&& (2 ^ 64 - 2 ^ k) = x / 2 ^ k * 2 ^ k := by
  apply Nat.eq_of_testBit_eq
  intro i
  have mask : (2 ^ 64 - 2 ^ k).testBit i = (decide (i < 64) && !decide (i < k)) := by
    have positive : 0 < 2 ^ k := Nat.two_pow_pos k
    have shape : 2 ^ 64 - 2 ^ k = 2 ^ 64 - ((2 ^ k - 1) + 1) := by omega
    have below : 2 ^ k - 1 < 2 ^ 64 := by
      have := Nat.pow_le_pow_right (by norm_num : 0 < 2) low
      omega
    rw [shape, Nat.testBit_two_pow_sub_succ below, Nat.testBit_two_pow_sub_one]
  rw [Nat.testBit_and, mask, ← Nat.shiftRight_eq_div_pow, ← Nat.shiftLeft_eq,
    Nat.testBit_shiftLeft, Nat.testBit_shiftRight]
  by_cases high : k ≤ i
  · have notLow : ¬ i < k := by omega
    by_cases inWord : i < 64
    · simp [high, notLow, inWord, Nat.add_sub_cancel' high]
    · have zero : x.testBit i = false :=
        Nat.testBit_lt_two_pow (lt_of_lt_of_le word (Nat.pow_le_pow_right (by norm_num) (by omega)))
      simp [high, inWord, zero, Nat.add_sub_cancel' high]
  · have isLow : i < k := by omega
    simp [high, isLow]

/-- Rounding up to a power of two, where the sum does not wrap. -/
theorem alignmentCeiling_eq {s k : Nat} (low : k < 64) (fits : s + (2 ^ k - 1) < 2 ^ 64) :
    alignmentCeiling s (2 ^ k) = (s + (2 ^ k - 1)) / 2 ^ k * 2 ^ k := by
  have positive : 0 < 2 ^ k := Nat.two_pow_pos k
  have word : 2 ^ k < 2 ^ 64 := Nat.pow_lt_pow_right (by norm_num) low
  have mask : szSub 0 (2 ^ k) = 2 ^ 64 - 2 ^ k := by
    unfold szSub
    rw [Nat.mod_eq_of_lt word]
    omega
  rw [alignmentCeiling, mask, szAdd_of_lt fits, and_high_mask fits (by omega)]

theorem alignmentCeiling_chunksize {s : Nat} (fits : s + chunksize ≤ 2 ^ 64) :
    alignmentCeiling s chunksize = (s + (chunksize - 1)) / chunksize * chunksize := by
  rw [chunksize_eq] at *
  exact alignmentCeiling_eq (k := 22) (by norm_num) (by omega)

/-- Rounding up to `chunksize` gives a multiple of it, also where the sum wraps. -/
theorem alignmentCeiling_mod (s : Nat) : alignmentCeiling s chunksize % chunksize = 0 := by
  have mask : szSub 0 chunksize = 2 ^ 64 - 2 ^ 22 := by decide
  have below : szAdd s (chunksize - 1) < 2 ^ 64 := Nat.mod_lt _ (by norm_num)
  rw [alignmentCeiling, mask, and_high_mask below (by norm_num), chunksize_eq]
  exact Nat.mul_mod_left _ _

theorem alignmentCeiling_eight {s : Nat} (fits : s + 8 ≤ 2 ^ 64) :
    alignmentCeiling s 8 = (s + 7) / 8 * 8 :=
  alignmentCeiling_eq (k := 3) (by norm_num) (by omega)

/-- The base of an address is the multiple of `chunksize` at or below it. -/
theorem chunkAddr2base_eq {a : Nat} (word : a < 2 ^ 64) :
    chunkAddr2base a = a / chunksize * chunksize := by
  have mask : 2 ^ 64 - 1 - chunksizeMask = 2 ^ 64 - 2 ^ 22 := by decide
  rw [chunkAddr2base, mask, and_high_mask word (by norm_num)]
  rfl

/-- Every address of an aligned chunk has that chunk as its base. -/
theorem chunkAddr2base_of_within {base a : Nat} (aligned : base % chunksize = 0)
    (lower : base ≤ a) (upper : a < base + chunksize) (word : a < 2 ^ 64) :
    chunkAddr2base a = base := by
  rw [chunkAddr2base_eq word]
  rw [chunksize_eq] at *
  omega

end Lsmalloc
