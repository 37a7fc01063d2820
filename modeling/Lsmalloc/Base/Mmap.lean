import Lsmalloc.World

/-!
# Anonymous chunks

`chunk_mmap.c` and `chunk.c`: a mapping that is aligned by chance is taken, and otherwise one that
is large enough is trimmed. Exactly the chunk stays mapped.
-/

namespace Lsmalloc

open Execution

/-! ## The kernel -/

/-- The anonymous mappings, and what `mmap` returns next: an address, or `MAP_FAILED`. -/
structure Pages where
  maps : List Span
  answers : List (Option Nat)

/-- What `mmap` without `MAP_FIXED` promises of a new mapping on a 64-bit target. -/
structure MmapContract (p : Pages) (addr len : Nat) : Prop where
  nonzero : addr ≠ 0
  aligned : addr % page = 0
  inSpace : addr + pageCeiling len ≤ 2 ^ 47
  clear : ∀ m ∈ p.maps, m.Apart ⟨addr, pageCeiling len⟩

instance (p : Pages) (addr len : Nat) : Decidable (MmapContract p addr len) :=
  decidable_of_iff (addr ≠ 0 ∧ addr % page = 0 ∧ addr + pageCeiling len ≤ 2 ^ 47 ∧
      ∀ m ∈ p.maps, m.Apart ⟨addr, pageCeiling len⟩)
    ⟨fun ⟨a, b, c, d⟩ => ⟨a, b, c, d⟩, fun ⟨a, b, c, d⟩ => ⟨a, b, c, d⟩⟩

/-- `mmap`, with a hint that it need not follow. -/
def mmap (p : Pages) (len : Nat) : Except Fault (Option Nat × Pages) :=
  match p.answers with
  | [] => .error .contract
  | none :: rest => .ok (none, { p with answers := rest })
  | some addr :: rest =>
      if MmapContract p addr len then
        .ok (some addr, { maps := ⟨addr, pageCeiling len⟩ :: p.maps, answers := rest })
      else .error .contract

/-- `munmap`; `none` is `-1`. It is assumed to have the memory for the mappings that are left, so
that it does not fail with `ENOMEM`. -/
def munmap (p : Pages) (addr len : Nat) : Option Pages :=
  if addr % page ≠ 0 ∨ len = 0 then none
  else some { p with maps := p.maps.flatMap fun m => m.diff ⟨addr, pageCeiling len⟩ }

/-! ## `chunk_mmap.c` -/

/-- `pages_map`. -/
def pagesMap (p : Pages) (addr size : Nat) : Except Fault (Nat × Pages) :=
  if size = 0 then .error .abort
  else do
    let (answer, p) ← mmap p size
    match answer with
    | none => .ok (0, p)
    | some ret =>
        if ret = 0 then .error .abort
        else if addr ≠ 0 ∧ ret ≠ addr then
          -- Mapped, but not in the right place.
          match munmap p ret size with
          | none => .error .abort
          | some p => .ok (0, p)
        else if (addr = 0 ∧ ret ≠ addr) ∨ (addr ≠ 0 ∧ ret = addr) then .ok (ret, p)
        else .error .abort

/-- `pages_unmap`. -/
def pagesUnmap (p : Pages) (addr size : Nat) : Except Fault Pages :=
  match munmap p addr size with
  | none => .error .abort
  | some p => .ok p

/-- `pages_trim`. -/
def pagesTrim (p : Pages) (addr allocSize leadsize size : Nat) : Except Fault (Nat × Pages) :=
  if allocSize ≥ szAdd leadsize size then do
    let ret := szAdd addr leadsize
    let trailsize := szSub (szSub allocSize leadsize) size
    let p ← (if leadsize ≠ 0 then pagesUnmap p addr leadsize else .ok p)
    let p ← (if trailsize ≠ 0 then pagesUnmap p (szAdd ret size) trailsize else .ok p)
    .ok (ret, p)
  else .error .abort

/-- The loop of `chunk_alloc_mmap_slow`. -/
def chunkAllocMmapLoop (size alignment allocSize : Nat) : Nat → Pages → Except Fault (Nat × Pages)
  | 0, _ => .error .fuel
  | fuel + 1, p => do
      let (pages, p) ← pagesMap p 0 allocSize
      if pages = 0 then .ok (0, p)
      else do
        let leadsize := szSub (alignmentCeiling pages alignment) pages
        let (ret, p) ← pagesTrim p pages allocSize leadsize size
        if ret = 0 then chunkAllocMmapLoop size alignment allocSize fuel p else .ok (ret, p)

/-- `chunk_alloc_mmap_slow`. Each round of the loop takes an answer of `mmap`. -/
def chunkAllocMmapSlow (p : Pages) (size alignment : Nat) (zero : Bool) :
    Except Fault (Nat × Bool × Pages) :=
  let allocSize := szSub (szAdd size alignment) page
  if allocSize < size then .ok (0, zero, p)
  else do
    let (ret, p) ← chunkAllocMmapLoop size alignment allocSize (p.answers.length + 1) p
    .ok (ret, if ret = 0 then zero else true, p)

/-- `chunk_alloc_mmap`: the chunk, or `NULL`, and `*zero`. -/
def chunkAllocMmap (p : Pages) (size alignment : Nat) (zero : Bool) :
    Except Fault (Nat × Bool × Pages) :=
  if alignment = 0 then .error .abort
  else if alignment &&& chunksizeMask ≠ 0 then .error .abort
  else do
    let (ret, p) ← pagesMap p 0 size
    if ret = 0 then .ok (0, zero, p)
    else
      let offset := ret &&& (alignment - 1)
      if offset ≠ 0 then do
        let p ← pagesUnmap p ret size
        chunkAllocMmapSlow p size alignment zero
      else .ok (ret, true, p)

/-- `chunk_dealloc_mmap`. -/
def chunkDeallocMmap (p : Pages) (chunk size : Nat) : Except Fault Pages := pagesUnmap p chunk size

/-! ## `chunk.c` -/

/-- `chunk_alloc`. -/
def chunkAlloc (p : Pages) (size alignment : Nat) (zero : Bool) :
    Except Fault (Nat × Bool × Pages) :=
  if size = 0 ∨ size &&& chunksizeMask ≠ 0 then .error .abort
  else if alignment = 0 ∨ alignment &&& chunksizeMask ≠ 0 then .error .abort
  else do
    let (ret, zero, p) ← chunkAllocMmap p size alignment zero
    if chunkAddr2base ret = ret then .ok (ret, zero, p) else .error .abort

/-- `chunk_unmap`. -/
def chunkUnmap (p : Pages) (chunk size : Nat) : Except Fault Pages :=
  if chunk = 0 ∨ chunkAddr2base chunk ≠ chunk then .error .abort
  else if size = 0 ∨ size &&& chunksizeMask ≠ 0 then .error .abort
  else chunkDeallocMmap p chunk size

/-- `chunk_dealloc`. -/
def chunkDealloc (p : Pages) (chunk size : Nat) (unmap : Bool) : Except Fault Pages :=
  if chunk = 0 ∨ chunkAddr2base chunk ≠ chunk then .error .abort
  else if size = 0 ∨ size &&& chunksizeMask ≠ 0 then .error .abort
  else if unmap = true then chunkUnmap p chunk size
  else .ok p

/-! ## What stays mapped -/

/-- A mapped byte. -/
def Pages.Byte (p : Pages) (a : Nat) : Prop := Mapped p.maps ⟨a, 1⟩

variable {p p' : Pages} {addr len a : Nat}

theorem Pages.byte_iff : p.Byte a ↔ ∃ m ∈ p.maps, m.start ≤ a ∧ a < m.start + m.len := Iff.rfl

/-- A new mapping that did not fail. -/
theorem mmap_eq_ok (mapped : mmap p len = .ok (some addr, p')) :
    MmapContract p addr len ∧ (∀ a, p'.Byte a ↔ p.Byte a ∨ (addr ≤ a ∧ a < addr + pageCeiling len)) ∧
      p'.answers.length < p.answers.length := by
  unfold mmap at mapped
  split at mapped
  · cases mapped
  · cases mapped
  · rename_i answers
    split at mapped
    · rename_i contract
      cases mapped
      refine ⟨contract, fun a => ?_, by rw [answers]; exact Nat.lt_succ_self _⟩
      simp only [Pages.byte_iff, List.exists_mem_cons_iff]
      exact Or.comm
    · cases mapped

/-- None of its bytes was mapped before. -/
theorem MmapContract.byte (contract : MmapContract p addr len) (lower : addr ≤ a)
    (upper : a < addr + pageCeiling len) : ¬ p.Byte a := by
  rintro ⟨m, inMaps, inside⟩
  have here : (Span.mk a 1).Within ⟨addr, pageCeiling len⟩ := ⟨lower, upper⟩
  have apart : (Span.mk a 1).Apart ⟨a, 1⟩ := (contract.clear m inMaps).mono₂ inside here
  exact apart.start_ne Nat.one_pos Nat.one_pos rfl

/-- An unmapping takes the bytes of its pages. -/
theorem pagesUnmap_eq (aligned : addr % page = 0) (nonempty : 0 < len) :
    ∃ p', pagesUnmap p addr len = .ok p' ∧ p'.answers = p.answers ∧
      ∀ a, p'.Byte a ↔ p.Byte a ∧ ¬ (addr ≤ a ∧ a < addr + pageCeiling len) := by
  have valid : ¬ (addr % page ≠ 0 ∨ len = 0) := by omega
  refine ⟨{ p with maps := p.maps.flatMap fun m => m.diff ⟨addr, pageCeiling len⟩ },
    by rw [pagesUnmap, munmap, if_neg valid], rfl, fun a => ?_⟩
  simp only [Pages.Byte, Mapped, List.mem_flatMap]
  constructor
  · rintro ⟨piece, ⟨m, inMaps, inDiff⟩, inside⟩
    obtain ⟨inM, missed⟩ := Span.mem_diff_byte.mp ⟨piece, inDiff, inside⟩
    exact ⟨⟨m, inMaps, inM⟩, missed⟩
  · rintro ⟨⟨m, inMaps, inM⟩, missed⟩
    have outside : ¬ (Span.mk a 1).Within ⟨addr, pageCeiling len⟩ := missed
    obtain ⟨piece, inDiff, inside⟩ := Span.mem_diff_byte.mpr ⟨inM, outside⟩
    exact ⟨piece, ⟨m, inMaps, inDiff⟩, inside⟩

/-- A mapping that failed. -/
theorem mmap_failed (failed : mmap p len = .ok (none, p')) :
    (∀ a, p'.Byte a ↔ p.Byte a) ∧ p'.answers.length < p.answers.length := by
  unfold mmap at failed
  split at failed
  · cases failed
  · rename_i answers
    cases failed
    exact ⟨fun _ => Iff.rfl, by rw [answers]; exact Nat.lt_succ_self _⟩
  · split at failed <;> cases failed

theorem mmap_failsOnly (p : Pages) (len : Nat) : FailsOnly (· = Fault.contract) (mmap p len) := by
  unfold mmap
  split
  · exact failsOnly_error rfl
  · exact failsOnly_ok _
  · split
    · exact failsOnly_ok _
    · exact failsOnly_error rfl

/-- What `pages_map` leaves: `NULL`, or a new mapping. -/
def PagesMapped (p : Pages) (len : Nat) (r : Nat × Pages) : Prop :=
  (r.1 = 0 ∧ ∀ a, r.2.Byte a ↔ p.Byte a) ∨
    (MmapContract p r.1 len ∧
      ∀ a, r.2.Byte a ↔ p.Byte a ∨ (r.1 ≤ a ∧ a < r.1 + pageCeiling len))

theorem pagesMap_delivers (p : Pages) (nonempty : 0 < len) :
    Delivers (· = Fault.contract)
      (fun r => PagesMapped p len r ∧ r.2.answers.length < p.answers.length)
      (pagesMap p 0 len) := by
  rw [pagesMap, if_neg (by omega)]
  have maps : Delivers (· = Fault.contract) (fun r => mmap p len = .ok r) (mmap p len) :=
    ⟨mmap_failsOnly p len, fun _ outcome => outcome⟩
  refine maps.bind ?_
  rintro ⟨answer, p'⟩ outcome
  cases answer with
  | none =>
      obtain ⟨same, shorter⟩ := mmap_failed outcome
      exact delivers_ok ⟨.inl ⟨rfl, same⟩, shorter⟩
  | some ret =>
      obtain ⟨contract, bytes, shorter⟩ := mmap_eq_ok outcome
      have nonzero := contract.nonzero
      dsimp only
      rw [if_neg nonzero, if_neg (by omega), if_pos (.inl ⟨rfl, nonzero⟩)]
      exact delivers_ok ⟨.inr ⟨contract, bytes⟩, shorter⟩

/-- A chunk that is left of what was mapped: aligned, and of bytes that were not mapped. -/
structure ChunkMapped (p : Pages) (size alignment ret : Nat) (p' : Pages) : Prop where
  nonzero : ret ≠ 0
  aligned : ret % alignment = 0
  inSpace : ret + size ≤ 2 ^ 47
  fresh : ∀ a, ret ≤ a → a < ret + size → ¬ p.Byte a
  bytes : ∀ a, p'.Byte a ↔ p.Byte a ∨ (ret ≤ a ∧ a < ret + size)

/-- Trimming leaves the part in the middle. -/
theorem pagesTrim_eq {allocSize leadsize size : Nat} (contract : MmapContract p addr allocSize)
    (bytes : ∀ a, p'.Byte a ↔ p.Byte a ∨ (addr ≤ a ∧ a < addr + allocSize))
    (pages : allocSize % page = 0 ∧ leadsize % page = 0 ∧ size % page = 0)
    (room : leadsize + size ≤ allocSize) :
    ∃ p'', pagesTrim p' addr allocSize leadsize size = .ok (addr + leadsize, p'') ∧
      ∀ a, p''.Byte a ↔ p.Byte a ∨ (addr + leadsize ≤ a ∧ a < addr + leadsize + size) := by
  obtain ⟨wholeAlloc, wholeLead, whole⟩ := pages
  have aligned := contract.aligned
  have space := contract.inSpace
  rw [pageCeiling_of_dvd wholeAlloc] at space
  have fresh : ∀ a, addr ≤ a → a < addr + allocSize → ¬ p.Byte a := fun a lower upper =>
    contract.byte lower (by rwa [pageCeiling_of_dvd wholeAlloc])
  have sum : szAdd leadsize size = leadsize + size := szAdd_of_lt (by omega)
  have start : szAdd addr leadsize = addr + leadsize := szAdd_of_lt (by omega)
  have ends : szAdd (addr + leadsize) size = addr + leadsize + size := szAdd_of_lt (by omega)
  have rest : szSub allocSize leadsize = allocSize - leadsize :=
    szSub_of_le (by omega) (by omega)
  have trail : szSub (szSub allocSize leadsize) size = allocSize - leadsize - size := by
    rw [rest]
    exact szSub_of_le (by omega) (by omega)
  -- Either end is given back if there is one.
  have lead : ∃ q, (if leadsize ≠ 0 then pagesUnmap p' addr leadsize else .ok p') = .ok q ∧
      ∀ a, q.Byte a ↔ p'.Byte a ∧ ¬ (addr ≤ a ∧ a < addr + leadsize) := by
    by_cases none : leadsize = 0
    · refine ⟨p', by rw [if_neg (by omega)], fun a => ?_⟩
      exact ⟨fun mapped => ⟨mapped, by omega⟩, fun both => both.1⟩
    · obtain ⟨q, unmapped, _, left⟩ := pagesUnmap_eq (p := p') aligned (Nat.pos_of_ne_zero none)
      rw [pageCeiling_of_dvd wholeLead] at left
      exact ⟨q, by rw [if_pos none, unmapped], left⟩
  obtain ⟨q, unmapped, left⟩ := lead
  have trailing : ∃ q', (if allocSize - leadsize - size ≠ 0 then
        pagesUnmap q (addr + leadsize + size) (allocSize - leadsize - size) else .ok q) = .ok q' ∧
      ∀ a, q'.Byte a ↔ q.Byte a ∧ ¬ (addr + leadsize + size ≤ a ∧ a < addr + allocSize) := by
    by_cases none : allocSize - leadsize - size = 0
    · refine ⟨q, by rw [if_neg (by omega)], fun a => ?_⟩
      exact ⟨fun mapped => ⟨mapped, by omega⟩, fun both => both.1⟩
    · have wholeTrail : (allocSize - leadsize - size) % page = 0 := by
        rw [page_eq] at *
        omega
      have alignedTrail : (addr + leadsize + size) % page = 0 := by
        rw [page_eq] at *
        omega
      obtain ⟨q', unmapped, _, left⟩ := pagesUnmap_eq (p := q) alignedTrail
        (Nat.pos_of_ne_zero none)
      have last : addr + leadsize + size + (allocSize - leadsize - size) = addr + allocSize := by
        omega
      rw [pageCeiling_of_dvd wholeTrail, last] at left
      exact ⟨q', by rw [if_pos none, unmapped], left⟩
  obtain ⟨q', unmapped', left'⟩ := trailing
  refine ⟨q', ?_, fun a => ?_⟩
  · rw [pagesTrim, sum, if_pos room]
    dsimp only
    rw [start, ends, trail]
    exact bind_eq_ok.mpr ⟨q, unmapped, bind_eq_ok.mpr ⟨q', unmapped', rfl⟩⟩
  · rw [left' a, left a, bytes a]
    have new := fresh a
    constructor
    · rintro ⟨⟨old | inside, front⟩, behind⟩
      · exact .inl old
      · exact .inr (by omega)
    · rintro (old | inside)
      · refine ⟨⟨.inl old, fun lead => ?_⟩, fun trail => ?_⟩
        · exact new lead.1 (by omega) old
        · exact new (by omega) trail.2 old
      · exact ⟨⟨.inr (by omega), by omega⟩, by omega⟩

variable {size k : Nat}

theorem page_le (low : 12 ≤ k) : page ≤ 2 ^ k := by
  have le : 2 ^ 12 ≤ 2 ^ k := Nat.pow_le_pow_right (by decide) low
  rw [page_eq]
  omega

theorem two_pow_le (high : k < 64) : 2 ^ k ≤ 2 ^ 63 :=
  Nat.pow_le_pow_right (by decide) (by omega)

/-- Where the sum wraps the function sees it. -/
theorem allocSize_eq (low : 12 ≤ k) (high : k < 64) :
    szSub (szAdd size (2 ^ k)) page = (size + (2 ^ k - page)) % 2 ^ 64 := by
  have large := page_le low
  have small := two_pow_le high
  unfold szSub szAdd
  rw [page_eq] at *
  omega

/-- The loop maps once: a part of what was mapped is no `NULL`. -/
theorem chunkAllocMmapLoop_delivers (p : Pages) (positive : 0 < size)
    (whole : size % page = 0) (low : 12 ≤ k) (high : k < 64)
    (fits : size + (2 ^ k - page) < 2 ^ 64) (fuel : Nat) :
    Delivers (· = Fault.contract)
      (fun r => (r.1 = 0 ∧ ∀ a, r.2.Byte a ↔ p.Byte a) ∨ ChunkMapped p size (2 ^ k) r.1 r.2)
      (chunkAllocMmapLoop size (2 ^ k) (size + (2 ^ k - page)) (fuel + 1) p) := by
  have large := page_le low
  have wholeAlign : 2 ^ k % page = 0 := by
    rw [page_eq]
    exact Nat.mod_eq_zero_of_dvd (pow_dvd_pow 2 low)
  have small := two_pow_le high
  have wholeAlloc : (size + (2 ^ k - page)) % page = 0 := by
    rw [page_eq] at *
    omega
  rw [chunkAllocMmapLoop]
  refine (pagesMap_delivers p (by omega)).bind ?_
  rintro ⟨pages, p'⟩ ⟨mapped, -⟩
  obtain ⟨rfl, same⟩ | ⟨contract, bytes⟩ := mapped
  · exact delivers_ok (.inl ⟨rfl, same⟩)
  · have nonzero := contract.nonzero
    have space := contract.inSpace
    have aligned := contract.aligned
    dsimp only at nonzero space aligned bytes ⊢
    rw [if_neg nonzero]
    rw [pageCeiling_of_dvd wholeAlloc] at space bytes
    have ceiling := alignmentCeiling_eq (s := pages) high (by omega)
    -- The aligned address is less than one alignment ahead, and pages ahead.
    generalize start : alignmentCeiling pages (2 ^ k) = ret at *
    have onAlignment : ret % 2 ^ k = 0 := by
      rw [ceiling]
      exact Nat.mul_mod_left _ _
    have bounds : pages ≤ ret ∧ ret < pages + 2 ^ k := by
      have division := Nat.div_add_mod (pages + (2 ^ k - 1)) (2 ^ k)
      have remainder := Nat.mod_lt (pages + (2 ^ k - 1)) (Nat.two_pow_pos k)
      rw [Nat.mul_comm, ← ceiling] at division
      omega
    have onPage : ret % page = 0 := by
      rw [page_eq] at *
      exact Nat.mod_eq_zero_of_dvd ((pow_dvd_pow 2 low).trans (Nat.dvd_of_mod_eq_zero onAlignment))
    have lead : szSub ret pages = ret - pages := szSub_of_le (by omega) bounds.1
    have room : ret - pages + size ≤ size + (2 ^ k - page) := by
      rw [page_eq] at *
      omega
    have wholeLead : (ret - pages) % page = 0 := by
      rw [page_eq] at *
      omega
    obtain ⟨p'', trimmed, left⟩ :=
      pagesTrim_eq contract bytes ⟨wholeAlloc, wholeLead, whole⟩ room
    have middle : pages + (ret - pages) = ret := by omega
    rw [middle] at trimmed left
    rw [lead, trimmed]
    change Delivers _ _ (if ret = 0 then _ else Except.ok (ret, p''))
    rw [if_neg (by omega)]
    refine delivers_ok (.inr ⟨by dsimp only; omega, onAlignment, by dsimp only; omega, ?_, left⟩)
    intro a lower upper
    refine contract.byte (by omega) ?_
    rw [pageCeiling_of_dvd wholeAlloc]
    omega

/-- What an allocation of a chunk leaves: `NULL` and what was mapped before, or that and a chunk. -/
def ChunkAnswered (p : Pages) (size alignment : Nat) (zero : Bool) (r : Nat × Bool × Pages) : Prop :=
  (r.1 = 0 ∧ r.2.1 = zero ∧ ∀ a, r.2.2.Byte a ↔ p.Byte a) ∨
    (ChunkMapped p size alignment r.1 r.2.2 ∧ r.2.1 = true)

/-- A chunk beside the same bytes. -/
theorem ChunkMapped.congr {q : Pages} {alignment ret : Nat}
    (chunk : ChunkMapped q size alignment ret p') (same : ∀ a, q.Byte a ↔ p.Byte a) :
    ChunkMapped p size alignment ret p' where
  nonzero := chunk.nonzero
  aligned := chunk.aligned
  inSpace := chunk.inSpace
  fresh a lower upper := (same a).not.mp (chunk.fresh a lower upper)
  bytes a := (chunk.bytes a).trans (or_congr_left (same a))

theorem chunkAllocMmapSlow_delivers (p : Pages) (positive : 0 < size) (word : size < 2 ^ 64)
    (whole : size % page = 0) (low : 12 ≤ k) (high : k < 64) (zero : Bool) :
    Delivers (· = Fault.contract) (ChunkAnswered p size (2 ^ k) zero)
      (chunkAllocMmapSlow p size (2 ^ k) zero) := by
  have small := two_pow_le high
  rw [chunkAllocMmapSlow, allocSize_eq low high]
  dsimp only
  split
  · exact delivers_ok (.inl ⟨rfl, rfl, fun _ => Iff.rfl⟩)
  · have fits : size + (2 ^ k - page) < 2 ^ 64 := by
      rw [page_eq] at *
      omega
    rw [Nat.mod_eq_of_lt fits]
    refine (chunkAllocMmapLoop_delivers p positive whole low high fits _).bind ?_
    rintro ⟨ret, p'⟩ (⟨rfl, same⟩ | chunk)
    · exact delivers_ok (.inl ⟨rfl, rfl, same⟩)
    · exact delivers_ok (.inr ⟨chunk, if_neg chunk.nonzero⟩)

/-- `chunksize_mask` masks the offset in a chunk. -/
theorem and_chunksizeMask (x : Nat) : x &&& chunksizeMask = x % 2 ^ 22 := by
  have mask : chunksizeMask = 2 ^ 22 - 1 := by decide
  rw [mask, Nat.and_two_pow_sub_one_eq_mod]

/-- **Exactly the chunk stays mapped.** For any size in pages and any alignment that is a power of
two and holds chunks, `chunk_alloc_mmap` fails an assertion never. It returns `NULL` and leaves the
mappings as they were, or an aligned chunk of bytes that were not mapped, and of all that it mapped
on its way only these stay. -/
theorem chunkAllocMmap_exact (p : Pages) (positive : 0 < size) (word : size < 2 ^ 64)
    (whole : size % page = 0) (low : 22 ≤ k) (high : k < 64) (zero : Bool) :
    Delivers (· = Fault.contract) (ChunkAnswered p size (2 ^ k) zero)
      (chunkAllocMmap p size (2 ^ k) zero) := by
  have mask : 2 ^ k &&& chunksizeMask = 0 := by
    rw [and_chunksizeMask]
    exact Nat.mod_eq_zero_of_dvd (pow_dvd_pow 2 low)
  have nonzero : 2 ^ k ≠ 0 := (Nat.two_pow_pos k).ne'
  rw [chunkAllocMmap, if_neg nonzero, if_neg (not_not.mpr mask)]
  refine (pagesMap_delivers p positive).bind ?_
  rintro ⟨ret, p'⟩ ⟨⟨rfl, same⟩ | ⟨contract, bytes⟩, -⟩
  · exact delivers_ok (.inl ⟨rfl, rfl, same⟩)
  · have placed := contract.nonzero
    have space := contract.inSpace
    dsimp only at placed space bytes ⊢
    rw [pageCeiling_of_dvd whole] at space bytes
    rw [if_neg placed, Nat.and_two_pow_sub_one_eq_mod]
    by_cases offset : ret % 2 ^ k = 0
    · have fresh : ∀ a, ret ≤ a → a < ret + size → ¬ p.Byte a := fun a lower upper =>
        contract.byte lower (by rwa [pageCeiling_of_dvd whole])
      rw [if_neg (not_not.mpr offset)]
      exact delivers_ok (.inr ⟨⟨placed, offset, space, fresh, bytes⟩, rfl⟩)
    · obtain ⟨q, unmapped, _, left⟩ := pagesUnmap_eq (p := p') contract.aligned positive
      have same : ∀ a, q.Byte a ↔ p.Byte a := by
        intro a
        rw [left a, bytes a, pageCeiling_of_dvd whole]
        constructor
        · rintro ⟨old | inside, outside⟩
          · exact old
          · exact absurd inside outside
        · intro old
          refine ⟨.inl old, fun inside => ?_⟩
          exact contract.byte inside.1 (by rw [pageCeiling_of_dvd whole]; exact inside.2) old
      have unmaps : Delivers (· = Fault.contract) (· = q) (pagesUnmap p' ret size) := by
        rw [unmapped]
        exact delivers_ok rfl
      rw [if_pos offset]
      refine unmaps.bind ?_
      rintro _ rfl
      refine (chunkAllocMmapSlow_delivers _ positive word whole (by omega) high zero).mono
        (fun _ contract => contract) ?_
      rintro ⟨ret, zero', p'⟩ (⟨failed, kept, bytes⟩ | ⟨chunk, zeroed⟩)
      · exact .inl ⟨failed, kept, fun a => (bytes a).trans (same a)⟩
      · exact .inr ⟨chunk.congr same, zeroed⟩

/-- A first mapping that is not aligned, and a second one that is trimmed at both ends. -/
theorem chunkAllocMmap_exact_of_unaligned :
    ∃ r, chunkAllocMmap ⟨[], [some 4096, some 8192]⟩ chunksize (2 ^ 22) false = .ok r ∧
      r.1 = chunksize ∧ ChunkMapped ⟨[], [some 4096, some 8192]⟩ chunksize (2 ^ 22) r.1 r.2.2 := by
  obtain ⟨r, allocated, start⟩ :
      ∃ r, chunkAllocMmap ⟨[], [some 4096, some 8192]⟩ chunksize (2 ^ 22) false = .ok r ∧
        r.1 = chunksize := exists_eq_ok_and (by decide +kernel)
  have exact := (chunkAllocMmap_exact ⟨[], [some 4096, some 8192]⟩ (by decide : 0 < chunksize)
    (by decide) (by decide) (by decide : 22 ≤ 22) (by decide) false).2 r allocated
  refine ⟨r, allocated, start, ?_⟩
  obtain ⟨failed, _⟩ | ⟨chunk, _⟩ := exact
  · rw [failed] at start
    exact absurd start (by decide)
  · exact chunk

/-- What is aligned to more than a chunk is aligned to a chunk. -/
theorem ChunkMapped.chunkAddr2base_eq {ret : Nat} (chunk : ChunkMapped p size (2 ^ k) ret p')
    (low : 22 ≤ k) : ret % chunksize = 0 ∧ chunkAddr2base ret = ret := by
  have two : chunksize = 2 ^ 22 := by decide
  have aligned : ret % chunksize = 0 := by
    have divides : chunksize ∣ 2 ^ k := two ▸ pow_dvd_pow 2 low
    exact Nat.mod_eq_zero_of_dvd (divides.trans (Nat.dvd_of_mod_eq_zero chunk.aligned))
  have space := chunk.inSpace
  exact ⟨aligned, chunkAddr2base_of_within aligned (Nat.le_refl _)
    (Nat.lt_add_of_pos_right (by decide)) (by omega)⟩

/-- A chunk of whole chunks, at an address of a chunk. -/
theorem chunkAlloc_delivers (p : Pages) (positive : 0 < size) (word : size < 2 ^ 64)
    (whole : size % chunksize = 0) (low : 22 ≤ k) (high : k < 64) (zero : Bool) :
    Delivers (· = Fault.contract) (ChunkAnswered p size (2 ^ k) zero)
      (chunkAlloc p size (2 ^ k) zero) := by
  have two : chunksize = 2 ^ 22 := by decide
  have mask : size &&& chunksizeMask = 0 := by rw [and_chunksizeMask, ← two, whole]
  have mask' : 2 ^ k &&& chunksizeMask = 0 := by
    rw [and_chunksizeMask]
    exact Nat.mod_eq_zero_of_dvd (pow_dvd_pow 2 low)
  have nonzero : 2 ^ k ≠ 0 := (Nat.two_pow_pos k).ne'
  have pages : size % page = 0 := by
    rw [chunksize_eq] at whole
    rw [page_eq]
    omega
  rw [chunkAlloc, if_neg (by omega), if_neg (by simp only [nonzero, mask', ne_eq, not_true, or_self,
    not_false_iff])]
  refine (chunkAllocMmap_exact p positive word pages low high zero).bind ?_
  rintro ⟨ret, zero', p'⟩ answered
  have base : chunkAddr2base ret = ret := by
    obtain ⟨failed, _⟩ | ⟨chunk, _⟩ := answered
    · dsimp only at failed
      rw [failed]
      decide
    · exact (chunk.chunkAddr2base_eq low).2
  dsimp only
  rw [if_pos base]
  exact delivers_ok answered

/-- **`chunk_dealloc` undoes `chunk_alloc`**: behind both of them the same bytes are mapped, where
`unmap` is set, for every alignment that is a power of two. -/
theorem chunkDealloc_undoes {zero : Bool} {r : Nat × Bool × Pages} (word : size < 2 ^ 64)
    (high : k < 64) (allocated : chunkAlloc p size (2 ^ k) zero = .ok r) (success : r.1 ≠ 0) :
    ∃ p', chunkDealloc r.2.2 r.1 size true = .ok p' ∧ ∀ a, p'.Byte a ↔ p.Byte a := by
  -- The assertions of `chunk_alloc` are those of `chunk_dealloc`.
  have valid : ¬ (size = 0 ∨ size &&& chunksizeMask ≠ 0) := by
    intro invalid
    rw [chunkAlloc, if_pos invalid] at allocated
    cases allocated
  have low : 22 ≤ k := by
    by_contra lower
    have rest : 2 ^ k &&& chunksizeMask ≠ 0 := by
      rw [and_chunksizeMask, Nat.mod_eq_of_lt (Nat.pow_lt_pow_right (by decide) (by omega))]
      exact (Nat.two_pow_pos k).ne'
    rw [chunkAlloc, if_neg valid, if_pos (.inr rest)] at allocated
    cases allocated
  have positive : 0 < size := Nat.pos_of_ne_zero fun none => valid (.inl none)
  have two : chunksize = 2 ^ 22 := by decide
  have whole : size % chunksize = 0 := by
    rw [two, ← and_chunksizeMask]
    exact not_not.mp fun rest => valid (.inr rest)
  obtain ⟨failed, _⟩ | ⟨chunk, _⟩ :=
    (chunkAlloc_delivers p positive word whole low high zero).2 r allocated
  · exact absurd failed success
  obtain ⟨aligned, base⟩ := chunk.chunkAddr2base_eq low
  have isChunk : ¬ (r.1 = 0 ∨ chunkAddr2base r.1 ≠ r.1) := by
    rintro (null | offset)
    · exact success null
    · exact offset base
  have pages : r.1 % page = 0 ∧ size % page = 0 := by
    rw [chunksize_eq] at aligned whole
    rw [page_eq]
    omega
  obtain ⟨p', unmapped, _, left⟩ := pagesUnmap_eq (p := r.2.2) pages.1 positive
  refine ⟨p', ?_, fun a => ?_⟩
  · rw [chunkDealloc, if_neg isChunk, if_neg valid, if_pos rfl, chunkUnmap, if_neg isChunk,
      if_neg valid, chunkDeallocMmap, unmapped]
  · rw [left a, chunk.bytes a, pageCeiling_of_dvd pages.2]
    constructor
    · rintro ⟨old | inside, outside⟩
      · exact old
      · exact absurd inside outside
    · intro old
      exact ⟨.inl old, fun inside => chunk.fresh a inside.1 inside.2 old⟩

/-- A chunk from two mappings is given back. -/
theorem chunkDealloc_undoes_of_unaligned :
    ∃ r p', chunkAlloc ⟨[], [some 4096, some 8192]⟩ chunksize (2 ^ 22) false = .ok r ∧
      chunkDealloc r.2.2 r.1 chunksize true = .ok p' ∧ ∀ a, ¬ p'.Byte a := by
  obtain ⟨r, allocated, success⟩ :
      ∃ r, chunkAlloc ⟨[], [some 4096, some 8192]⟩ chunksize (2 ^ 22) false = .ok r ∧ r.1 ≠ 0 :=
    exists_eq_ok_and (by decide +kernel)
  obtain ⟨p', dealloced, same⟩ :=
    chunkDealloc_undoes (by decide) (by decide : 22 < 64) allocated success
  refine ⟨r, p', allocated, dealloced, fun a mapped => ?_⟩
  obtain ⟨m, inMaps, _⟩ := (same a).mp mapped
  cases inMaps

end Lsmalloc
