import Lsmalloc.Arena.NoOverlap

/-!
# The layout of slabs

`arena_malloc_small` carves sregions off the tail of slab chunks, and slabs off the tail of
the open sregion of a class. The path that opens an sregion and the path that finds room in
it compute their addresses in different ways, for twelve strides that share the chunks. In
any order of requests the sregions are apart, each is filled from its header on by slabs of
one class, and no slab reaches into another (`slabRun_laidOut`).
-/

namespace Lsmalloc

/-- A block `arena_malloc_small` returned: its address, the request, and the sregion that is
open for its class as the call returns. -/
structure SlabBlock where
  addr : Nat
  size : Nat
  ptr : Nat
  sregion : Nat
deriving DecidableEq, Repr

/-- The class of a block. -/
def SlabBlock.cls (b : SlabBlock) : Nat := sizeToClass b.size

/-- The header of a block and the payload of its class. -/
def SlabBlock.span (b : SlabBlock) : Span :=
  ⟨b.addr - sizeofPslab, sizeofPslab + classToSize b.cls⟩

/-- How many of the blocks are in the sregion. -/
def slabCount (slabs : List SlabBlock) (r : Nat) : Nat := slabs.countP fun b => b.sregion = r

/-- The bytes of an sregion. -/
def Sregion.span (s : Sregion) : Span := ⟨s.paddr, sregionSize⟩

/-! ## Runs of small requests -/

/-- An arena with the blocks it has returned, the latest first. -/
structure SlabRun extends ArenaState where
  slabs : List SlabBlock

/-- A call of `arena_malloc_small(arena, size, ptr)`. -/
structure SlabOp where
  size : Nat
  ptr : Nat
deriving DecidableEq, Repr

/-- One call. `imalloct` asks for at least a byte, and `arena_malloc` sends what is below
`arena_maxsmall` here. The user's pointer is a word. -/
def SlabRun.step (s : SlabRun) (op : SlabOp) : Except Fault SlabRun :=
  if 1 ≤ op.size ∧ op.size < arenaMaxsmall ∧ op.ptr < 2 ^ 64 then do
    let (ret, heap, arena) ← arenaMallocSmall s.heap s.arena op.size op.ptr
    .ok ⟨⟨heap, arena⟩, ⟨ret, op.size, op.ptr, arena.availSregion (sizeToClass op.size)⟩ :: s.slabs⟩
  else .error .contract

/-- An arena that `arena_new` has made, and the calls in order. -/
def slabRun (h : Heap) (arena : Arena) (ind : Nat) (ops : List SlabOp) : Except Fault SlabRun := do
  let (heap, arena) ← arenaNew h arena ind
  Execution.run SlabRun.step ⟨⟨heap, arena⟩, []⟩ ops

/-- An sregion made since `w₀`. -/
def IsCarved (w₀ : World) (h : Heap) (r : Nat) : Prop :=
  ⟨r, .sregion⟩ ∈ h.blocks ∧ ⟨r, .sregion⟩ ∉ w₀.blocks

/-- A block lies in its sregion, behind a header that names its owner. -/
structure SlabPlaced (h : Heap) (b : SlabBlock) : Prop where
  aligned : b.addr % 8 = 0
  header : sizeofPslab ≤ b.addr
  ptr : h.pmem.loadWord (b.addr - sizeofPslab) 8 = b.ptr
  clean : h.pmem (b.addr - sizeofPslab + 8) = slabClean
  large : b.size ≤ classToSize b.cls
  inside : b.span.Within (h.sregions b.sregion).span

/-- The sregions and slabs of an arena since `w₀`. -/
structure SlabRun.LaidOut (w₀ : World) (s : SlabRun) : Prop where
  /-- The room of a chunk ends where the chunk does. -/
  chunk : ∀ c, ⟨c, .chunk⟩ ∈ s.heap.blocks → ⟨c, .chunk⟩ ∉ w₀.blocks →
    (s.heap.chunks c).chunktype = .slab ∧
      (s.heap.chunks c).tail ≤ (s.heap.chunks c).paddr + chunksize ∧
      (s.heap.chunks c).paddr + chunksize < 2 ^ 64 ∧
      (s.heap.chunks c).availsize = (s.heap.chunks c).paddr + chunksize - (s.heap.chunks c).tail
  /-- An sregion lies in a chunk behind the chunk's header. -/
  inside : ∀ r, IsCarved w₀ s.heap r → ∃ c, ⟨c, .chunk⟩ ∈ s.heap.blocks ∧
    ⟨c, .chunk⟩ ∉ w₀.blocks ∧ (s.heap.sregions r).span.Within
      ⟨(s.heap.chunks c).paddr + sizeofPchunk, chunksize - sizeofPchunk⟩
  apart : ∀ r r', IsCarved w₀ s.heap r → IsCarved w₀ s.heap r' → r ≠ r' →
    (s.heap.sregions r).span.Apart (s.heap.sregions r').span
  /-- An sregion serves one class. -/
  oneClass : ∀ r, IsCarved w₀ s.heap r → ∃ cls < classNum,
    (s.heap.sregions r).size = classToSize cls ∧ (∀ b ∈ s.slabs, b.sregion = r → b.cls = cls) ∧
      ∀ other < classNum, s.arena.availSregion other = r → other = cls
  /-- The open sregion of a class is filled from its header on. -/
  opened : ∀ cls < classNum, s.arena.availSregion cls ≠ 0 →
    IsCarved w₀ s.heap (s.arena.availSregion cls) ∧
      (s.heap.sregions (s.arena.availSregion cls)).ptail =
        (s.heap.sregions (s.arena.availSregion cls)).paddr + sizeofPsregion +
          slabCount s.slabs (s.arena.availSregion cls) * (sizeofPslab + classToSize cls) ∧
      (s.heap.sregions (s.arena.availSregion cls)).ptail ≤
        (s.heap.sregions (s.arena.availSregion cls)).paddr + sregionSize
  placed : ∀ b ∈ s.slabs, IsCarved w₀ s.heap b.sregion ∧ SlabPlaced s.heap b
  distinct : s.slabs.Pairwise fun b b' => b.span.Apart b'.span

/-! ## Classes -/

/-- Different classes have different sizes. -/
theorem classToSize_inj {cls cls' : Nat} (isClass : cls < classNum) (isClass' : cls' < classNum)
    (same : classToSize cls = classToSize cls') : cls = cls' := by
  have distinct : sizeClass.Nodup := by decide
  have length : sizeClass.length = classNum := by decide
  rw [← length] at isClass isClass'
  unfold classToSize at same
  rw [List.getD_eq_getElem _ _ isClass, List.getD_eq_getElem _ _ isClass'] at same
  exact (distinct.getElem_inj_iff).mp same

/-- A class is whole words, and small. -/
theorem classToSize_bounds {cls : Nat} (isClass : cls < classNum) :
    classToSize cls % 8 = 0 ∧ classToSize cls ≤ arenaMaxsmall := by
  have length : sizeClass.length = classNum := by decide
  have all : ∀ s ∈ sizeClass, s % 8 = 0 ∧ s ≤ arenaMaxsmall := by decide
  rw [← length] at isClass
  unfold classToSize
  rw [List.getD_eq_getElem _ _ isClass]
  exact all _ (List.getElem_mem isClass)

/-! ## The invariant -/

/-- An sregion is behind the header of one of the chunks and before its tail, and filled with
the slabs of a class. -/
structure SregionFilled (h : Heap) (cs : List Nat) (slabs : List SlabBlock) (r : Nat) : Prop where
  inside : ∃ c ∈ cs, (h.chunks c).paddr + 8 ≤ (h.sregions r).paddr ∧
    (h.sregions r).paddr + 1024 ≤ (h.chunks c).tail
  aligned : (h.sregions r).paddr % 8 = 0
  isClass : ∃ cls < classNum, (h.sregions r).size = classToSize cls
  filled : (h.sregions r).ptail =
    (h.sregions r).paddr + 8 + slabCount slabs r * (16 + (h.sregions r).size)
  below : (h.sregions r).ptail ≤ (h.sregions r).paddr + 1024

/-- A block is between the header and the tail of its sregion. -/
structure SlabFilled (h : Heap) (b : SlabBlock) : Prop where
  small : b.size < arenaMaxsmall
  size : (h.sregions b.sregion).size = classToSize b.cls
  lower : (h.sregions b.sregion).paddr + 24 ≤ b.addr
  upper : b.addr + classToSize b.cls ≤ (h.sregions b.sregion).ptail
  aligned : b.addr % 8 = 0
  ptr : h.pmem.loadWord (b.addr - 16) 8 = b.ptr
  clean : h.pmem (b.addr - 8) = slabClean

/-- The slab chunks `cs`, the sregions `ss` carved out of them, and the blocks in these. -/
structure SlabsOk (w₀ : World) (h : Heap) (arena : Arena) (slabs : List SlabBlock)
    (cs ss : List Nat) : Prop where
  chunks : ChunksOk w₀ h arena [] cs
  bumped : ∀ c ∈ cs, (h.chunks c).chunktype = .slab ∧ (h.chunks c).Bumped ∧
    (h.chunks c).tail % 8 = 0
  isSregion : ∀ r ∈ ss, ⟨r, .sregion⟩ ∈ h.blocks
  filled : ∀ r ∈ ss, SregionFilled h cs slabs r
  apart : ∀ r ∈ ss, ∀ r' ∈ ss, r ≠ r' → (h.sregions r).span.Apart (h.sregions r').span
  opened : ∀ cls < classNum, arena.availSregion cls ≠ 0 → arena.availSregion cls ∈ ss ∧
    (h.sregions (arena.availSregion cls)).size = classToSize cls
  placed : ∀ b ∈ slabs, b.sregion ∈ ss ∧ SlabFilled h b
  distinct : slabs.Pairwise fun b b' => b.span.Apart b'.span

variable {w₀ : World} {h h' : Heap} {arena arena' : Arena} {slabs : List SlabBlock}
  {cs ss : List Nat} {c : Nat}

/-- A block keeps its place when its sregion keeps the place of its first slabs and no byte of
its header is written. -/
theorem SlabFilled.kept {b : SlabBlock} (filled : SlabFilled h b)
    (size : (h'.sregions b.sregion).size = (h.sregions b.sregion).size)
    (paddr : (h'.sregions b.sregion).paddr = (h.sregions b.sregion).paddr)
    (ptail : (h.sregions b.sregion).ptail ≤ (h'.sregions b.sregion).ptail)
    (pmem : ∀ x, b.addr - 16 ≤ x → x < b.addr → h'.pmem x = h.pmem x) : SlabFilled h' b where
  small := filled.small
  size := size.trans filled.size
  lower := by
    rw [paddr]
    exact filled.lower
  upper := Nat.le_trans filled.upper ptail
  aligned := filled.aligned
  ptr := by
    have lower := filled.lower
    rw [← filled.ptr]
    exact Memory.loadWord_congr fun x above below => pmem x above (by omega)
  clean := by
    have lower := filled.lower
    rw [pmem _ (by omega) (by omega)]
    exact filled.clean

/-- The slab of a block is within its sregion. -/
theorem SlabFilled.within {b : SlabBlock} (filled : SlabFilled h b)
    (below : (h.sregions b.sregion).ptail ≤ (h.sregions b.sregion).paddr + 1024) :
    b.span.Within (h.sregions b.sregion).span := by
  have lower := filled.lower
  have upper := filled.upper
  have pslab : sizeofPslab = 16 := rfl
  have sregionBytes : sregionSize = 1024 := rfl
  unfold SlabBlock.span Sregion.span
  rw [Span.within_mk, pslab, sregionBytes]
  omega

/-- The header of a block whose sregion is one of the carved ones is within the sregion. -/
theorem SlabsOk.header (ok : SlabsOk w₀ h arena slabs cs ss) {b : SlabBlock} (member : b ∈ slabs)
    {x : Nat} (lower : b.addr - 16 ≤ x) (upper : x < b.addr) :
    (h.sregions b.sregion).paddr + 8 ≤ x ∧ x < (h.sregions b.sregion).ptail ∧
      (h.sregions b.sregion).ptail ≤ (h.sregions b.sregion).paddr + 1024 := by
  obtain ⟨inSs, filled⟩ := ok.placed b member
  have above := filled.lower
  have ends := filled.upper
  have below := (ok.filled _ inSs).below
  omega

/-- A byte of an sregion is in one chunk, behind the chunk's header and before its tail. -/
theorem SregionFilled.byte {r x : Nat} (filled : SregionFilled h cs slabs r)
    (lower : (h.sregions r).paddr ≤ x) (upper : x < (h.sregions r).paddr + 1024) :
    ∃ c ∈ cs, (h.chunks c).paddr + 8 ≤ x ∧ x < (h.chunks c).tail := by
  obtain ⟨c, inCs, above, below⟩ := filled.inside
  exact ⟨c, inCs, by omega, by omega⟩

/-- An sregion keeps its place and its slabs while its chunk stays where it is and bumps its
tail. -/
theorem SregionFilled.kept {cs' : List Nat} {slabs' : List SlabBlock} {r : Nat}
    (filled : SregionFilled h cs slabs r) (same : h'.sregions r = h.sregions r)
    (count : slabCount slabs' r = slabCount slabs r)
    (bumped : ∀ c ∈ cs, c ∈ cs' ∧ (h'.chunks c).paddr = (h.chunks c).paddr ∧
      (h.chunks c).tail ≤ (h'.chunks c).tail) : SregionFilled h' cs' slabs' r where
  inside := by
    obtain ⟨c, inCs, above, below⟩ := filled.inside
    obtain ⟨inCs', paddr, tail⟩ := bumped c inCs
    rw [same]
    exact ⟨c, inCs', by rw [paddr]; exact above, Nat.le_trans below tail⟩
  aligned := by
    rw [same]
    exact filled.aligned
  isClass := by
    rw [same]
    exact filled.isClass
  filled := by
    rw [same, count]
    exact filled.filled
  below := by
    rw [same]
    exact filled.below

/-- The invariant says what is claimed of the run. -/
theorem SlabsOk.laidOut {s : SlabRun} (ok : SlabsOk w₀ s.heap s.arena s.slabs cs ss)
    (carved : ∀ r, r ∈ ss ↔ IsCarved w₀ s.heap r) : s.LaidOut w₀ := by
  have isChunk : ∀ c, c ∈ cs ↔ ⟨c, .chunk⟩ ∈ s.heap.blocks ∧ ⟨c, .chunk⟩ ∉ w₀.blocks := by
    simpa using ok.chunks.out.new
  have pchunk : sizeofPchunk = 8 := rfl
  have sregionBytes : sregionSize = 1024 := rfl
  constructor
  case distinct => exact ok.distinct
  case chunk =>
    intro c isBlock new
    obtain ⟨isSlab, ⟨isBase, headed, ends⟩, _⟩ := ok.bumped c ((isChunk c).mpr ⟨isBlock, new⟩)
    exact ⟨isSlab, by omega, isBase.ends, by omega⟩
  case inside =>
    intro r isCarved
    obtain ⟨c, inCs, above, below⟩ := (ok.filled r ((carved r).mpr isCarved)).inside
    obtain ⟨_, ⟨_, _, ends⟩, _⟩ := ok.bumped c inCs
    obtain ⟨isBlock, new⟩ := (isChunk c).mp inCs
    refine ⟨c, isBlock, new, ?_⟩
    rw [Sregion.span, Span.within_mk, pchunk, sregionBytes]
    omega
  case apart =>
    intro r r' isCarved isCarved' different
    exact ok.apart r ((carved r).mpr isCarved) r' ((carved r').mpr isCarved') different
  case oneClass =>
    intro r isCarved
    obtain ⟨cls, isClass, size⟩ := (ok.filled r ((carved r).mpr isCarved)).isClass
    refine ⟨cls, isClass, size, ?_, ?_⟩
    · rintro b member rfl
      have filled := (ok.placed b member).2
      exact classToSize_inj (sizeToClass_spec filled.small).1 isClass (filled.size.symm.trans size)
    · rintro other isOther rfl
      have open' : s.arena.availSregion other ≠ 0 := (s.heap.placed.nonnull _ isCarved.1)
      exact classToSize_inj isOther isClass ((ok.opened other isOther open').2.symm.trans size)
  case opened =>
    intro cls isClass nonnull
    obtain ⟨inSs, size⟩ := ok.opened cls isClass nonnull
    have filled := ok.filled _ inSs
    have ptail := filled.filled
    rw [size] at ptail
    exact ⟨(carved _).mp inSs, ptail, filled.below⟩
  case placed =>
    intro b member
    obtain ⟨inSs, filled⟩ := ok.placed b member
    have lower := filled.lower
    have clean : b.addr - sizeofPslab + 8 = b.addr - 8 := by
      change b.addr - 16 + 8 = b.addr - 8
      omega
    refine ⟨(carved _).mp inSs, filled.aligned, by change 16 ≤ b.addr; omega, filled.ptr, ?_,
      (sizeToClass_spec filled.small).2.1, filled.within (ok.filled _ inSs).below⟩
    rw [clean]
    exact filled.clean

/-! ## Carving -/

/-- A block that was just carved is at the tail of its sregion. -/
theorem SlabBlock.span_eq (b : SlabBlock) {tail : Nat} (addr : b.addr = tail + 16) :
    b.span = ⟨tail, 16 + classToSize b.cls⟩ := by
  have pslab : sizeofPslab = 16 := rfl
  rw [SlabBlock.span, addr, pslab]
  simp

/-- What a `pslab_t` written at `tail` holds. -/
theorem pslab_written (pmem : Memory) (tail : Nat) {ptr : Nat} (word : ptr < 2 ^ 64) :
    ((pmem.storeWord tail 8 ptr).storeWord (tail + 8) 1 slabClean.toNat).loadWord tail 8 = ptr ∧
      (pmem.storeWord tail 8 ptr).storeWord (tail + 8) 1 slabClean.toNat (tail + 8) = slabClean ∧
      ∀ x, x < tail ∨ tail + 9 ≤ x →
        (pmem.storeWord tail 8 ptr).storeWord (tail + 8) 1 slabClean.toNat x = pmem x := by
  refine ⟨?_, ?_, ?_⟩
  · rw [Memory.loadWord_storeWord_outside _ (by omega), Memory.loadWord_storeWord]
    exact Nat.mod_eq_of_lt word
  · rw [Memory.storeWord_first]
    rfl
  · intro x outside
    rw [Memory.storeWord_outside _ (by omega), Memory.storeWord_outside _ (by omega)]

/-- A new block counts for its own sregion. -/
theorem slabCount_cons (b : SlabBlock) (slabs : List SlabBlock) (r : Nat) :
    slabCount (b :: slabs) r = slabCount slabs r + if b.sregion = r then 1 else 0 := by
  simp [slabCount, List.countP_cons]

/-- A new object that is not a chunk changes nothing. -/
theorem SlabsOk.newBlock {w : World} {object : Object} {p : Nat}
    (ok : SlabsOk w₀ h arena slabs cs ss) (new : NewBlock h.toWorld w object p)
    (other : object ≠ .chunk) : SlabsOk w₀ { h with toWorld := w } arena slabs cs ss where
  chunks := ok.chunks.of_same (SameChunks.newBlock new other) rfl rfl rfl
  bumped := ok.bumped
  isSregion r member := (SameChunks.newBlock new other).old _ (ok.isSregion r member)
  filled r member := (ok.filled r member).kept rfl rfl fun _ inCs => ⟨inCs, rfl, Nat.le_refl _⟩
  apart := ok.apart
  opened := ok.opened
  placed b member := by
    obtain ⟨inSs, filled⟩ := ok.placed b member
    exact ⟨inSs, filled.kept rfl rfl (Nat.le_refl _) fun _ _ _ => rfl⟩
  distinct := ok.distinct

/-- A new chunk is clear of all slabs. -/
theorem SlabsOk.allocate {addr : Nat} (ok : SlabsOk w₀ h arena slabs cs ss)
    (allocated : ChunkAllocated h h' arena arena' .slab c addr) :
    SlabsOk w₀ h' arena' slabs (c :: cs) ss ∧ sregionSize ≤ (h'.chunks c).availsize := by
  have chunks := ok.chunks.allocSlab allocated
  obtain ⟨garbage, fields, _⟩ := allocated.chunks
  obtain ⟨paddr, others⟩ := newChunk_paddr fields
  have distinct := chunks.out.distinct
  have absent : c ∉ cs := (List.nodup_cons.mp distinct).1
  have old : ∀ d ∈ cs, h'.chunks d = h.chunks d := by
    intro d member
    rw [fields, Function.update_of_ne (by rintro rfl; exact absent member)]
  have isBase : IsBase addr chunksize := by
    rw [← paddr]
    exact (chunks.out.chunk (c := c) (by simp)).1
  obtain ⟨bumped, room⟩ := newChunk_bumped isBase garbage arena.ind .slab true
  have self : h'.chunks c = newChunk garbage addr arena.ind .slab true := by
    rw [fields, Function.update_self]
  have tail : (h'.chunks c).tail = addr + 8 ∧ (h'.chunks c).availsize = chunksize - 8 := by
    rw [self]
    simpa [Chunk.room] using room
  -- The header of the new chunk is not in a chunk that holds slabs.
  have clear : ∀ d ∈ cs, (chunkSpan (h.chunks d).paddr).Apart (chunkSpan addr) := by
    intro d member
    refine chunkSpan_apart (ok.bumped d member).2.1.isBase.aligned isBase.aligned ?_
    intro same
    have both : (h'.chunks d).paddr = (h'.chunks c).paddr := by rw [old d member, same, paddr]
    have equal := chunks.out.paddr_inj (by simp [member]) (by simp) both
    exact absent (equal ▸ member)
  refine ⟨?_, by rw [tail.2, chunksize_eq]; decide⟩
  constructor
  case chunks => exact chunks
  case distinct => exact ok.distinct
  case bumped =>
    intro d member
    rcases List.mem_cons.mp member with rfl | inCs
    · refine ⟨by rw [self]; rfl, by rw [self]; exact bumped, ?_⟩
      have aligned := isBase.aligned
      rw [chunksize_eq] at aligned
      rw [tail.1]
      omega
    · rw [old d inCs]
      exact ok.bumped d inCs
  case isSregion =>
    intro r member
    rw [(chunkTaken_objects allocated.pool).1]
    exact List.mem_cons_of_mem _ (ok.isSregion r member)
  case filled =>
    intro r member
    apply (ok.filled r member).kept (by rw [allocated.sregions]) rfl
    intro d inCs
    rw [old d inCs]
    exact ⟨List.mem_cons_of_mem _ inCs, rfl, Nat.le_refl _⟩
  case apart =>
    rw [allocated.sregions]
    exact ok.apart
  case opened =>
    rw [allocated.sregions, allocated.availSregion]
    exact ok.opened
  case placed =>
    intro b member
    obtain ⟨inSs, filled⟩ := ok.placed b member
    have same : h'.sregions = h.sregions := allocated.sregions
    refine ⟨inSs, filled.kept (by rw [same]) (by rw [same]) (by rw [same]) ?_⟩
    intro x lower upper
    obtain ⟨above, below, limit⟩ := ok.header member lower upper
    obtain ⟨d, inCs, above', below'⟩ := (ok.filled _ inSs).byte (x := x) (by omega) (by omega)
    have apart := clear d inCs
    obtain ⟨_, ⟨_, _, ends⟩, _⟩ := ok.bumped d inCs
    rw [chunkSpan, chunkSpan, Span.apart_mk] at apart
    have pchunk : sizeofPchunk = 8 := rfl
    rw [chunksize_eq] at apart ends
    rw [allocated.pmem, pchunk]
    exact Memory.storeWord_outside _ (by omega)

/-- An sregion ends a chunk before the end of the address space. -/
theorem SlabsOk.wordEnd {r : Nat} (ok : SlabsOk w₀ h arena slabs cs ss) (member : r ∈ ss) :
    (h.sregions r).paddr + sregionSize + chunksize ≤ 2 ^ 64 := by
  obtain ⟨d, inCs, above, below⟩ := (ok.filled r member).inside
  obtain ⟨_, ⟨isBase, _, ends⟩, _⟩ := ok.bumped d inCs
  have word := isBase.ends
  have aligned := isBase.aligned
  have sregionBytes : sregionSize = 1024 := rfl
  rw [chunksize_eq] at *
  rw [sregionBytes]
  omega

/-- An older block is in front of the tail of an sregion, or in another sregion. -/
theorem SlabsOk.tail_clear {r : Nat} {b : SlabBlock} (ok : SlabsOk w₀ h arena slabs cs ss)
    (inSs : r ∈ ss) (member : b ∈ slabs) :
    b.addr + classToSize b.cls ≤ (h.sregions r).ptail ∨
      (h.sregions r).paddr + 1024 + 16 ≤ b.addr ∨
      b.addr + classToSize b.cls ≤ (h.sregions r).paddr := by
  obtain ⟨inSs', filled⟩ := ok.placed b member
  have lower := filled.lower
  have upper := filled.upper
  have below := (ok.filled _ inSs').below
  have sregionBytes : sregionSize = 1024 := rfl
  by_cases same : b.sregion = r
  · rw [same] at upper
    exact .inl upper
  · have apart := ok.apart _ inSs' r inSs same
    rw [Sregion.span, Sregion.span, Span.apart_mk, sregionBytes] at apart
    omega

/-- One more slab at the tail of an sregion. -/
theorem SregionFilled.carve {r : Nat} {b : SlabBlock} (filled : SregionFilled h cs slabs r)
    (here : b.sregion = r) (chunks : h'.chunks = h.chunks)
    (self : h'.sregions r = { h.sregions r with
      ptail := (h.sregions r).ptail + 16 + (h.sregions r).size })
    (fits : (h.sregions r).ptail + 16 + (h.sregions r).size ≤ (h.sregions r).paddr + 1024) :
    SregionFilled h' cs (b :: slabs) r where
  inside := by
    rw [chunks, self]
    exact filled.inside
  aligned := by
    rw [self]
    exact filled.aligned
  isClass := by
    rw [self]
    exact filled.isClass
  filled := by
    have before := filled.filled
    rw [slabCount_cons, if_pos here, Nat.add_mul, self]
    change (h.sregions r).ptail + 16 + (h.sregions r).size = (h.sregions r).paddr + 8 +
      (slabCount slabs r * (16 + (h.sregions r).size) + 1 * (16 + (h.sregions r).size))
    omega
  below := by
    rw [self]
    exact fits

/-- The tail of an sregion is behind its header. -/
theorem SregionFilled.headed {r : Nat} (filled : SregionFilled h cs slabs r) :
    (h.sregions r).paddr + 8 ≤ (h.sregions r).ptail := by
  rw [filled.filled]
  exact Nat.le_add_right _ _

/-- The tail of an sregion is at a word. -/
theorem SregionFilled.ptail_aligned {r : Nat} (filled : SregionFilled h cs slabs r) :
    (h.sregions r).ptail % 8 = 0 := by
  obtain ⟨cls, isClass, size⟩ := filled.isClass
  have stride := (classToSize_bounds isClass).1
  have aligned := filled.aligned
  have positions := filled.filled
  have whole : slabCount slabs r * (16 + (h.sregions r).size) % 8 = 0 := by
    rw [Nat.mul_mod, size]
    have words : (16 + classToSize cls) % 8 = 0 := by omega
    rw [words, Nat.mul_zero]
  omega

/-- **The next slab.** It starts at the tail of the open sregion of its class. -/
theorem SlabsOk.carveSlab {r size ptr cls : Nat} (ok : SlabsOk w₀ h arena slabs cs ss)
    (small : size < arenaMaxsmall) (word : ptr < 2 ^ 64) (cls_eq : cls = sizeToClass size)
    (isOpen : arena.availSregion cls = r) (nonnull : r ≠ 0)
    (carved : SlabCarved h h' r (classToSize cls) ptr)
    (fits : (h.sregions r).ptail + 16 + classToSize cls ≤ (h.sregions r).paddr + 1024) :
    SlabsOk w₀ h' arena (⟨(h.sregions r).ptail + 16, size, ptr, r⟩ :: slabs) cs ss := by
  obtain ⟨isClass, _, bound⟩ := sizeToClass_spec small
  rw [← cls_eq] at isClass bound
  obtain ⟨inSs, sameSize⟩ := ok.opened cls isClass (isOpen ▸ nonnull)
  rw [isOpen] at inSs sameSize
  have filled := ok.filled r inSs
  have headed := filled.headed
  obtain ⟨made, pmem⟩ := carved.fields filled.below (ok.wordEnd inSs) bound
  have self : h'.sregions r = { h.sregions r with
      ptail := (h.sregions r).ptail + 16 + classToSize cls } := by
    rw [made, Function.update_self]
  have others : ∀ x, x ≠ r → h'.sregions x = h.sregions x := by
    intro x other
    rw [made, Function.update_of_ne other]
  -- All that changes of an sregion is the tail of this one, which moves on.
  have kept : ∀ x, (h'.sregions x).size = (h.sregions x).size ∧
      (h'.sregions x).paddr = (h.sregions x).paddr ∧
      (h.sregions x).ptail ≤ (h'.sregions x).ptail := by
    intro x
    by_cases same : x = r
    · subst same
      rw [self]
      exact ⟨rfl, rfl, by rw [Nat.add_assoc]; exact Nat.le_add_right _ _⟩
    · rw [others x same]
      exact ⟨rfl, rfl, Nat.le_refl _⟩
  obtain ⟨loaded, clean, outside⟩ := pslab_written h.pmem (h.sregions r).ptail word
  rw [← pmem] at loaded clean outside
  constructor
  case chunks => exact ok.chunks.of_same carved.sameChunks rfl rfl rfl
  case bumped =>
    rw [carved.chunks]
    exact ok.bumped
  case isSregion =>
    rw [carved.world]
    exact ok.isSregion
  case filled =>
    intro x member
    by_cases same : x = r
    · subst same
      apply filled.carve rfl carved.chunks
      · rw [self, sameSize]
      · rw [sameSize]
        exact fits
    · apply (ok.filled x member).kept (others x same)
      · rw [slabCount_cons, if_neg (Ne.symm same), Nat.add_zero]
      · intro c inCs
        rw [carved.chunks]
        exact ⟨inCs, rfl, Nat.le_refl _⟩
  case apart =>
    intro x member x' member' different
    rw [Sregion.span, Sregion.span, (kept x).2.1, (kept x').2.1]
    exact ok.apart x member x' member' different
  case opened =>
    intro other isOther opened
    obtain ⟨inSs', size'⟩ := ok.opened other isOther opened
    exact ⟨inSs', (kept _).1.trans size'⟩
  case placed =>
    intro b member
    rcases List.mem_cons.mp member with rfl | isOld
    · refine ⟨inSs, small, ?_, ?_, ?_, ?_, loaded, clean⟩
      · rw [(kept r).1, sameSize, cls_eq]
        rfl
      · change (h'.sregions r).paddr + 24 ≤ (h.sregions r).ptail + 16
        rw [(kept r).2.1]
        omega
      · change (h.sregions r).ptail + 16 + classToSize (sizeToClass size) ≤ (h'.sregions r).ptail
        rw [self, ← cls_eq]
      · have aligned := filled.ptail_aligned
        change ((h.sregions r).ptail + 16) % 8 = 0
        omega
    · obtain ⟨inSs', filled'⟩ := ok.placed b isOld
      obtain ⟨size', paddr', ptail'⟩ := kept b.sregion
      refine ⟨inSs', filled'.kept size' paddr' ptail' fun x lower upper => outside x ?_⟩
      rcases ok.tail_clear inSs isOld with before | behind | below
      · omega
      · omega
      · omega
  case distinct =>
    refine List.pairwise_cons.mpr ⟨?_, ok.distinct⟩
    intro b isOld
    have lower := (ok.placed b isOld).2.lower
    have pslab : sizeofPslab = 16 := rfl
    have newSpan : (⟨(h.sregions r).ptail + 16, size, ptr, r⟩ : SlabBlock).span =
        ⟨(h.sregions r).ptail, 16 + classToSize cls⟩ := by
      rw [cls_eq]
      exact SlabBlock.span_eq _ rfl
    rw [newSpan, SlabBlock.span, Span.apart_mk, pslab]
    rcases ok.tail_clear inSs isOld with before | behind | below
    · omega
    · omega
    · omega

/-- A new sregion with its header, before its first slab. -/
structure SregionOpened (h h' : Heap) (c r size : Nat) : Prop where
  world : h'.toWorld = h.toWorld
  chunks : h'.chunks = Function.update h.chunks c { h.chunks c with
    tail := szAdd (h.chunks c).tail sregionSize
    availsize := szSub (h.chunks c).availsize sregionSize }
  sregions : h'.sregions = Function.update h.sregions r
    ⟨size, (h.chunks c).tail, szAdd (h.chunks c).tail sizeofPsregion⟩
  availLink : h'.availLink = h.availLink
  pmem : h'.pmem = h.pmem.storeWord (h.chunks c).tail sizeofPsregion r

/-- The slab `arena_malloc_small_hard` places first is the one `arena_malloc_small_easy` would
carve out of the new sregion. -/
theorem SregionCarved.split {r size ptr : Nat} (carved : SregionCarved h h' c r size ptr)
    (isSregion : ⟨r, .sregion⟩ ∈ h.blocks) :
    ∃ h₁, SregionOpened h h₁ c r size ∧ SlabCarved h₁ h' r size ptr := by
  refine ⟨{ h with
    chunks := Function.update h.chunks c { h.chunks c with
      tail := szAdd (h.chunks c).tail sregionSize
      availsize := szSub (h.chunks c).availsize sregionSize }
    sregions := Function.update h.sregions r
      ⟨size, (h.chunks c).tail, szAdd (h.chunks c).tail sizeofPsregion⟩
    pmem := h.pmem.storeWord (h.chunks c).tail sizeofPsregion r },
    ⟨rfl, rfl, rfl, rfl, rfl⟩, isSregion, carved.world, carved.chunks, ?_, carved.regions,
    carved.availLink, carved.regionsLink, carved.tpool, ?_⟩
  · simp only [Function.update_idem, Function.update_self]
    exact carved.sregions
  · simp only [Function.update_self]
    exact carved.pmem

/-- The room of a chunk is clear of every sregion. -/
theorem SlabsOk.room_clear (ok : SlabsOk w₀ h arena slabs cs ss) (inCs : c ∈ cs)
    (fits : sregionSize ≤ (h.chunks c).availsize) {r : Nat} (member : r ∈ ss) :
    (h.sregions r).paddr + 1024 ≤ (h.chunks c).tail ∨
      (h.chunks c).tail + 1024 ≤ (h.sregions r).paddr := by
  obtain ⟨d, inCs', above, below⟩ := (ok.filled r member).inside
  obtain ⟨_, ⟨isBase, headed, ends⟩, _⟩ := ok.bumped c inCs
  obtain ⟨_, ⟨isBase', headed', ends'⟩, _⟩ := ok.bumped d inCs'
  have sregionBytes : sregionSize = 1024 := rfl
  have pchunk : sizeofPchunk = 8 := rfl
  rw [sregionBytes] at fits
  rw [pchunk] at headed
  by_cases same : d = c
  · subst same
    exact .inl below
  · have different : (h.chunks d).paddr ≠ (h.chunks c).paddr := fun equal =>
      same (ok.chunks.out.paddr_inj inCs' inCs equal)
    have apart := chunkSpan_apart isBase'.aligned isBase.aligned different
    rw [chunkSpan, chunkSpan, Span.apart_mk] at apart
    omega

/-- No block is in an sregion that was not carved. -/
theorem SlabsOk.slabCount_eq_zero {r : Nat} (ok : SlabsOk w₀ h arena slabs cs ss)
    (absent : r ∉ ss) : slabCount slabs r = 0 := by
  rw [slabCount, List.countP_eq_zero]
  intro b member here
  have same : b.sregion = r := of_decide_eq_true here
  exact absent (same ▸ (ok.placed b member).1)

/-- What an opening writes: the descriptor, and the room of the chunk. -/
theorem SregionOpened.fields {r size : Nat} (opened : SregionOpened h h' c r size)
    (bumped : (h.chunks c).Bumped) (fits : sregionSize ≤ (h.chunks c).availsize) :
    h'.sregions r = ⟨size, (h.chunks c).tail, (h.chunks c).tail + 8⟩ ∧
      (∀ x, x ≠ r → h'.sregions x = h.sregions x) ∧
      h'.chunks c = { h.chunks c with
        tail := (h.chunks c).tail + 1024
        availsize := (h.chunks c).availsize - 1024 } ∧
      ∀ d, d ≠ c → h'.chunks d = h.chunks d := by
  obtain ⟨header, tail, avail⟩ := bumped.sums fits
  have chunks := opened.chunks
  have sregions := opened.sregions
  rw [tail, avail] at chunks
  rw [header] at sregions
  refine ⟨?_, ?_, ?_, ?_⟩
  · rw [sregions, Function.update_self]
  · intro x other
    rw [sregions, Function.update_of_ne other]
  · rw [chunks, Function.update_self]
  · intro d other
    rw [chunks, Function.update_of_ne other]

/-- The new sregion is empty, behind its header. -/
theorem SlabsOk.filled_opened {r cls : Nat} (ok : SlabsOk w₀ h arena slabs cs ss) (inCs : c ∈ cs)
    (isClass : cls < classNum) (fresh : r ∉ ss)
    (self : h'.sregions r = ⟨classToSize cls, (h.chunks c).tail, (h.chunks c).tail + 8⟩)
    (paddr : (h'.chunks c).paddr = (h.chunks c).paddr)
    (tail : (h'.chunks c).tail = (h.chunks c).tail + 1024) : SregionFilled h' cs slabs r := by
  obtain ⟨_, bumped, aligned⟩ := ok.bumped c inCs
  have none := ok.slabCount_eq_zero fresh
  refine ⟨⟨c, inCs, ?_⟩, ?_, ⟨cls, isClass, ?_⟩, ?_, ?_⟩
  · rw [self, paddr, tail]
    exact ⟨bumped.headed, Nat.le_refl _⟩
  · rw [self]
    exact aligned
  · rw [self]
  · rw [self, none, Nat.zero_mul]
  · rw [self]
    exact Nat.add_le_add_left (by decide) _

/-- **A new sregion.** It takes the front of a chunk's room and becomes the open one of its
class. -/
theorem SlabsOk.openSregion {r cls : Nat} (ok : SlabsOk w₀ h arena slabs cs ss) (inCs : c ∈ cs)
    (fits : sregionSize ≤ (h.chunks c).availsize) (isClass : cls < classNum)
    (fresh : r ∉ ss) (isSregion : ⟨r, .sregion⟩ ∈ h.blocks)
    (opened : SregionOpened h h' c r (classToSize cls)) :
    SlabsOk w₀ h' { arena with availSregion := Function.update arena.availSregion cls r } slabs
        cs (r :: ss) ∧
      (h'.sregions r).ptail = (h'.sregions r).paddr + 8 := by
  have clear := fun x member => ok.room_clear inCs fits (r := x) member
  obtain ⟨isSlab, bumped, aligned⟩ := ok.bumped c inCs
  have psregion : sizeofPsregion = 8 := rfl
  obtain ⟨self, otherSregions, selfChunk, otherChunks⟩ := opened.fields bumped fits
  have others : ∀ x ∈ ss, h'.sregions x = h.sregions x := fun x member =>
    otherSregions x (by rintro rfl; exact fresh member)
  have selfPaddr : (h'.chunks c).paddr = (h.chunks c).paddr := by rw [selfChunk]
  have selfTail : (h'.chunks c).tail = (h.chunks c).tail + 1024 := by rw [selfChunk]
  have selfAvail : (h'.chunks c).availsize = (h.chunks c).availsize - 1024 := by rw [selfChunk]
  have selfType : (h'.chunks c).chunktype = (h.chunks c).chunktype := by rw [selfChunk]
  have sameChunks : SameChunks h h' := .of_update opened.world opened.chunks rfl opened.availLink
  refine ⟨?_, by rw [self]⟩
  constructor
  case chunks => exact ok.chunks.of_same sameChunks rfl rfl rfl
  case distinct => exact ok.distinct
  case bumped =>
    intro d member
    by_cases same : d = c
    · subst same
      refine ⟨selfType.trans isSlab, bumped.take fits selfPaddr selfTail selfAvail, ?_⟩
      rw [selfTail]
      omega
    · rw [otherChunks d same]
      exact ok.bumped d member
  case isSregion =>
    intro x member
    rw [opened.world]
    rcases List.mem_cons.mp member with rfl | old
    · exact isSregion
    · exact ok.isSregion x old
  case filled =>
    intro x member
    rcases List.mem_cons.mp member with rfl | old
    · exact ok.filled_opened inCs isClass fresh self selfPaddr selfTail
    · apply (ok.filled x old).kept (others x old) rfl
      intro d inCs'
      by_cases here : d = c
      · subst here
        exact ⟨inCs', selfPaddr, by rw [selfTail]; exact Nat.le_add_right _ _⟩
      · rw [otherChunks d here]
        exact ⟨inCs', rfl, Nat.le_refl _⟩
  case apart =>
    intro x member x' member' different
    rcases List.mem_cons.mp member with rfl | old
    · rcases List.mem_cons.mp member' with rfl | old'
      · exact absurd rfl different
      · rw [others x' old', self]
        exact (clear x' old').symm
    · rcases List.mem_cons.mp member' with rfl | old'
      · rw [others x old, self]
        exact clear x old
      · rw [others x old, others x' old']
        exact ok.apart x old x' old' different
  case opened =>
    intro other isOther
    change Function.update arena.availSregion cls r other ≠ 0 →
      Function.update arena.availSregion cls r other ∈ r :: ss ∧
        (h'.sregions (Function.update arena.availSregion cls r other)).size = classToSize other
    by_cases same : other = cls
    · subst same
      rw [Function.update_self, self]
      exact fun _ => ⟨List.mem_cons_self, rfl⟩
    · rw [Function.update_of_ne same]
      intro nonnull
      obtain ⟨old, size⟩ := ok.opened other isOther nonnull
      exact ⟨List.mem_cons_of_mem _ old, by rw [others _ old]; exact size⟩
  case placed =>
    intro b member
    obtain ⟨old, filled⟩ := ok.placed b member
    have same := others _ old
    refine ⟨List.mem_cons_of_mem _ old, filled.kept (by rw [same]) (by rw [same]) (by rw [same]) ?_⟩
    intro x lower upper
    have byte := ok.header member lower upper
    have apart := clear _ old
    rw [opened.pmem, psregion]
    exact Memory.storeWord_outside _ (by omega)

/-! ## The run -/

/-- The chunk an sregion is carved out of is one of the slab chunks and has the room. -/
theorem SlabsOk.sregionChunk (ok : SlabsOk w₀ h arena slabs cs ss)
    (chosen : sregionChunk h arena = .ok (c, h', arena')) :
    ∃ cs', SlabsOk w₀ h' arena' slabs cs' ss ∧ c ∈ cs' ∧ sregionSize ≤ (h'.chunks c).availsize ∧
      ∀ b : Block, b.object ≠ .chunk → (b ∈ h'.blocks ↔ b ∈ h.blocks) := by
  rcases sregionChunk_effect chosen with
    ⟨rfl, rfl, rfl, nonnull, _, room, _⟩ | ⟨addr, allocated⟩
  · exact ⟨cs, ok, ok.chunks.slabRing.first_mem nonnull, room, fun _ _ => Iff.rfl⟩
  · obtain ⟨kept, room⟩ := ok.allocate allocated
    exact ⟨c :: cs, kept, List.mem_cons_self, room, fun _ other => allocated.mem_blocks other⟩

/-- `arena_malloc_small` places one more block, in an sregion there was or in a new one. -/
theorem SlabsOk.mallocSmall {size ptr ret : Nat} (ok : SlabsOk w₀ h arena slabs cs ss)
    (small : size < arenaMaxsmall) (word : ptr < 2 ^ 64)
    (allocated : arenaMallocSmall h arena size ptr = .ok (ret, h', arena')) :
    ∃ cs' ss', SlabsOk w₀ h' arena'
        (⟨ret, size, ptr, arena'.availSregion (sizeToClass size)⟩ :: slabs) cs' ss' ∧
      ∀ r, (r ∈ ss' ↔ r ∈ ss ∨ (⟨r, .sregion⟩ ∈ h'.blocks ∧ ⟨r, .sregion⟩ ∉ h.blocks)) ∧
        (⟨r, .sregion⟩ ∈ h.blocks → ⟨r, .sregion⟩ ∈ h'.blocks) := by
  obtain ⟨isClass, _, bound⟩ := sizeToClass_spec small
  rcases arenaMallocSmall_effect allocated with ⟨rfl, nonnull, carved, rfl, fits⟩ | hard
  · have inSs := (ok.opened _ isClass nonnull).1
    obtain ⟨start, ptail, limit, _⟩ := Sregion.sums (ok.filled _ inSs).below (ok.wordEnd inSs) bound
    rw [start, ptail, limit] at fits
    rw [start]
    refine ⟨cs, ss, ok.carveSlab small word rfl rfl nonnull carved fits, fun r => ?_⟩
    rw [carved.world]
    exact ⟨⟨.inl, fun here => here.elim id fun ⟨isNow, wasNot⟩ => absurd isNow wasNot⟩, id⟩
  · obtain ⟨sregion, w, c, h₁, arena₁, new, chosen, carved, rfl, rfl⟩ :=
      arenaMallocSmallHard_effect hard
    have fresh : sregion ∉ ss := fun old => new.fresh _ (ok.isSregion sregion old) rfl
    obtain ⟨cs', ok₁, inCs, fits, sameBlocks⟩ := (ok.newBlock new (by decide)).sregionChunk chosen
    have blocks : ∀ r, (⟨r, .sregion⟩ : Block) ∈ h₁.blocks ↔
        r = sregion ∨ ⟨r, .sregion⟩ ∈ h.blocks := by
      intro r
      rw [sameBlocks _ (by simp)]
      change _ ∈ w.blocks ↔ _
      rw [new.blocks, List.mem_cons, Block.mk.injEq]
      simp
    have isSregion := (blocks sregion).mpr (.inl rfl)
    -- The first slab of the new sregion is carved like any other.
    obtain ⟨h₂, opened, slab⟩ := carved.split isSregion
    obtain ⟨ok₂, atHeader⟩ := ok₁.openSregion inCs fits isClass fresh isSregion opened
    have self : h₂.sregions sregion = ⟨classToSize (sizeToClass size), (h₁.chunks c).tail,
        szAdd (h₁.chunks c).tail sizeofPsregion⟩ := by
      rw [opened.sregions, Function.update_self]
    have smallBytes : arenaMaxsmall = 224 := rfl
    have room : (h₂.sregions sregion).ptail + 16 + classToSize (sizeToClass size) ≤
        (h₂.sregions sregion).paddr + 1024 := by
      rw [smallBytes] at bound
      omega
    have kept := ok₂.carveSlab small word rfl (Function.update_self _ _ _) new.nonnull slab room
    obtain ⟨start, _⟩ := Sregion.sums (ok₂.filled _ List.mem_cons_self).below
      (ok₂.wordEnd List.mem_cons_self) bound
    rw [← start, self] at kept
    refine ⟨cs', sregion :: ss, ?_, fun r => ?_⟩
    · change SlabsOk w₀ h' _ (⟨_, size, ptr,
        Function.update arena₁.availSregion (sizeToClass size) sregion (sizeToClass size)⟩ :: slabs)
        cs' (sregion :: ss)
      rw [Function.update_self]
      exact kept
    · rw [carved.world, blocks, List.mem_cons]
      refine ⟨⟨?_, ?_⟩, .inr⟩
      · rintro (rfl | old)
        · exact .inr ⟨.inl rfl, fun isOld => new.fresh _ isOld rfl⟩
        · exact .inl old
      · rintro (old | ⟨rfl | isOld, wasNot⟩)
        · exact .inr old
        · exact .inl rfl
        · exact absurd isOld wasNot

/-- The invariant of a run. -/
def SlabRun.Inv (w₀ : World) (s : SlabRun) : Prop :=
  ∃ cs ss, SlabsOk w₀ s.heap s.arena s.slabs cs ss ∧ ∀ r, r ∈ ss ↔ IsCarved w₀ s.heap r

/-- Every call keeps the invariant. -/
theorem SlabRun.step_inv {s s' : SlabRun} {op : SlabOp} (inv : s.Inv w₀)
    (stepped : s.step op = .ok s') : s'.Inv w₀ := by
  obtain ⟨cs, ss, ok, carved⟩ := inv
  unfold SlabRun.step at stepped
  split at stepped
  · rename_i admitted
    obtain ⟨⟨ret, heap, arena⟩, allocated, stepped⟩ := Execution.bind_eq_ok.mp stepped
    cases stepped
    obtain ⟨cs', ss', kept, blocks⟩ := ok.mallocSmall admitted.2.1 admitted.2.2 allocated
    refine ⟨cs', ss', kept, fun r => ?_⟩
    rw [(blocks r).1, carved r]
    unfold IsCarved
    constructor
    · rintro (⟨isOld, new⟩ | ⟨isNow, wasNot⟩)
      · exact ⟨(blocks r).2 isOld, new⟩
      · exact ⟨isNow, fun before => wasNot (ok.chunks.out.old _ before)⟩
    · rintro ⟨isNow, new⟩
      by_cases isOld : (⟨r, .sregion⟩ : Block) ∈ s.heap.blocks
      · exact .inl ⟨isOld, new⟩
      · exact .inr ⟨isNow, isOld⟩
  · cases stepped

/-- A new arena has no sregions. -/
theorem arenaNew_slabs {ind : Nat} (made : arenaNew h arena ind = .ok (h', arena')) :
    SlabRun.Inv h.toWorld ⟨⟨h', arena'⟩, []⟩ := by
  obtain ⟨empty, _, blocks, _, closed⟩ := arenaNew_chunks made
  refine ⟨[], [], ⟨empty, by simp, by simp, by simp, by simp, ?_,
    by simp, List.Pairwise.nil⟩, fun r => ?_⟩
  · intro cls isClass opened
    exact absurd (closed cls isClass) opened
  · unfold IsCarved
    rw [blocks]
    simp

/-- **The layout of slabs.** In every state of every run of small requests the sregions are
apart and inside slab chunks, each class fills its own sregions without gaps, and every
block returned is aligned, in its sregion, behind its header and clear of the others. -/
theorem slabRun_laidOut {h : Heap} {arena : Arena} {ind : Nat} {ops : List SlabOp} {s : SlabRun}
    (reached : slabRun h arena ind ops = .ok s) : s.LaidOut h.toWorld := by
  obtain ⟨⟨h₁, arena₁⟩, made, ran⟩ := Execution.bind_eq_ok.mp reached
  have kept : ∀ (s : SlabRun) op s', s.Inv h.toWorld → s.step op = .ok s' →
      s'.Inv h.toWorld := fun _ _ _ inv stepped => SlabRun.step_inv inv stepped
  obtain ⟨cs, ss, ok, carved⟩ := Execution.run_kept kept (arenaNew_slabs made) ran
  exact ok.laidOut carved

/-- Two blocks of one class and one of another. -/
theorem slabRun_laidOut_of_three :
    ∃ s, slabRun (.fresh [chunksize] [1024, 2048, 3072]) .zeroed 0
        [⟨200, 7⟩, ⟨223, 8⟩, ⟨5, 9⟩] = .ok s ∧
      s.LaidOut (Heap.fresh [chunksize] [1024, 2048, 3072]).toWorld := by
  obtain ⟨s, reached⟩ : ∃ s, slabRun (.fresh [chunksize] [1024, 2048, 3072]) .zeroed 0
      [⟨200, 7⟩, ⟨223, 8⟩, ⟨5, 9⟩] = .ok s := Execution.exists_eq_ok (by decide +kernel)
  exact ⟨s, reached, slabRun_laidOut reached⟩

end Lsmalloc
