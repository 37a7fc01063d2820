import Lsmalloc.Arena.Model

/-!
# What the arena's functions do

One inversion for each building block of the arena: which fields of the heap a
completed call changed, and to what. The invariants of the arena are proved from
these alone, so none of them unfolds a function again.
-/

namespace Lsmalloc

variable {h h' : Heap} {arena arena' : Arena} {c region size ptr threadid : Nat}

/-! ## New objects -/

/-- `malloc` returned a new object; nothing else of the process changed. -/
structure NewBlock (w w' : World) (object : Object) (addr : Nat) : Prop where
  maps : w'.maps = w.maps
  blocks : w'.blocks = ⟨addr, object⟩ :: w.blocks
  nonnull : addr ≠ 0
  fresh : ∀ b ∈ w.blocks, b.addr ≠ addr

theorem malloc_newBlock {w w' : World} {object : Object} {addr : Nat}
    (allocated : malloc w object = .ok (addr, w')) : NewBlock w w' object addr := by
  obtain ⟨rest, contract, rfl⟩ := malloc_eq_ok allocated
  exact ⟨rfl, rfl, contract.nonnull, fun b member => contract.not_mem member⟩

/-! ## Chunks -/

/-- The descriptor of a new chunk, before its list fields. -/
def newChunk (garbage : Chunk) (addr ind : Nat) (chunktype : ChunkType) (live : Bool) : Chunk :=
  { garbage with
    paddr := addr
    tail := szAdd addr sizeofPchunk
    arena := ind
    gcing := false
    availsize := szSub chunksize sizeofPchunk
    dirtysize := 0
    chunktype := chunktype
    live := live }

/-- A chunk of the pool has a descriptor that its header points at. -/
structure ChunkCreated (h h' : Heap) (arena arena' : Arena) (chunktype : ChunkType)
    (live : Bool) (c addr : Nat) : Prop where
  pool : ∃ w, pmempoolChunkAlloc h.toWorld arena.pool = .ok (addr, w, arena'.pool) ∧
    NewBlock w h'.toWorld .chunk c
  others : arena' = { arena with pool := arena'.pool }
  pmem : h'.pmem = h.pmem.storeWord addr sizeofPchunk c
  chunks : h'.chunks =
    Function.update h.chunks c (newChunk (h.chunks c) addr arena.ind chunktype live)
  regions : h'.regions = h.regions
  sregions : h'.sregions = h.sregions
  availLink : h'.availLink = h.availLink
  regionsLink : h'.regionsLink = h.regionsLink
  tpool : h'.tpool = h.tpool

/-- A chunk taken from the pool for a new descriptor: the descriptor is the one new object. -/
theorem chunkTaken_objects {w w' : World} {pool pool' : Pmempool} {addr : Nat}
    (taken : ∃ w₁, pmempoolChunkAlloc w pool = .ok (addr, w₁, pool') ∧ NewBlock w₁ w' .chunk c) :
    w'.blocks = ⟨c, .chunk⟩ :: w.blocks ∧ (∀ b ∈ w.blocks, b.addr ≠ c) ∧ c ≠ 0 := by
  obtain ⟨w₁, allocated, new⟩ := taken
  have same := (pmempoolChunkAlloc_objects allocated).1
  rw [← same]
  exact ⟨new.blocks, new.fresh, new.nonnull⟩

theorem chunkCreate_effect {chunktype : ChunkType} {live : Bool}
    (created : chunkCreate h arena chunktype live = .ok (c, h', arena')) :
    ∃ addr, ChunkCreated h h' arena arena' chunktype live c addr := by
  obtain ⟨⟨addr, w, pool⟩, taken, created⟩ := Execution.bind_eq_ok.mp created
  obtain ⟨⟨chunk, w'⟩, allocated, created⟩ := Execution.bind_eq_ok.mp created
  obtain ⟨stored, headed, created⟩ := Execution.bind_eq_ok.mp created
  obtain ⟨_, rfl⟩ := storePmem_eq_ok.mp headed
  simp only [Except.ok.injEq, Prod.mk.injEq] at created
  obtain ⟨rfl, rfl, rfl⟩ := created
  exact ⟨addr, ⟨⟨w, taken, malloc_newBlock allocated⟩, rfl, rfl, rfl, rfl, rfl, rfl, rfl, rfl⟩⟩

/-- A log chunk has no regions and heads `avail_chunks`. -/
theorem chunkList_log (listed : chunkList h arena .log c = .ok (h', arena')) :
    h' = { h with
        chunks := Function.update h.chunks c { h.chunks c with regions := 0 }
        availLink := (qlHeadInsert (qrNew h.availLink c) arena.availChunks c).1 } ∧
      arena' = { arena with
        availChunks := (qlHeadInsert (qrNew h.availLink c) arena.availChunks c).2 } := by
  obtain ⟨⟨first, h₁⟩, inserted, listed⟩ := Execution.bind_eq_ok.mp listed
  obtain ⟨_, rfl, rfl⟩ := availHeadInsert_eq_ok.mp inserted
  cases listed
  exact ⟨rfl, rfl⟩

/-- A chunk of another type heads `avail_schunks`. -/
theorem chunkList_other {chunktype : ChunkType} (other : chunktype ≠ .log)
    (listed : chunkList h arena chunktype c = .ok (h', arena')) :
    h' = { h with availLink := (qlHeadInsert (qrNew h.availLink c) arena.availSchunks c).1 } ∧
      arena' = { arena with
        availSchunks := (qlHeadInsert (qrNew h.availLink c) arena.availSchunks c).2 } := by
  have same : chunkList h arena chunktype c = chunkList h arena .slab c := by
    cases chunktype with
    | log => exact absurd rfl other
    | slab | gc | other => rfl
  rw [same] at listed
  obtain ⟨⟨first, h₁⟩, inserted, listed⟩ := Execution.bind_eq_ok.mp listed
  obtain ⟨_, rfl, rfl⟩ := availHeadInsert_eq_ok.mp inserted
  cases listed
  exact ⟨rfl, rfl⟩

/-- `arena_chunk_alloc`: the new chunk heads the queue of its type. -/
structure ChunkAllocated (h h' : Heap) (arena arena' : Arena) (chunktype : ChunkType)
    (c addr : Nat) : Prop where
  pool : ∃ w, pmempoolChunkAlloc h.toWorld arena.pool = .ok (addr, w, arena'.pool) ∧
    NewBlock w h'.toWorld .chunk c
  pmem : h'.pmem = h.pmem.storeWord addr sizeofPchunk c
  chunks : ∃ garbage, h'.chunks =
      Function.update h.chunks c (newChunk garbage addr arena.ind chunktype true) ∧
    (chunktype = .log → garbage.regions = 0)
  regions : h'.regions = h.regions
  sregions : h'.sregions = h.sregions
  regionsLink : h'.regionsLink = h.regionsLink
  tpool : h'.tpool = maybeGc h.tpool arena.ind arena'.pool
  ind : arena'.ind = arena.ind
  availSregion : arena'.availSregion = arena.availSregion
  log : chunktype = .log → arena'.availSchunks = arena.availSchunks ∧
    h'.availLink = (qlHeadInsert (qrNew h.availLink c) arena.availChunks c).1 ∧
    arena'.availChunks = (qlHeadInsert (qrNew h.availLink c) arena.availChunks c).2
  slab : chunktype ≠ .log → arena'.availChunks = arena.availChunks ∧
    h'.availLink = (qlHeadInsert (qrNew h.availLink c) arena.availSchunks c).1 ∧
    arena'.availSchunks = (qlHeadInsert (qrNew h.availLink c) arena.availSchunks c).2

theorem arenaChunkAlloc_effect {chunktype : ChunkType}
    (allocated : arenaChunkAlloc h arena chunktype = .ok (c, h', arena')) :
    ∃ addr, ChunkAllocated h h' arena arena' chunktype c addr := by
  obtain ⟨⟨chunk, h₁, arena₁⟩, created, allocated⟩ := Execution.bind_eq_ok.mp allocated
  obtain ⟨⟨h₂, arena₂⟩, listed, allocated⟩ := Execution.bind_eq_ok.mp allocated
  simp only [Except.ok.injEq, Prod.mk.injEq] at allocated
  obtain ⟨rfl, rfl, rfl⟩ := allocated
  obtain ⟨addr, made⟩ := chunkCreate_effect created
  obtain ⟨pool, sameArena, pmem, chunks, regions, sregions, availLink, regionsLink, tpool⟩ := made
  have sameChunks : arena₁.availChunks = arena.availChunks := by rw [sameArena]
  have sameSchunks : arena₁.availSchunks = arena.availSchunks := by rw [sameArena]
  have sameInd : arena₁.ind = arena.ind := by rw [sameArena]
  have sameSregion : arena₁.availSregion = arena.availSregion := by rw [sameArena]
  refine ⟨addr, ?_⟩
  have quiet : maybeGc h₁.tpool arena₁.ind arena₁.pool = maybeGc h.tpool arena.ind arena₁.pool := by
    rw [tpool, sameInd]
  by_cases log : chunktype = .log
  · subst log
    obtain ⟨rfl, rfl⟩ := chunkList_log listed
    refine ⟨pool, pmem, ⟨{ h.chunks chunk with regions := 0 }, ?_, fun _ => rfl⟩, regions, sregions,
      regionsLink, quiet, sameInd, sameSregion, fun _ => ⟨sameSchunks, ?_, ?_⟩,
      fun other => absurd rfl other⟩
    · change Function.update h₁.chunks chunk { h₁.chunks chunk with regions := 0 } = _
      rw [chunks, Function.update_idem, Function.update_self]
      rfl
    · rw [← availLink, ← sameChunks]
    · rw [← availLink, ← sameChunks]
  · obtain ⟨rfl, rfl⟩ := chunkList_other log listed
    refine ⟨pool, pmem, ⟨h.chunks chunk, chunks, fun same => absurd same log⟩, regions, sregions,
      regionsLink, quiet, sameInd, sameSregion, fun same => absurd same log,
      fun _ => ⟨sameChunks, ?_, ?_⟩⟩
    · rw [← availLink, ← sameSchunks]
    · rw [← availLink, ← sameSchunks]

/-- Allocating a chunk adds no region and no sregion. -/
theorem ChunkAllocated.mem_blocks {chunktype : ChunkType} {addr : Nat}
    (allocated : ChunkAllocated h h' arena arena' chunktype c addr) {b : Block}
    (other : b.object ≠ .chunk) : b ∈ h'.blocks ↔ b ∈ h.blocks := by
  rw [(chunkTaken_objects allocated.pool).1, List.mem_cons]
  constructor
  · rintro (rfl | old)
    · exact absurd rfl other
    · exact old
  · exact .inr

/-! ## Regions -/

/-- The room test passed: the chunk is a descriptor of the type and has the room. -/
theorem chunkLacks_eq_false {chunktype : ChunkType}
    (fits : chunkLacks h c size chunktype = .ok false) :
    c ≠ 0 ∧ ⟨c, .chunk⟩ ∈ h.blocks ∧ size ≤ (h.chunks c).availsize ∧
      (h.chunks c).chunktype = chunktype := by
  unfold chunkLacks at fits
  split at fits
  · cases fits
  · obtain ⟨chunk, read, tested⟩ := Execution.bind_eq_ok.mp fits
    obtain ⟨⟨nonnull, isChunk⟩, rfl⟩ := getChunk_eq_ok.mp read
    simp only [Except.ok.injEq, Bool.or_eq_false_iff, decide_eq_false_iff_not, not_lt,
      not_not] at tested
    exact ⟨nonnull, isChunk, tested.1, tested.2⟩

/-- The room test failed: there is no chunk, no room in it, or it is of another type. -/
theorem chunkLacks_eq_true {chunktype : ChunkType}
    (lacks : chunkLacks h c size chunktype = .ok true) :
    c = 0 ∨ (h.chunks c).availsize < size ∨ (h.chunks c).chunktype ≠ chunktype := by
  unfold chunkLacks at lacks
  split at lacks
  · rename_i missing
    exact .inl missing
  · obtain ⟨chunk, read, tested⟩ := Execution.bind_eq_ok.mp lacks
    obtain ⟨_, rfl⟩ := getChunk_eq_ok.mp read
    simp only [Except.ok.injEq, Bool.or_eq_true, decide_eq_true_eq] at tested
    exact .inr tested

/-- The chunk to append to: the head, which has the room, or a new one once the head is retired. -/
theorem regionChunk_effect (chosen : regionChunk h arena size = .ok (c, h', arena')) :
    (h' = h ∧ arena' = arena ∧ c = arena.availChunks ∧ c ≠ 0 ∧ ⟨c, .chunk⟩ ∈ h.blocks ∧
        size ≤ (h.chunks c).availsize ∧ (h.chunks c).chunktype = .log) ∨
      (⟨arena.availChunks, .chunk⟩ ∈ h.blocks ∧
        ((h.chunks arena.availChunks).availsize < size ∨
          (h.chunks arena.availChunks).chunktype ≠ .log) ∧
        ∃ addr, ChunkAllocated
          (h.putChunk arena.availChunks { h.chunks arena.availChunks with live := false })
          h' arena arena' .log c addr) := by
  obtain ⟨lacks, tested, chosen⟩ := Execution.bind_eq_ok.mp chosen
  cases lacks with
  | false =>
      simp only [Bool.false_eq_true, if_false, Except.ok.injEq, Prod.mk.injEq] at chosen
      obtain ⟨rfl, rfl, rfl⟩ := chosen
      obtain ⟨nonnull, isChunk, room, type⟩ := chunkLacks_eq_false tested
      exact .inl ⟨rfl, rfl, rfl, nonnull, isChunk, room, type⟩
  | true =>
      simp only [if_true] at chosen
      obtain ⟨chunk, read, allocated⟩ := Execution.bind_eq_ok.mp chosen
      obtain ⟨⟨nonnull, isChunk⟩, rfl⟩ := getChunk_eq_ok.mp read
      rcases chunkLacks_eq_true tested with missing | why
      · exact absurd missing nonnull
      · exact .inr ⟨isChunk, why, arenaChunkAlloc_effect allocated⟩

/-- `region` was appended to the chunk and to its list. -/
structure RegionPlaced (h h' : Heap) (c region size ptr threadid : Nat) : Prop where
  isChunk : ⟨c, .chunk⟩ ∈ h.blocks
  world : h'.toWorld = h.toWorld
  mapped : Mapped h.maps ⟨(h.chunks c).tail, sizeofPregion⟩
  pmem : h'.pmem = h.pmem.storeWord (h.chunks c).tail sizeofPregion region
  chunks : h'.chunks = Function.update h.chunks c { h.chunks c with
    tail := szAdd (h.chunks c).tail size
    availsize := szSub (h.chunks c).availsize size
    regions := (qlTailInsert (qrNew h.regionsLink region) (h.chunks c).regions region).2 }
  regions : h'.regions =
    Function.update h.regions region ⟨.alive, threadid, size, ptr, (h.chunks c).tail, c⟩
  regionsLink : h'.regionsLink =
    (qlTailInsert (qrNew h.regionsLink region) (h.chunks c).regions region).1
  sregions : h'.sregions = h.sregions
  availLink : h'.availLink = h.availLink
  tpool : h'.tpool = h.tpool

theorem placeRegion_effect {paddr : Nat}
    (placed : placeRegion h c region size ptr threadid = .ok (paddr, h')) :
    paddr = (h.chunks c).tail ∧ RegionPlaced h h' c region size ptr threadid := by
  obtain ⟨⟨tail, h₁⟩, appended, placed⟩ := Execution.bind_eq_ok.mp placed
  obtain ⟨chunk, read, appended⟩ := Execution.bind_eq_ok.mp appended
  obtain ⟨⟨_, isChunk⟩, rfl⟩ := getChunk_eq_ok.mp read
  simp only [Except.ok.injEq, Prod.mk.injEq] at appended
  obtain ⟨rfl, rfl⟩ := appended
  obtain ⟨h₂, stored, placed⟩ := Execution.bind_eq_ok.mp placed
  obtain ⟨⟨_, mapped⟩, rfl⟩ := storePmem_eq_ok.mp stored
  obtain ⟨chunk, reread, placed⟩ := Execution.bind_eq_ok.mp placed
  obtain ⟨_, rfl⟩ := getChunk_eq_ok.mp reread
  obtain ⟨⟨first, h₃⟩, inserted, placed⟩ := Execution.bind_eq_ok.mp placed
  obtain ⟨_, rfl, rfl⟩ := regionsTailInsert_eq_ok.mp inserted
  simp only [Except.ok.injEq, Prod.mk.injEq] at placed
  obtain ⟨rfl, rfl⟩ := placed
  refine ⟨rfl, isChunk, rfl, mapped, rfl, ?_, rfl, ?_, rfl, rfl, rfl⟩
  · simp [Heap.putChunk, Heap.putRegion, Heap.regionsElmNew]
  · simp [Heap.putChunk, Heap.putRegion, Heap.regionsElmNew]

/-- The nodes the insertion of a placed region follows are regions. -/
theorem placeRegion_nodes {paddr : Nat}
    (placed : placeRegion h c region size ptr threadid = .ok (paddr, h')) :
    ∀ n ∈ qlInsertNodes (qrNew h.regionsLink region) (h.chunks c).regions,
      n ≠ 0 ∧ ⟨n, .region⟩ ∈ h.blocks := by
  obtain ⟨⟨tail, h₁⟩, appended, placed⟩ := Execution.bind_eq_ok.mp placed
  obtain ⟨chunk, read, appended⟩ := Execution.bind_eq_ok.mp appended
  obtain ⟨_, rfl⟩ := getChunk_eq_ok.mp read
  simp only [Except.ok.injEq, Prod.mk.injEq] at appended
  obtain ⟨rfl, rfl⟩ := appended
  obtain ⟨h₂, stored, placed⟩ := Execution.bind_eq_ok.mp placed
  obtain ⟨_, rfl⟩ := storePmem_eq_ok.mp stored
  obtain ⟨chunk, reread, placed⟩ := Execution.bind_eq_ok.mp placed
  obtain ⟨_, rfl⟩ := getChunk_eq_ok.mp reread
  obtain ⟨⟨first, h₃⟩, inserted, _⟩ := Execution.bind_eq_ok.mp placed
  obtain ⟨nodes, _, _⟩ := regionsTailInsert_eq_ok.mp inserted
  simpa [Heap.putChunk, Heap.putRegion, Heap.regionsElmNew] using nodes

/-- `arena_region_alloc`: a descriptor, a chunk for it, and its place there. -/
theorem arenaRegionAlloc_effect {ret : Nat}
    (allocated : arenaRegionAlloc h arena size ptr threadid = .ok (ret, h', arena')) :
    ∃ region w c h₁, NewBlock h.toWorld w .region region ∧
      regionChunk { h with toWorld := w } arena size = .ok (c, h₁, arena') ∧
      RegionPlaced h₁ h' c region size ptr threadid ∧
      ret = szAdd (h₁.chunks c).tail sizeofPregion := by
  obtain ⟨⟨region, w⟩, allocatedRegion, allocated⟩ := Execution.bind_eq_ok.mp allocated
  obtain ⟨⟨c, h₁, arena₁⟩, chosen, allocated⟩ := Execution.bind_eq_ok.mp allocated
  obtain ⟨⟨paddr, h₂⟩, placed, allocated⟩ := Execution.bind_eq_ok.mp allocated
  simp only [Except.ok.injEq, Prod.mk.injEq] at allocated
  obtain ⟨rfl, rfl, rfl⟩ := allocated
  obtain ⟨rfl, effect⟩ := placeRegion_effect placed
  exact ⟨region, w, c, h₁, malloc_newBlock allocatedRegion, chosen, effect, rfl⟩

/-- `arena_dalloc_large` marks the region and counts its size. -/
structure RegionFreed (h h' : Heap) (c region : Nat) : Prop where
  isChunk : ⟨c, .chunk⟩ ∈ h.blocks
  isRegion : ⟨region, .region⟩ ∈ h.blocks
  world : h'.toWorld = h.toWorld
  pmem : h'.pmem = h.pmem
  chunks : h'.chunks = Function.update h.chunks c { h.chunks c with
    dirtysize := szAdd (h.chunks c).dirtysize (h.regions region).size }
  regions : h'.regions =
    Function.update h.regions region { h.regions region with attr := .dirty }
  sregions : h'.sregions = h.sregions
  availLink : h'.availLink = h.availLink
  regionsLink : h'.regionsLink = h.regionsLink
  tpool : h'.tpool = h.tpool

theorem arenaDallocLarge_effect (freed : arenaDallocLarge h c region = .ok h') :
    RegionFreed h h' c region := by
  obtain ⟨r, read, freed⟩ := Execution.bind_eq_ok.mp freed
  obtain ⟨⟨_, isRegion⟩, rfl⟩ := getRegion_eq_ok.mp read
  obtain ⟨chunk, read, freed⟩ := Execution.bind_eq_ok.mp freed
  obtain ⟨⟨_, isChunk⟩, rfl⟩ := getChunk_eq_ok.mp read
  cases freed
  exact ⟨isChunk, isRegion, rfl, rfl, rfl, rfl, rfl, rfl, rfl, rfl⟩

/-! ## Slabs -/

/-- Only bytes of PMEM changed. -/
structure PmemOnly (h h' : Heap) : Prop where
  world : h'.toWorld = h.toWorld
  chunks : h'.chunks = h.chunks
  regions : h'.regions = h.regions
  sregions : h'.sregions = h.sregions
  availLink : h'.availLink = h.availLink
  regionsLink : h'.regionsLink = h.regionsLink
  tpool : h'.tpool = h.tpool

theorem PmemOnly.refl (h : Heap) : PmemOnly h h := ⟨rfl, rfl, rfl, rfl, rfl, rfl, rfl⟩

theorem storePmem_pmemOnly {p width value : Nat} (stored : h.storePmem p width value = .ok h') :
    PmemOnly h h' := by
  obtain ⟨_, rfl⟩ := storePmem_eq_ok.mp stored
  exact ⟨rfl, rfl, rfl, rfl, rfl, rfl, rfl⟩

/-- Writing a `pslab_t` changes PMEM only. -/
theorem pslabInit_effect {tail : Nat} (written : pslabInit h tail ptr = .ok h') :
    PmemOnly h h' ∧ h'.pmem =
      (h.pmem.storeWord tail 8 ptr).storeWord (szAdd tail 8) 1 slabClean.toNat := by
  obtain ⟨h₁, first, second⟩ := Execution.bind_eq_ok.mp written
  obtain ⟨_, rfl⟩ := storePmem_eq_ok.mp first
  obtain ⟨_, rfl⟩ := storePmem_eq_ok.mp second
  exact ⟨⟨rfl, rfl, rfl, rfl, rfl, rfl, rfl⟩, rfl⟩

/-- The chunk to carve: the head, which has the room, or a new one. -/
theorem sregionChunk_effect (chosen : sregionChunk h arena = .ok (c, h', arena')) :
    (h' = h ∧ arena' = arena ∧ c = arena.availSchunks ∧ c ≠ 0 ∧ ⟨c, .chunk⟩ ∈ h.blocks ∧
        sregionSize ≤ (h.chunks c).availsize ∧ (h.chunks c).chunktype = .slab) ∨
      ∃ addr, ChunkAllocated h h' arena arena' .slab c addr := by
  obtain ⟨lacks, tested, chosen⟩ := Execution.bind_eq_ok.mp chosen
  cases lacks with
  | false =>
      simp only [Bool.false_eq_true, if_false, Except.ok.injEq, Prod.mk.injEq] at chosen
      obtain ⟨rfl, rfl, rfl⟩ := chosen
      obtain ⟨nonnull, isChunk, room, type⟩ := chunkLacks_eq_false tested
      exact .inl ⟨rfl, rfl, rfl, nonnull, isChunk, room, type⟩
  | true =>
      simp only [if_true] at chosen
      exact .inr (arenaChunkAlloc_effect chosen)

/-- An sregion was carved off the tail of the chunk, its header written, and its first
slab given out. -/
structure SregionCarved (h h' : Heap) (c sregion size ptr : Nat) : Prop where
  isChunk : ⟨c, .chunk⟩ ∈ h.blocks
  world : h'.toWorld = h.toWorld
  mapped : Mapped h.maps ⟨(h.chunks c).tail, sizeofPsregion⟩
  chunks : h'.chunks = Function.update h.chunks c { h.chunks c with
    tail := szAdd (h.chunks c).tail sregionSize
    availsize := szSub (h.chunks c).availsize sregionSize }
  sregions : h'.sregions = Function.update h.sregions sregion
    ⟨size, (h.chunks c).tail,
      szAdd (szAdd (szAdd (h.chunks c).tail sizeofPsregion) sizeofPslab) size⟩
  regions : h'.regions = h.regions
  availLink : h'.availLink = h.availLink
  regionsLink : h'.regionsLink = h.regionsLink
  tpool : h'.tpool = h.tpool
  pmem : h'.pmem = ((h.pmem.storeWord (h.chunks c).tail sizeofPsregion sregion).storeWord
    (szAdd (h.chunks c).tail sizeofPsregion) 8 ptr).storeWord
    (szAdd (szAdd (h.chunks c).tail sizeofPsregion) 8) 1 slabClean.toNat

/-- `arena_malloc_small_hard`. -/
theorem arenaMallocSmallHard_effect {cls ret : Nat}
    (allocated : arenaMallocSmallHard h arena size ptr cls = .ok (ret, h', arena')) :
    ∃ sregion w c h₁ arena₁, NewBlock h.toWorld w .sregion sregion ∧
      sregionChunk { h with toWorld := w } arena = .ok (c, h₁, arena₁) ∧
      SregionCarved h₁ h' c sregion size ptr ∧
      ret = szAdd (szAdd (h₁.chunks c).tail sizeofPsregion) sizeofPslab ∧
      arena' = { arena₁ with
        availSregion := Function.update arena₁.availSregion cls sregion } := by
  obtain ⟨⟨sregion, w⟩, allocatedSregion, allocated⟩ := Execution.bind_eq_ok.mp allocated
  obtain ⟨⟨c, h₁, arena₁⟩, chosen, allocated⟩ := Execution.bind_eq_ok.mp allocated
  obtain ⟨⟨paddr, h₂⟩, carved, allocated⟩ := Execution.bind_eq_ok.mp allocated
  obtain ⟨chunk, read, carved⟩ := Execution.bind_eq_ok.mp carved
  obtain ⟨⟨_, isChunk⟩, rfl⟩ := getChunk_eq_ok.mp read
  obtain ⟨h₃, headed, carved⟩ := Execution.bind_eq_ok.mp carved
  obtain ⟨⟨_, mapped⟩, rfl⟩ := storePmem_eq_ok.mp headed
  simp only [Except.ok.injEq, Prod.mk.injEq] at carved
  obtain ⟨rfl, rfl⟩ := carved
  obtain ⟨h₄, written, allocated⟩ := Execution.bind_eq_ok.mp allocated
  simp only [Except.ok.injEq, Prod.mk.injEq] at allocated
  obtain ⟨rfl, rfl, rfl⟩ := allocated
  obtain ⟨only, pmem⟩ := pslabInit_effect written
  obtain ⟨world, chunks, regions, sregions, availLink, regionsLink, tpool⟩ := only
  exact ⟨sregion, w, c, h₁, arena₁, malloc_newBlock allocatedSregion, chosen,
    ⟨isChunk, world, mapped, chunks, sregions, regions, availLink, regionsLink, tpool, pmem⟩,
    rfl, rfl⟩

/-- The next slab of an open sregion was given out. -/
structure SlabCarved (h h' : Heap) (sregion size ptr : Nat) : Prop where
  isSregion : ⟨sregion, .sregion⟩ ∈ h.blocks
  world : h'.toWorld = h.toWorld
  chunks : h'.chunks = h.chunks
  sregions : h'.sregions = Function.update h.sregions sregion { h.sregions sregion with
    ptail := szAdd (szAdd (h.sregions sregion).ptail sizeofPslab) size }
  regions : h'.regions = h.regions
  availLink : h'.availLink = h.availLink
  regionsLink : h'.regionsLink = h.regionsLink
  tpool : h'.tpool = h.tpool
  pmem : h'.pmem = (h.pmem.storeWord (h.sregions sregion).ptail 8 ptr).storeWord
    (szAdd (h.sregions sregion).ptail 8) 1 slabClean.toNat

/-- `arena_malloc_small_easy`: the next slab when it fits, a new sregion otherwise. -/
theorem arenaMallocSmallEasy_effect {sregion cls ret : Nat}
    (allocated : arenaMallocSmallEasy h arena size ptr sregion cls = .ok (ret, h', arena')) :
    (arena' = arena ∧ SlabCarved h h' sregion size ptr ∧
        ret = szAdd (h.sregions sregion).ptail sizeofPslab ∧
        szAdd (szAdd (h.sregions sregion).ptail sizeofPslab) size ≤
          szAdd (h.sregions sregion).paddr sregionSize) ∨
      arenaMallocSmallHard h arena size ptr cls = .ok (ret, h', arena') := by
  obtain ⟨s, read, allocated⟩ := Execution.bind_eq_ok.mp allocated
  obtain ⟨⟨_, isSregion⟩, rfl⟩ := getSregion_eq_ok.mp read
  simp only at allocated
  split at allocated
  · exact .inr allocated
  · rename_i fits
    obtain ⟨h₁, written, allocated⟩ := Execution.bind_eq_ok.mp allocated
    simp only [Except.ok.injEq, Prod.mk.injEq] at allocated
    obtain ⟨rfl, rfl, rfl⟩ := allocated
    obtain ⟨⟨world, chunks, regions, sregions, availLink, regionsLink, tpool⟩, pmem⟩ :=
      pslabInit_effect written
    refine .inl ⟨rfl, ⟨isSregion, world, chunks, ?_, regions, availLink, regionsLink, tpool, pmem⟩,
      rfl, Nat.le_of_not_lt fits⟩
    rw [← sregions]
    rfl

/-- `arena_malloc_small`: a slab of the class's open sregion, or a new sregion. -/
theorem arenaMallocSmall_effect {ret : Nat}
    (allocated : arenaMallocSmall h arena size ptr = .ok (ret, h', arena')) :
    (arena' = arena ∧ arena.availSregion (sizeToClass size) ≠ 0 ∧
        SlabCarved h h' (arena.availSregion (sizeToClass size))
          (classToSize (sizeToClass size)) ptr ∧
        ret = szAdd (h.sregions (arena.availSregion (sizeToClass size))).ptail sizeofPslab ∧
        szAdd (szAdd (h.sregions (arena.availSregion (sizeToClass size))).ptail sizeofPslab)
            (classToSize (sizeToClass size)) ≤
          szAdd (h.sregions (arena.availSregion (sizeToClass size))).paddr sregionSize) ∨
      arenaMallocSmallHard h arena (classToSize (sizeToClass size)) ptr (sizeToClass size) =
        .ok (ret, h', arena') := by
  simp only [arenaMallocSmall] at allocated
  split at allocated
  · rename_i opened
    rcases arenaMallocSmallEasy_effect allocated with ⟨same, carved, atTail, fits⟩ | hard
    · exact .inl ⟨same, opened, carved, atTail, fits⟩
    · exact .inr hard
  · exact .inr allocated

/-! ## Frees -/

/-- `arena_dalloc` frees a region when it is passed a log chunk's descriptor;
otherwise it changes PMEM at most. -/
theorem arenaDalloc_effect (freed : arenaDalloc h c ptr = .ok h') :
    PmemOnly h h' ∨ ∃ region, RegionFreed h h' c region := by
  unfold arenaDalloc at freed
  split at freed
  · split at freed
    · obtain ⟨region, _, freed⟩ := Execution.bind_eq_ok.mp freed
      exact .inr ⟨region, arenaDallocLarge_effect freed⟩
    · exact .inl (storePmem_pmemOnly freed)
    · cases freed
      exact .inl (PmemOnly.refl h)
  · obtain ⟨byte, _, freed⟩ := Execution.bind_eq_ok.mp freed
    split at freed
    · cases freed
    split at freed
    · exact .inl (storePmem_pmemOnly freed)
    · cases freed
      exact .inl (PmemOnly.refl h)

end Lsmalloc
