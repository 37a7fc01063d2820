import Lsmalloc.Gc.Shape

/-!
# Headers that are stored in DRAM

`arena_chunk_dalloc` gives the pool the address of a descriptor, and the pool hands that
address out again as a chunk. The headers of such a chunk and of its regions are then stored
over whatever object lies there, and the program goes on. `storePmem` ends a run at such a
store; `storeWord` carries it out. The functions that store headers are given here with the
store as a parameter.
-/

namespace Lsmalloc

/-! ## Stores over objects -/

/-- A word is stored at an offset of a `chunk_t`. The locks are not part of the model, and
`arena`, an index here, is read by none of the functions below. -/
def Heap.overwriteChunk (h : Heap) (p offset value : Nat) : Heap :=
  match offset with
  | 0 => h.putChunk p { h.chunks p with chunktype := .ofChar (.ofNat value) }
  | 8 => h.putChunk p { h.chunks p with regions := value }
  | 24 => h.putChunk p { h.chunks p with tail := value }
  | 32 => h.putChunk p { h.chunks p with paddr := value }
  | 40 => { h with availLink := h.availLink.setNext p value }
  | 48 => { h with availLink := h.availLink.setPrev p value }
  | 56 => h.putChunk p { h.chunks p with availsize := value }
  | 64 => h.putChunk p { h.chunks p with dirtysize := value }
  | 152 => h.putChunk p { h.chunks p with
      live := decide (value % 256 ≠ 0)
      gcing := decide (value / 256 % 256 ≠ 0) }
  | _ => h

/-- A word is stored at an offset of a `region_t`. An `attr` counts as `REGION_DIRTY` or not,
which is all that is asked of it. -/
def Heap.overwriteRegion (h : Heap) (p offset value : Nat) : Heap :=
  match offset with
  | 0 => { h with regionsLink := h.regionsLink.setNext p value }
  | 8 => { h with regionsLink := h.regionsLink.setPrev p value }
  | 16 => h.putRegion p { h.regions p with
      attr := if value % 2 ^ 16 = 2 then .dirty else .alive
      threadid := value / 2 ^ 16 % 2 ^ 16 }
  | 24 => h.putRegion p { h.regions p with size := value }
  | 32 => h.putRegion p { h.regions p with ptr := value }
  | 40 => h.putRegion p { h.regions p with paddr := value }
  | 48 => h.putRegion p { h.regions p with chunk := value }
  | _ => h

/-- A word is stored at an offset of an `sregion_t`. -/
def Heap.overwriteSregion (h : Heap) (p offset value : Nat) : Heap :=
  match offset with
  | 0 => h.putSregion p { h.sregions p with size := value }
  | 8 => h.putSregion p { h.sregions p with paddr := value }
  | 16 => h.putSregion p { h.sregions p with ptail := value }
  | _ => h

/-- A word is stored at an offset of an object. -/
def Heap.overwrite (h : Heap) (b : Block) (offset value : Nat) : Heap :=
  match b.object with
  | .chunk => h.overwriteChunk b.addr offset value
  | .region => h.overwriteRegion b.addr offset value
  | .sregion => h.overwriteSregion b.addr offset value

/-- Store a word where a pointer points: in PMEM, or over an object in DRAM. Headers are
pointers at addresses that are a multiple of eight, so that no store meets two fields. -/
def Heap.storeWord (h : Heap) (p width value : Nat) : Except Fault Heap :=
  if Mapped h.maps ⟨p, width⟩ then h.storePmem p width value
  else
    match h.blocks.find? fun b => decide ((Span.mk p width).Within b.span) with
    | some b => .ok (h.overwrite b (p - b.addr) value)
    | none => h.storePmem p width value

theorem storeWord_of_mapped {h : Heap} {p width : Nat} (mapped : Mapped h.maps ⟨p, width⟩)
    (value : Nat) : h.storeWord p width value = h.storePmem p width value :=
  if_pos mapped

/-- A word inside an object is stored there. -/
theorem storeWord_of_block {h : Heap} {p width : Nat} {b : Block} (isBlock : b ∈ h.blocks)
    (inside : (Span.mk p width).Within b.span) (nonempty : 0 < width) (value : Nat) :
    h.storeWord p width value = .ok (h.overwrite b (p - b.addr) value) := by
  have apart : ∀ r : Span, (Span.mk p width).Within r → ¬ r.Apart b.span := by
    intro r within meets
    exact (meets.mono₂ within inside).start_ne nonempty nonempty rfl
  have unmapped : ¬ Mapped h.maps ⟨p, width⟩ := by
    rintro ⟨m, isMap, within⟩
    exact apart m within (h.placed.separate m isMap b isBlock)
  rw [Heap.storeWord, if_neg unmapped]
  cases found : h.blocks.find? fun b => decide ((Span.mk p width).Within b.span) with
  | none =>
      have outside := List.find?_eq_none.mp found b isBlock
      simp [inside] at outside
  | some d =>
      have isD : d ∈ h.blocks := List.mem_of_find?_eq_some found
      have within : (Span.mk p width).Within d.span := by
        simpa using List.find?_some found
      obtain rfl : d = b := by
        by_contra other
        have symm : Std.Symm fun b c : Block => b.span.Apart c.span :=
          ⟨fun _ _ meets => Span.Apart.symm meets⟩
        exact apart d.span within (h.placed.distinct.forall isD isBlock other)
      rfl

theorem storeWord_putChunk {h : Heap} {p width : Nat} (mapped : Mapped h.maps ⟨p, width⟩)
    (c : Nat) (chunk : Chunk) (value : Nat) :
    (h.putChunk c chunk).storeWord p width value = (h.putChunk c chunk).storePmem p width value :=
  if_pos mapped

/-! ## The functions that store headers -/

section Store

-- How a header is stored: `storePmem` or `storeWord`.
variable (store : Heap → (p width value : Nat) → Except Fault Heap)

/-- What `arena_chunk_alloc` and `gc_alloc_chunk` share. -/
def chunkCreateBy (h : Heap) (arena : Arena) (chunktype : ChunkType) (live : Bool) :
    Except Fault (Nat × Heap × Arena) := do
  let (addr, w, pool) ← pmempoolChunkAlloc h.toWorld arena.pool
  let (chunk, w) ← malloc w .chunk
  let h := { h with toWorld := w }
  let h := h.putChunk chunk { h.chunks chunk with
    paddr := addr
    tail := szAdd addr sizeofPchunk
    arena := arena.ind
    gcing := false
    availsize := szSub chunksize sizeofPchunk
    dirtysize := 0
    chunktype := chunktype
    live := live }
  let h ← store h addr sizeofPchunk chunk
  .ok (chunk, h, { arena with pool := pool })

/-- `arena_chunk_alloc`. -/
def arenaChunkAllocBy (h : Heap) (arena : Arena) (chunktype : ChunkType) :
    Except Fault (Nat × Heap × Arena) := do
  let (chunk, h, arena) ← chunkCreateBy store h arena chunktype true
  let (h, arena) ← chunkList h arena chunktype chunk
  .ok (chunk, { h with tpool := maybeGc h.tpool arena.ind arena.pool }, arena)

/-- `gc_alloc_chunk`. -/
def gcAllocChunkBy (h : Heap) (arena : Arena) : Except Fault (Nat × Heap × Arena) := do
  let (chunk, h, arena) ← chunkCreateBy store h arena .gc false
  let (first, h) ← h.availTailInsert arena.availChunks chunk
  .ok (chunk, h, { arena with availChunks := first })

/-- What `arena_region_alloc` does with a new descriptor. -/
def placeRegionBy (h : Heap) (chunk region size ptr threadid : Nat) :
    Except Fault (Nat × Heap) := do
  let (paddr, h) ← pmemAppendRegion h chunk size
  let h ← store h paddr sizeofPregion region
  let h := h.putRegion region ⟨.alive, threadid, size, ptr, paddr, chunk⟩
  let c ← h.getChunk chunk
  let (first, h) ← (h.regionsElmNew region).regionsTailInsert c.regions region
  .ok (paddr, h.putChunk chunk { c with regions := first })

/-- The chunk `arena_region_alloc` appends to. -/
def regionChunkBy (h : Heap) (arena : Arena) (size : Nat) :
    Except Fault (Nat × Heap × Arena) := do
  let chunk := arena.availChunks
  let lacks ← chunkLacks h chunk size .log
  if lacks = true then do
    let c ← h.getChunk chunk
    arenaChunkAllocBy store (h.putChunk chunk { c with live := false }) arena .log
  else .ok (chunk, h, arena)

/-- `arena_malloc_large`. -/
def arenaMallocLargeBy (h : Heap) (arena : Arena) (size ptr threadid : Nat) :
    Except Fault (Nat × Heap × Arena) := do
  let size := regionSize size
  let (region, w) ← malloc h.toWorld .region
  let (chunk, h, arena) ← regionChunkBy store { h with toWorld := w } arena size
  let (paddr, h) ← placeRegionBy store h chunk region size ptr threadid
  .ok (szAdd paddr sizeofPregion, h, arena)

/-- `arena_new`, then the first log chunk. -/
def arenaBootBy (h : Heap) (arena : Arena) (ind : Nat) : Except Fault ArenaState := do
  let (h, arena) ← arenaNew h arena ind
  let (_, h, arena) ← arenaChunkAllocBy store h arena .log
  .ok ⟨h, arena⟩

end Store

/-! ## Where the two stores agree -/

variable {h : Heap} {arena : Arena} {c region size ptr threadid : Nat}

/-- With `storePmem` they are the functions of the arena and of the collector. -/
theorem storePmem_functions :
    chunkCreateBy Heap.storePmem = chunkCreate ∧
      arenaChunkAllocBy Heap.storePmem = arenaChunkAlloc ∧
      gcAllocChunkBy Heap.storePmem = gcAllocChunk ∧
      placeRegionBy Heap.storePmem = placeRegion ∧
      regionChunkBy Heap.storePmem = regionChunk ∧
      arenaMallocLargeBy Heap.storePmem = arenaMallocLarge :=
  ⟨rfl, rfl, rfl, rfl, rfl, rfl⟩

theorem chunkCreateBy_storeWord (gives : GivesChunk h.toWorld arena.pool)
    (chunktype : ChunkType) (live : Bool) :
    chunkCreateBy Heap.storeWord h arena chunktype live = chunkCreate h arena chunktype live := by
  refine Execution.bind_congr_ok ?_
  rintro ⟨addr, w, pool⟩ taken
  refine Execution.bind_congr_ok ?_
  rintro ⟨chunk, w'⟩ allocated
  have headed : Mapped w'.maps ⟨addr, sizeofPchunk⟩ := by
    rw [(malloc_newBlock allocated).maps]
    exact (gives addr w pool taken).header
  dsimp only
  rw [storeWord_of_mapped headed]

theorem arenaChunkAllocBy_storeWord (gives : GivesChunk h.toWorld arena.pool)
    (chunktype : ChunkType) :
    arenaChunkAllocBy Heap.storeWord h arena chunktype = arenaChunkAlloc h arena chunktype := by
  rw [arenaChunkAllocBy, chunkCreateBy_storeWord gives]
  rfl

theorem gcAllocChunkBy_storeWord (gives : GivesChunk h.toWorld arena.pool) :
    gcAllocChunkBy Heap.storeWord h arena = gcAllocChunk h arena := by
  rw [gcAllocChunkBy, chunkCreateBy_storeWord gives]
  rfl

theorem placeRegionBy_storeWord (mapped : Mapped h.maps ⟨(h.chunks c).tail, sizeofPregion⟩) :
    placeRegionBy Heap.storeWord h c region size ptr threadid =
      placeRegion h c region size ptr threadid := by
  refine Execution.bind_congr_ok ?_
  rintro ⟨paddr, h₁⟩ appended
  obtain ⟨chunk, read, appended⟩ := Execution.bind_eq_ok.mp appended
  obtain ⟨_, rfl⟩ := getChunk_eq_ok.mp read
  cases appended
  dsimp only
  rw [storeWord_putChunk mapped]

end Lsmalloc
