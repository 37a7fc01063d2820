import Lsmalloc.Heap

/-!
# The arena of `arena.c` and `slab.c`

Large requests are appended to the log chunk at the head of `avail_chunks`, small
ones are carved out of the open sregion of their size class, and both take a new
chunk from the pool when there is no room. The calls of one arena are serialised
by its lock, so each is one step here.
-/

namespace Lsmalloc

/-- `arena_t`, its locks apart. The queues are their `qlh_first`. -/
structure Arena where
  ind : Nat
  nthreads : Nat
  pool : Pmempool
  availChunks : Nat
  availSchunks : Nat
  maxchunk : Nat
  availSregion : Nat → Nat
  gcChunk : Nat

/-- An arena of zero bytes, before `arena_new`. -/
def Arena.zeroed : Arena where
  ind := 0
  nthreads := 0
  pool := .zeroed
  availChunks := 0
  availSchunks := 0
  maxchunk := 0
  availSregion := fun _ => 0
  gcChunk := 0

/-! ## Size classes -/

/-- `size_class`. -/
def sizeClass : List Nat := [8, 16, 32, 48, 64, 80, 96, 112, 128, 160, 192, 224]

/-- `size_to_class`: the first class that is large enough. The C function leaves its
result unset when there is none; its callers ask for less than `arena_maxsmall`. -/
def sizeToClass (size : Nat) : Nat := sizeClass.findIdx (size ≤ ·)

/-- `class_to_size`. -/
def classToSize (cls : Nat) : Nat := sizeClass.getD cls 0

/-- The class of a small size is one of the classes, and large enough. -/
theorem sizeToClass_spec {size : Nat} (small : size < arenaMaxsmall) :
    sizeToClass size < classNum ∧ size ≤ classToSize (sizeToClass size) ∧
      classToSize (sizeToClass size) ≤ arenaMaxsmall := by
  have found : sizeToClass size < sizeClass.length := by
    apply List.findIdx_lt_length_of_exists
    exact ⟨224, by decide, decide_eq_true (Nat.le_of_lt small)⟩
  have value : classToSize (sizeToClass size) = sizeClass[sizeToClass size] := by
    simp [classToSize, found]
  refine ⟨found, ?_, ?_⟩
  · rw [value]
    have picked : decide (size ≤ sizeClass[sizeToClass size]) = true :=
      List.findIdx_getElem (w := found)
    exact of_decide_eq_true picked
  · rw [value]
    have all : ∀ s ∈ sizeClass, s ≤ arenaMaxsmall := by decide
    exact all _ (List.getElem_mem found)

/-! ## Chunks -/

/-- What `arena_chunk_alloc` and `gc_alloc_chunk` share: a chunk of the pool, its
descriptor, every field but the list fields, and the header in PMEM. -/
def chunkCreate (h : Heap) (arena : Arena) (chunktype : ChunkType) (live : Bool) :
    Except Fault (Nat × Heap × Arena) := do
  let (addr, w, pool) ← pmempoolChunkAlloc h.toWorld arena.pool
  let (chunk, w) ← malloc w .chunk
  let h := { h with toWorld := w }
  let h := h.putChunk chunk { h.chunks chunk with
    paddr := addr
    tail := szAdd addr sizeofPchunk
    arena := arena.ind
    gcing := false
    availsize := szSub chunksize sizeofPchunk
    dirtysize := 0
    chunktype := chunktype
    live := live }
  let h ← h.storePmem addr sizeofPchunk chunk
  .ok (chunk, h, { arena with pool := pool })

/-- The list part of `arena_chunk_alloc`: a log chunk heads `avail_chunks` with no
regions, any other heads `avail_schunks`. -/
def chunkList (h : Heap) (arena : Arena) (chunktype : ChunkType) (chunk : Nat) :
    Except Fault (Heap × Arena) :=
  match chunktype with
  | .log => do
      let h := h.putChunk chunk { h.chunks chunk with regions := 0 }
      let (first, h) ← (h.availElmNew chunk).availHeadInsert arena.availChunks chunk
      .ok (h, { arena with availChunks := first })
  | _ => do
      let (first, h) ← (h.availElmNew chunk).availHeadInsert arena.availSchunks chunk
      .ok (h, { arena with availSchunks := first })

/-- `arena_chunk_alloc`. -/
def arenaChunkAlloc (h : Heap) (arena : Arena) (chunktype : ChunkType) :
    Except Fault (Nat × Heap × Arena) := do
  let (chunk, h, arena) ← chunkCreate h arena chunktype true
  let (h, arena) ← chunkList h arena chunktype chunk
  .ok (chunk, { h with tpool := maybeGc h.tpool arena.ind arena.pool }, arena)

/-- `arena_new`. -/
def arenaNew (h : Heap) (arena : Arena) (ind : Nat) : Except Fault (Heap × Arena) := do
  let (w, pool) ← pmempoolCreate h.toWorld arena.pool
  .ok ({ h with toWorld := w }, { arena with
    ind := ind
    nthreads := 0
    maxchunk := 0
    gcChunk := 0
    pool := pool
    availChunks := 0
    availSchunks := 0
    availSregion := fun cls => if cls < classNum then 0 else arena.availSregion cls })

/-- The test both allocation paths put to the chunk at the head of their queue: there
is none, it lacks the room, or it is of another type. -/
def chunkLacks (h : Heap) (chunk size : Nat) (chunktype : ChunkType) : Except Fault Bool :=
  if chunk = 0 then .ok true
  else do
    let c ← h.getChunk chunk
    .ok (decide (c.availsize < size) || decide (c.chunktype ≠ chunktype))

/-! ## Large requests -/

/-- The body of `arena_pmem_append_region` and of `gc_pmem_append_region`: bump the
tail, return where it was. -/
def pmemAppendRegion (h : Heap) (chunk size : Nat) : Except Fault (Nat × Heap) := do
  let c ← h.getChunk chunk
  .ok (c.tail, h.putChunk chunk { c with
    tail := szAdd c.tail size
    availsize := szSub c.availsize size })

/-- What `arena_region_alloc` and `gc_region_migration` do with a new descriptor: room
at the chunk's tail, the header there, the fields, and the last place on the chunk's list. -/
def placeRegion (h : Heap) (chunk region size ptr threadid : Nat) : Except Fault (Nat × Heap) := do
  let (paddr, h) ← pmemAppendRegion h chunk size
  let h ← h.storePmem paddr sizeofPregion region
  let h := h.putRegion region ⟨.alive, threadid, size, ptr, paddr, chunk⟩
  let c ← h.getChunk chunk
  let (first, h) ← (h.regionsElmNew region).regionsTailInsert c.regions region
  .ok (paddr, h.putChunk chunk { c with regions := first })

/-- The chunk `arena_region_alloc` appends to: the head of `avail_chunks`, or a new one
after the head is retired. -/
def regionChunk (h : Heap) (arena : Arena) (size : Nat) : Except Fault (Nat × Heap × Arena) := do
  let chunk := arena.availChunks
  let lacks ← chunkLacks h chunk size .log
  if lacks = true then do
    let c ← h.getChunk chunk
    arenaChunkAlloc (h.putChunk chunk { c with live := false }) arena .log
  else .ok (chunk, h, arena)

/-- `arena_region_alloc`. -/
def arenaRegionAlloc (h : Heap) (arena : Arena) (size ptr threadid : Nat) :
    Except Fault (Nat × Heap × Arena) := do
  let (region, w) ← malloc h.toWorld .region
  let (chunk, h, arena) ← regionChunk { h with toWorld := w } arena size
  let (paddr, h) ← placeRegion h chunk region size ptr threadid
  .ok (szAdd paddr sizeofPregion, h, arena)

/-- The size `arena_malloc_large` reserves: the header, rounded up to 8 bytes. -/
def regionSize (size : Nat) : Nat := alignmentCeiling (szAdd size sizeofPregion) 8

/-- `arena_malloc_large`. -/
def arenaMallocLarge (h : Heap) (arena : Arena) (size ptr threadid : Nat) :
    Except Fault (Nat × Heap × Arena) :=
  arenaRegionAlloc h arena (regionSize size) ptr threadid

/-- `arena_dalloc_large`. -/
def arenaDallocLarge (h : Heap) (chunk region : Nat) : Except Fault Heap := do
  let r ← h.getRegion region
  let h := h.putRegion region { r with attr := .dirty }
  let c ← h.getChunk chunk
  .ok (h.putChunk chunk { c with dirtysize := szAdd c.dirtysize r.size })

/-! ## Small requests -/

/-- Write a `pslab_t` at `tail`: the user's pointer and `SLAB_CLEAN`. -/
def pslabInit (h : Heap) (tail ptr : Nat) : Except Fault Heap := do
  let h ← h.storePmem tail 8 ptr
  h.storePmem (szAdd tail 8) 1 slabClean.toNat

/-- Carve an sregion off the tail of a slab chunk and put its header there. -/
def carveSregion (h : Heap) (chunk sregion : Nat) : Except Fault (Nat × Heap) := do
  let c ← h.getChunk chunk
  let h := h.putChunk chunk { c with
    tail := szAdd c.tail sregionSize
    availsize := szSub c.availsize sregionSize }
  let h ← h.storePmem c.tail sizeofPsregion sregion
  .ok (c.tail, h)

/-- The chunk `arena_malloc_small_hard` carves: the head of `avail_schunks`, or a new one. -/
def sregionChunk (h : Heap) (arena : Arena) : Except Fault (Nat × Heap × Arena) := do
  let chunk := arena.availSchunks
  let lacks ← chunkLacks h chunk sregionSize .slab
  if lacks = true then arenaChunkAlloc h arena .slab
  else .ok (chunk, h, arena)

/-- `arena_malloc_small_hard`: a new sregion, and its first slab. -/
def arenaMallocSmallHard (h : Heap) (arena : Arena) (size ptr cls : Nat) :
    Except Fault (Nat × Heap × Arena) := do
  let (sregion, w) ← malloc h.toWorld .sregion
  let (chunk, h, arena) ← sregionChunk { h with toWorld := w } arena
  let (paddr, h) ← carveSregion h chunk sregion
  let tail := szAdd paddr sizeofPsregion
  let ret := szAdd tail sizeofPslab
  let h := h.putSregion sregion ⟨size, paddr, szAdd ret size⟩
  let arena := { arena with availSregion := Function.update arena.availSregion cls sregion }
  let h ← pslabInit h tail ptr
  .ok (ret, h, arena)

/-- `arena_malloc_small_easy`: the next slab of the open sregion, when it fits. -/
def arenaMallocSmallEasy (h : Heap) (arena : Arena) (size ptr sregion cls : Nat) :
    Except Fault (Nat × Heap × Arena) := do
  let s ← h.getSregion sregion
  let tail := szAdd (szAdd s.ptail sizeofPslab) size
  if tail > szAdd s.paddr sregionSize then arenaMallocSmallHard h arena size ptr cls
  else do
    let ret := szAdd s.ptail sizeofPslab
    let h ← pslabInit h s.ptail ptr
    .ok (ret, h.putSregion sregion { s with ptail := szAdd ret size }, arena)

/-- `arena_malloc_small`. -/
def arenaMallocSmall (h : Heap) (arena : Arena) (size ptr : Nat) :
    Except Fault (Nat × Heap × Arena) :=
  let cls := sizeToClass size
  let size := classToSize cls
  let sregion := arena.availSregion cls
  if sregion ≠ 0 then arenaMallocSmallEasy h arena size ptr sregion cls
  else arenaMallocSmallHard h arena size ptr cls

/-- `arena_dalloc_small`. -/
def arenaDallocSmall (h : Heap) (slab : Nat) : Except Fault Heap :=
  h.storePmem (szAdd slab 8) 1 slabDirty.toNat

/-! ## Routing -/

/-- `arena_malloc` on a chosen arena. -/
def arenaMalloc (h : Heap) (arena : Arena) (size ptr threadid : Nat) :
    Except Fault (Nat × Heap × Arena) :=
  if size < arenaMaxsmall then arenaMallocSmall h arena size ptr
  else arenaMallocLarge h arena size ptr threadid

/-- `arena_dalloc`. The pointer it takes for a `chunk_t` may point at PMEM, where the
byte it reads for `chunktype` is the first byte there, and where a log chunk's
`arena` field would be some bytes that point at no arena. -/
def arenaDalloc (h : Heap) (chunk ptr : Nat) : Except Fault Heap :=
  if ⟨chunk, .chunk⟩ ∈ h.blocks then
    match (h.chunks chunk).chunktype with
    | .log => do
        let region ← h.loadPmem (szSub ptr sizeofPregion) sizeofPregion
        arenaDallocLarge h chunk region
    | .slab => arenaDallocSmall h (szSub ptr sizeofPslab)
    | _ => .ok h
  else do
    let chunktype ← h.loadPmem chunk 1
    if chunktype = ChunkType.log.char.toNat then .error .wild
    else if chunktype = ChunkType.slab.char.toNat then arenaDallocSmall h (szSub ptr sizeofPslab)
    else .ok h

end Lsmalloc
