import Lsmalloc.World

/-!
# The chunk pool of `pool.c`

A `pmempool_t` hands out `chunksize`-byte chunks of the PMEM files it maps. Its
free list is a ring of `freelist_t` nodes with one sentinel (`paddr == NULL`)
anywhere in it, entered at the cursor `fl_now`; a second ring lists the mapped
files. The nodes a pool has obtained from `malloc` are numbered in order, and
their fields are kept beside the pool.
-/

namespace Lsmalloc

/-- `pmempool_t` and the `freelist_t` and `filelist_t` nodes it owns. `chunk_tot` counts chunks
that lie apart below `2^47`, and `chunk_used` those of them that are handed out, so neither `int`
comes near `2^31`. -/
structure Pmempool where
  file : Nat
  flNow : Nat
  chunkTot : Int
  chunkUsed : Int
  /-- The `link` fields of the `freelist_t` nodes. -/
  flLink : Links Nat
  /-- The `paddr` fields of the `freelist_t` nodes. -/
  flPaddr : Nat → Nat
  /-- How many `freelist_t` nodes there are. -/
  flNodes : Nat
  /-- The `link` fields of the `filelist_t` nodes. -/
  fileLink : Links Nat
  fileNo : Nat → Nat
  poolPaddr : Nat → Nat
  /-- How many `filelist_t` nodes there are. -/
  fileNodes : Nat

/-- A pool of zero bytes, before `pmempool_create`. -/
def Pmempool.zeroed : Pmempool where
  file := 0
  flNow := 0
  chunkTot := 0
  chunkUsed := 0
  flLink := ⟨fun _ => 0, fun _ => 0⟩
  flPaddr := fun _ => 0
  flNodes := 0
  fileLink := ⟨fun _ => 0, fun _ => 0⟩
  fileNo := fun _ => 0
  poolPaddr := fun _ => 0
  fileNodes := 0

/-- The mapping phase `pmempool_create_one` and `huge_malloc` share: map `size`
bytes, and when the mapping is not aligned to `chunksize`, give it back, map one
chunk more and trim both ends. -/
def pmemMapAligned (w : World) (str : PmemPath) (size : Nat) : Except Fault (Nat × World) := do
  let (addr, w) ← pmemMapFile w str size
  if addr = 0 then .error .exit
  else if addr = alignmentCeiling addr chunksize then .ok (addr, w)
  else
    let w := pmemUnmap w addr size
    let w := removeFile w str
    let (addr, w) ← pmemMapFile w str (szAdd size chunksize)
    if addr = 0 then .error .exit
    else
      let ret := alignmentCeiling addr chunksize
      let w := pmemUnmap w addr (szSub ret addr)
      let w := pmemUnmap w (szAdd ret size) (szSub (szAdd addr chunksize) ret)
      .ok (ret, w)

/-- Allocate a `filelist_t` for the mapping and insert it after the sentinel. -/
def insertFile (pp : Pmempool) (no ret : Nat) : Pmempool :=
  let filenow := pp.fileNodes
  { pp with
    fileNodes := filenow + 1
    fileNo := Function.update pp.fileNo filenow no
    poolPaddr := Function.update pp.poolPaddr filenow ret
    fileLink := qrAfterInsert (qrNew pp.fileLink filenow) pp.file filenow }

/-- One round of the loop that fills the free list: allocate a `freelist_t` for
the address and insert it after `pre`. -/
def insertFree (pp : Pmempool) (pre paddr : Nat) : Pmempool :=
  let tmp := pp.flNodes
  { pp with
    flNodes := tmp + 1
    flPaddr := Function.update pp.flPaddr tmp paddr
    flLink := qrAfterInsert (qrNew pp.flLink tmp) pre tmp }

/-- The loop that fills the free list, from index `i` on with `count` rounds to go. -/
def fillFreelist (ret : Nat) : (count i pre : Nat) → Pmempool → Pmempool
  | 0, _, _, pp => pp
  | count + 1, i, pre, pp =>
      fillFreelist ret count (i + 1) pp.flNodes (insertFree pp pre (szAdd ret (i * chunksize)))

/-- The free list part of `pmempool_create_one`: insert `count` chunks after the
cursor and move the cursor onto the first of them. -/
def listChunks (ret count : Nat) (pp : Pmempool) : Pmempool :=
  let pp := fillFreelist ret count 0 pp.flNow pp
  { pp with flNow := pp.flLink.next pp.flNow }

/-- `pmempool_create_one`: map one more file and put its chunks on the free list. -/
def pmempoolCreateOne (w : World) (pp : Pmempool) : Except Fault (World × Pmempool) := do
  let w := { w with mmapFile := (w.mmapFile + 1) % 2 ^ 32 }
  let str := PmemPath.lspmemfile w.mmapFile
  let (ret, w) ← pmemMapAligned w str pmempoolSize
  let w := { w with pmemConsmp := (w.pmemConsmp + pmempoolSize) % 2 ^ 32 }
  let pp := insertFile pp w.mmapFile ret
  let pp := { pp with chunkTot := pp.chunkTot + freelistLen }
  .ok (w, listChunks ret freelistLen pp)

/-- `pmempool_create`: the two sentinels, no chunks, then a first file. -/
def pmempoolCreate (w : World) (pp : Pmempool) : Except Fault (World × Pmempool) :=
  let flNow := pp.flNodes
  let file := pp.fileNodes
  pmempoolCreateOne w
    { pp with
      flNow := flNow
      flNodes := flNow + 1
      flPaddr := Function.update pp.flPaddr flNow 0
      flLink := qrNew pp.flLink flNow
      file := file
      fileNodes := file + 1
      fileNo := Function.update pp.fileNo file 0
      fileLink := qrNew pp.fileLink file
      chunkTot := 0
      chunkUsed := 0 }

/-- The part of `pmempool_chunk_alloc` after the pool has grown: step off the
sentinel, then take the node under the cursor out of the ring. -/
def popFree (pp : Pmempool) : Nat × Pmempool :=
  let pp := if pp.flPaddr pp.flNow = 0 then { pp with flNow := pp.flLink.next pp.flNow } else pp
  let tmp := pp.flNow
  let ret := pp.flPaddr tmp
  let pp := { pp with flNow := pp.flLink.next pp.flNow }
  let pp := { pp with flLink := qrRemove pp.flLink tmp }
  (ret, { pp with chunkUsed := pp.chunkUsed + 1 })

/-- `pmempool_chunk_alloc`: a ring of one node is an exhausted pool, which grows. -/
def pmempoolChunkAlloc (w : World) (pp : Pmempool) : Except Fault (Nat × World × Pmempool) := do
  let (w, pp) ← (if pp.flLink.next pp.flNow = pp.flNow then pmempoolCreateOne w pp else .ok (w, pp))
  let (ret, pp) := popFree pp
  .ok (ret, w, pp)

/-- `pmempool_free`: a new node before the cursor. -/
def pmempoolFree (pp : Pmempool) (ptr : Nat) : Pmempool :=
  let tmp := pp.flNodes
  { pp with
    flNodes := tmp + 1
    flPaddr := Function.update pp.flPaddr tmp ptr
    flLink := qrBeforeInsert (qrNew pp.flLink tmp) pp.flNow tmp
    chunkUsed := pp.chunkUsed - 1 }

/-- `pmempool_usedpct`: a division of two `int` values, truncated. -/
def pmempoolUsedpct (pp : Pmempool) : Int := pp.chunkUsed.tdiv pp.chunkTot

/-! ## Reading the rings -/

/-- The nodes of the free ring from the cursor on. -/
def Pmempool.freeNodes (pp : Pmempool) : List Nat := pp.flLink.walk pp.flNow pp.flNodes

/-- The free addresses from the cursor on, the sentinel skipped. -/
def Pmempool.freeAddrs (pp : Pmempool) : List Nat :=
  (pp.freeNodes.map pp.flPaddr).filter (· ≠ 0)

/-- The addresses of the pool's mappings, the latest first. -/
def Pmempool.mappings (pp : Pmempool) : List Nat :=
  (pp.fileLink.walk pp.file pp.fileNodes).tail.map pp.poolPaddr

/-- The chunks of one mapping, in ascending order. -/
def chunksOf (base : Nat) : List Nat :=
  (List.range freelistLen).map fun i => base + i * chunksize

/-- A chunk's bytes. -/
def chunkSpan (base : Nat) : Span := ⟨base, chunksize⟩

end Lsmalloc
