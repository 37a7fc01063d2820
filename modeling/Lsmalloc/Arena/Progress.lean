import Lsmalloc.Arena.Layout

/-!
# Chunks and regions get through

A checked access of an object that is there does not fail, so a chunk of a pool in order is
given its descriptor unless the environment fails, and so is a region for which its chunk
has the room.
-/

namespace Lsmalloc

open Execution (FailsOnly failsOnly_ok)

variable {h h' : Heap} {arena : Arena} {admitted : Fault → Prop}
  {elms rs : List Nat} {c p region size ptr threadid : Nat}

/-! ## Checked accesses -/

theorem getChunk_failsOnly (isChunk : ⟨p, .chunk⟩ ∈ h.blocks) : FailsOnly admitted (h.getChunk p) :=
  .of_eq_ok (getChunk_eq_ok.mpr ⟨⟨h.placed.nonnull _ isChunk, isChunk⟩, rfl⟩)

theorem getSregion_failsOnly (isSregion : ⟨p, .sregion⟩ ∈ h.blocks) :
    FailsOnly admitted (h.getSregion p) :=
  .of_eq_ok (getSregion_eq_ok.mpr ⟨⟨h.placed.nonnull _ isSregion, isSregion⟩, rfl⟩)

theorem storePmem_failsOnly {width : Nat} (value : Nat) (nonnull : p ≠ 0)
    (mapped : Mapped h.maps ⟨p, width⟩) : FailsOnly admitted (h.storePmem p width value) :=
  .of_eq_ok (storePmem_eq_ok.mpr ⟨⟨nonnull, mapped⟩, rfl⟩)

theorem availHeadInsert_failsOnly {first elm : Nat}
    (nodes : ∀ n ∈ qlInsertNodes h.availLink first, n ≠ 0 ∧ ⟨n, .chunk⟩ ∈ h.blocks) :
    FailsOnly admitted (h.availHeadInsert first elm) :=
  .of_eq_ok (availHeadInsert_eq_ok.mpr ⟨nodes, rfl, rfl⟩)

theorem availTailInsert_failsOnly {first elm : Nat}
    (nodes : ∀ n ∈ qlInsertNodes h.availLink first, n ≠ 0 ∧ ⟨n, .chunk⟩ ∈ h.blocks) :
    FailsOnly admitted (h.availTailInsert first elm) :=
  .of_eq_ok (availTailInsert_eq_ok.mpr ⟨nodes, rfl, rfl⟩)

theorem regionsTailInsert_failsOnly {first elm : Nat}
    (nodes : ∀ n ∈ qlInsertNodes h.regionsLink first, n ≠ 0 ∧ ⟨n, .region⟩ ∈ h.blocks) :
    FailsOnly admitted (h.regionsTailInsert first elm) :=
  .of_eq_ok (regionsTailInsert_eq_ok.mpr ⟨nodes, rfl, rfl⟩)

/-! ## Chunks -/

/-- A chunk of the pool is given a descriptor and a header. -/
theorem GivesChunk.chunkCreate_failsOnly (gives : GivesChunk h.toWorld arena.pool)
    (chunktype : ChunkType) (live : Bool) :
    FailsOnly Fault.FromEnvironment (chunkCreate h arena chunktype live) := by
  refine (pmempoolChunkAlloc_failsOnly _ _).bind ?_
  rintro ⟨addr, w, pp⟩ taken
  refine (malloc_failsOnly _ _).bind ?_
  rintro ⟨chunk, w'⟩ allocated
  have new := malloc_newBlock allocated
  have isChunk := gives addr w pp taken
  have headed : Mapped w'.maps ⟨addr, sizeofPchunk⟩ := by
    rw [new.maps]
    exact isChunk.header
  exact (storePmem_failsOnly _ isChunk.isBase.nonnull headed).bind fun _ _ => failsOnly_ok _

/-- The queue a chunk of the type is listed on. -/
def Arena.queueOf (arena : Arena) : ChunkType → Nat
  | .log => arena.availChunks
  | _ => arena.availSchunks

/-- A chunk is listed on a queue of descriptors. -/
theorem chunkList_failsOnly {chunktype : ChunkType}
    (queue : IsQl h.availLink (arena.queueOf chunktype) elms)
    (isChunk : ∀ d ∈ elms, ⟨d, .chunk⟩ ∈ h.blocks) (absent : c ∉ elms) :
    FailsOnly admitted (chunkList h arena chunktype c) := by
  have linked : IsQl (qrNew h.availLink c) (arena.queueOf chunktype) elms :=
    queue.congr fun x member => qrNew_other (by rintro rfl; exact absent member)
  have nodes : ∀ n ∈ qlInsertNodes (qrNew h.availLink c) (arena.queueOf chunktype),
      n ≠ 0 ∧ (⟨n, .chunk⟩ : Block) ∈ h.blocks := by
    intro n isNode
    have member := linked.mem_of_qlInsertNodes isNode
    exact ⟨linked.nonnull n member, isChunk n member⟩
  cases chunktype with
  | log => exact .bind (availHeadInsert_failsOnly nodes) fun _ _ => failsOnly_ok _
  | slab | gc | other => exact .bind (availHeadInsert_failsOnly nodes) fun _ _ => failsOnly_ok _

/-- `arena_chunk_alloc` gets through. -/
theorem GivesChunk.arenaChunkAlloc_failsOnly {chunktype : ChunkType}
    (gives : GivesChunk h.toWorld arena.pool)
    (queue : IsQl h.availLink (arena.queueOf chunktype) elms)
    (isChunk : ∀ d ∈ elms, ⟨d, .chunk⟩ ∈ h.blocks) :
    FailsOnly Fault.FromEnvironment (arenaChunkAlloc h arena chunktype) := by
  refine (gives.chunkCreate_failsOnly chunktype true).bind ?_
  rintro ⟨chunk, h₁, arena₁⟩ made
  obtain ⟨addr, effect⟩ := chunkCreate_effect made
  obtain ⟨blocks, fresh, _⟩ := chunkTaken_objects effect.pool
  have same : arena₁.queueOf chunktype = arena.queueOf chunktype := by
    rw [effect.others]
    cases chunktype <;> rfl
  have listed : FailsOnly Fault.FromEnvironment (chunkList h₁ arena₁ chunktype chunk) := by
    have absent : chunk ∉ elms := fun member => fresh _ (isChunk _ member) rfl
    refine chunkList_failsOnly ?_ ?_ absent
    · rw [same, effect.availLink]
      exact queue
    · intro d member
      rw [blocks]
      exact List.mem_cons_of_mem _ (isChunk d member)
  exact listed.bind fun _ _ => failsOnly_ok _

/-! ## Regions -/

/-- The chunk's list of regions is in order, and so is the room behind them. -/
structure Appendable (h : Heap) (c : Nat) (rs : List Nat) : Prop where
  isChunk : ⟨c, .chunk⟩ ∈ h.blocks
  list : IsQl h.regionsLink (h.chunks c).regions rs
  isRegion : ∀ r ∈ rs, ⟨r, .region⟩ ∈ h.blocks
  bumped : (h.chunks c).Bumped
  mapped : Mapped h.maps (chunkSpan (h.chunks c).paddr)

/-- A new descriptor of a region is on no list yet. -/
theorem Appendable.newRegion {w : World} (appendable : Appendable h c rs)
    (new : NewBlock h.toWorld w .region region) :
    Appendable { h with toWorld := w } c rs ∧ region ∉ rs := by
  obtain ⟨isChunk, list, isRegion, bumped, mapped⟩ := appendable
  have old : ∀ b ∈ h.blocks, b ∈ w.blocks := fun b member => by
    rw [new.blocks]
    exact List.mem_cons_of_mem _ member
  refine ⟨⟨old _ isChunk, list, fun r member => old _ (isRegion r member), bumped, ?_⟩, ?_⟩
  · change Mapped w.maps _
    rwa [new.maps]
  · exact fun member => new.fresh _ (isRegion region member) rfl

/-- A region that fits goes to the end of the list, and takes its bytes from the room. -/
theorem Appendable.place (appendable : Appendable h c rs) (fresh : region ∉ rs)
    (isRegion : ⟨region, .region⟩ ∈ h.blocks) (fits : size ≤ (h.chunks c).availsize)
    (placed : RegionPlaced h h' c region size ptr threadid) :
    Appendable h' c (rs ++ [region]) ∧
      (h'.chunks c).availsize = (h.chunks c).availsize - size := by
  obtain ⟨isChunk, list, wasRegion, bumped, mapped⟩ := appendable
  have ends := bumped.ends
  have word := bumped.isBase.ends
  have self : h'.chunks c = { h.chunks c with
      tail := szAdd (h.chunks c).tail size
      availsize := szSub (h.chunks c).availsize size
      regions := (qlTailInsert (qrNew h.regionsLink region) (h.chunks c).regions region).2 } := by
    rw [placed.chunks, Function.update_self]
  have tail : (h'.chunks c).tail = (h.chunks c).tail + size := by
    rw [self]
    exact szAdd_of_lt (by omega)
  have avail : (h'.chunks c).availsize = (h.chunks c).availsize - size := by
    rw [self]
    exact szSub_of_le (by omega) fits
  refine ⟨?_, avail⟩
  constructor
  case isChunk => rwa [placed.world]
  case list =>
    rw [placed.regionsLink, self]
    have kept : IsQl (qrNew h.regionsLink region) (h.chunks c).regions rs :=
      list.congr fun r member => qrNew_other (by rintro rfl; exact fresh member)
    exact kept.tailInsert fresh (h.placed.nonnull _ isRegion) fun _ => isRing_qrNew _ _
  case isRegion =>
    intro r member
    rw [placed.world]
    rcases List.mem_append.mp member with old | new
    · exact wasRegion r old
    · rwa [List.mem_singleton.mp new]
  case bumped => exact bumped.take fits (by rw [self]) tail avail
  case mapped =>
    have paddr : (h'.chunks c).paddr = (h.chunks c).paddr := by rw [self]
    rw [placed.world, paddr]
    exact mapped

/-- The place of a region that fits can be written. -/
theorem Appendable.placeRegion_failsOnly (appendable : Appendable h c rs) (fresh : region ∉ rs)
    (header : sizeofPregion ≤ size) (fits : size ≤ (h.chunks c).availsize) :
    FailsOnly admitted (placeRegion h c region size ptr threadid) := by
  obtain ⟨isChunk, list, isRegion, bumped, mapped⟩ := appendable
  have headed := bumped.headed
  have ends := bumped.ends
  have nonnull := bumped.isBase.nonnull
  have inside : (Span.mk (h.chunks c).tail sizeofPregion).Within
      (chunkSpan (h.chunks c).paddr) := by
    rw [chunkSpan, Span.within_mk]
    omega
  have appended : FailsOnly admitted (pmemAppendRegion h c size) :=
    (getChunk_failsOnly isChunk).bind fun _ _ => failsOnly_ok _
  refine appended.bind fun tail bump => ?_
  obtain ⟨chunk, read, bump⟩ := Execution.bind_eq_ok.mp bump
  obtain ⟨_, rfl⟩ := getChunk_eq_ok.mp read
  cases bump
  dsimp only
  refine .bind (storePmem_failsOnly _ (by omega) (mapped.mono inside)) fun h₂ stored => ?_
  obtain ⟨_, rfl⟩ := storePmem_eq_ok.mp stored
  refine .bind (getChunk_failsOnly isChunk) fun chunk reread => ?_
  obtain ⟨_, rfl⟩ := getChunk_eq_ok.mp reread
  refine .bind (regionsTailInsert_failsOnly ?_) fun _ _ => failsOnly_ok _
  intro n isNode
  have kept : IsQl (qrNew h.regionsLink region) (h.chunks c).regions rs :=
    list.congr fun r member => qrNew_other (by rintro rfl; exact fresh member)
  have same : ((h.putChunk c { h.chunks c with
      tail := szAdd (h.chunks c).tail size
      availsize := szSub (h.chunks c).availsize size }).chunks c).regions =
      (h.chunks c).regions := by simp [Heap.putChunk]
  have member : n ∈ rs := by
    refine kept.mem_of_qlInsertNodes ?_
    rw [← same]
    exact isNode
  exact ⟨list.nonnull n member, isRegion n member⟩

end Lsmalloc
