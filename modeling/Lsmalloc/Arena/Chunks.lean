import Lsmalloc.Arena.Effects

/-!
# The chunks of an arena

`ChunksOut` ties the descriptors an arena has made to the chunks its pool has handed
out, one for one. `ChunksOk` adds that the two queues of the arena are rings that hold
exactly these descriptors. Every allocation and every free keeps both, whatever sizes
are asked for, as the descriptors lie in DRAM and PMEM stores do not reach them.
-/

namespace Lsmalloc

/-- What was mapped before is still mapped, clear of the pool's mappings. -/
def Clear (w₀ w : World) (maps : List Nat) : Prop :=
  ∀ r : Span, 0 < r.len → Mapped w₀.maps r →
    Mapped w.maps r ∧ ∀ base ∈ maps, r.Apart ⟨base, pmempoolSize⟩

/-- The addresses of the chunks behind the descriptors. -/
def Heap.paddrs (h : Heap) (cs : List Nat) : List Nat := cs.map fun c => (h.chunks c).paddr

/-- `cs` are the descriptors made since `w₀`, and their chunks those the pool handed out. -/
structure ChunksOut (w₀ : World) (h : Heap) (arena : Arena) (cs : List Nat) : Prop where
  pool : ∃ free maps, PoolOk h.toWorld arena.pool free maps (h.paddrs cs) ∧
    Clear w₀ h.toWorld maps
  old : ∀ b ∈ w₀.blocks, b ∈ h.blocks
  new : ∀ c, c ∈ cs ↔ ⟨c, .chunk⟩ ∈ h.blocks ∧ ⟨c, .chunk⟩ ∉ w₀.blocks
  distinct : cs.Nodup

/-- The queues of the arena hold exactly the descriptors made since `w₀`. -/
structure ChunksOk (w₀ : World) (h : Heap) (arena : Arena) (logs slabs : List Nat) : Prop where
  out : ChunksOut w₀ h arena (logs ++ slabs)
  logRing : IsQl h.availLink arena.availChunks logs
  slabRing : IsQl h.availLink arena.availSchunks slabs

/-- A step that neither makes a descriptor nor touches the list fields of one. -/
structure SameChunks (h h' : Heap) : Prop where
  maps : h'.maps = h.maps
  old : ∀ b ∈ h.blocks, b ∈ h'.blocks
  blocks : ∀ c, ⟨c, .chunk⟩ ∈ h'.blocks → ⟨c, .chunk⟩ ∈ h.blocks
  paddr : ∀ c, (h'.chunks c).paddr = (h.chunks c).paddr
  availLink : h'.availLink = h.availLink

/-- The descriptors on the queue that `first` heads, in order. -/
def Heap.availList (h : Heap) (first : Nat) : List Nat :=
  if first = 0 then [] else h.availLink.walk first h.blocks.length

variable {w₀ : World} {h h' : Heap} {arena arena' : Arena} {cs logs slabs : List Nat} {c addr : Nat}

/-- Distinct objects of one type are no more than all objects. -/
theorem length_le_blocks {object : Object} {ps : List Nat} (distinct : ps.Nodup)
    (isBlock : ∀ p ∈ ps, ⟨p, object⟩ ∈ h.blocks) : ps.length ≤ h.blocks.length := by
  have inBlocks : (ps.map fun p => (⟨p, object⟩ : Block)) ⊆ h.blocks := by
    intro b member
    obtain ⟨p, inPs, rfl⟩ := List.mem_map.mp member
    exact isBlock p inPs
  have distinctBlocks : (ps.map fun p => (⟨p, object⟩ : Block)).Nodup :=
    distinct.map_on fun x _ y _ same => congrArg Block.addr same
  simpa using (List.Nodup.subperm distinctBlocks inBlocks).length_le

/-- Walking a well-formed queue of live objects reads its elements. -/
theorem IsQl.walk_blocks {links : Links Nat} {first : Nat} {elms : List Nat} {object : Object}
    (ql : IsQl links first elms) (isBlock : ∀ p ∈ elms, ⟨p, object⟩ ∈ h.blocks) :
    (if first = 0 then [] else links.walk first h.blocks.length) = elms := by
  have enough := length_le_blocks ql.nodup isBlock
  split
  · rename_i empty
    exact (ql.first_eq_zero_iff.mp empty).symm
  · rename_i present
    cases elms with
    | nil => exact absurd ql.first_eq present
    | cons a rest =>
        have entry : first = a := ql.first_eq
        rw [entry]
        refine (ql.ring (by simp)).walk_eq ?_
        simp only [List.length_cons] at enough
        omega

theorem SameChunks.paddrs (same : SameChunks h h') (cs : List Nat) : h'.paddrs cs = h.paddrs cs :=
  List.map_congr_left fun c _ => same.paddr c

theorem SameChunks.trans {h'' : Heap} (first : SameChunks h h') (second : SameChunks h' h'') :
    SameChunks h h'' where
  maps := second.maps.trans first.maps
  old b member := second.old b (first.old b member)
  blocks c member := first.blocks c (second.blocks c member)
  paddr c := (second.paddr c).trans (first.paddr c)
  availLink := second.availLink.trans first.availLink

/-! ## Steps that leave the chunks alone -/

theorem SameChunks.newBlock {w : World} {object : Object} {p : Nat}
    (new : NewBlock h.toWorld w object p) (other : object ≠ .chunk) :
    SameChunks h { h with toWorld := w } where
  maps := new.maps
  old b member := by
    change b ∈ w.blocks
    rw [new.blocks]
    exact List.mem_cons_of_mem _ member
  blocks c member := by
    change (⟨c, .chunk⟩ : Block) ∈ w.blocks at member
    rw [new.blocks] at member
    rcases List.mem_cons.mp member with same | old
    · exact absurd (congrArg Block.object same).symm other
    · exact old
  paddr _ := rfl
  availLink := rfl

/-- Fields of a descriptor other than `paddr` change. -/
theorem SameChunks.of_update {p : Nat} {chunk : Chunk} (world : h'.toWorld = h.toWorld)
    (chunks : h'.chunks = Function.update h.chunks p chunk)
    (paddr : chunk.paddr = (h.chunks p).paddr) (availLink : h'.availLink = h.availLink) :
    SameChunks h h' where
  maps := by rw [world]
  old b member := by rwa [world]
  blocks c member := by rwa [world] at member
  paddr c := by
    rw [chunks]
    by_cases same : c = p
    · rw [same, Function.update_self, paddr]
    · rw [Function.update_of_ne same]
  availLink := availLink

/-- No descriptor changes. -/
theorem SameChunks.of_chunks (world : h'.toWorld = h.toWorld) (chunks : h'.chunks = h.chunks)
    (availLink : h'.availLink = h.availLink) : SameChunks h h' :=
  .of_update (p := 0) world (by rw [chunks, Function.update_eq_self]) rfl availLink

theorem SameChunks.retire (h : Heap) (p : Nat) :
    SameChunks h (h.putChunk p { h.chunks p with live := false }) :=
  .of_update rfl rfl rfl rfl

theorem RegionPlaced.sameChunks {region size ptr threadid : Nat}
    (placed : RegionPlaced h h' c region size ptr threadid) : SameChunks h h' :=
  .of_update placed.world placed.chunks rfl placed.availLink

theorem RegionFreed.sameChunks {region : Nat} (freed : RegionFreed h h' c region) :
    SameChunks h h' :=
  .of_update freed.world freed.chunks rfl freed.availLink

theorem SregionCarved.sameChunks {sregion size ptr : Nat}
    (carved : SregionCarved h h' c sregion size ptr) : SameChunks h h' :=
  .of_update carved.world carved.chunks rfl carved.availLink

theorem SlabCarved.sameChunks {sregion size ptr : Nat}
    (carved : SlabCarved h h' sregion size ptr) : SameChunks h h' :=
  .of_chunks carved.world carved.chunks carved.availLink

theorem PmemOnly.sameChunks (only : PmemOnly h h') : SameChunks h h' :=
  .of_chunks only.world only.chunks only.availLink

theorem ChunksOut.of_same (out : ChunksOut w₀ h arena cs) (same : SameChunks h h')
    (pool : arena'.pool = arena.pool) : ChunksOut w₀ h' arena' cs where
  pool := by
    obtain ⟨free, maps, ok, clear⟩ := out.pool
    refine ⟨free, maps, ?_, ?_⟩
    · rw [same.paddrs, pool]
      exact ok.of_maps same.maps
    · intro r nonempty mapped
      rw [same.maps]
      exact clear r nonempty mapped
  old b member := same.old b (out.old b member)
  new c := by
    rw [out.new c]
    exact ⟨fun ⟨here, new⟩ => ⟨same.old _ here, new⟩, fun ⟨here, new⟩ => ⟨same.blocks c here, new⟩⟩
  distinct := out.distinct

theorem ChunksOk.of_same (ok : ChunksOk w₀ h arena logs slabs) (same : SameChunks h h')
    (pool : arena'.pool = arena.pool) (availChunks : arena'.availChunks = arena.availChunks)
    (availSchunks : arena'.availSchunks = arena.availSchunks) :
    ChunksOk w₀ h' arena' logs slabs where
  out := ok.out.of_same same pool
  logRing := by rw [same.availLink, availChunks]; exact ok.logRing
  slabRing := by rw [same.availLink, availSchunks]; exact ok.slabRing

/-- Both queues read back as they are. -/
theorem ChunksOk.availList_eq (ok : ChunksOk w₀ h arena logs slabs) :
    h.availList arena.availChunks = logs ∧ h.availList arena.availSchunks = slabs := by
  have isChunk : ∀ c ∈ logs ++ slabs, ⟨c, .chunk⟩ ∈ h.blocks := fun c member =>
    ((ok.out.new c).mp member).1
  exact ⟨ok.logRing.walk_blocks fun c member => isChunk c (List.mem_append_left _ member),
    ok.slabRing.walk_blocks fun c member => isChunk c (List.mem_append_right _ member)⟩

/-! ## A new chunk -/

theorem ChunksOut.of_perm {cs' : List Nat} (out : ChunksOut w₀ h arena cs) (perm : cs.Perm cs') :
    ChunksOut w₀ h arena cs' where
  pool := by
    obtain ⟨free, maps, ok, clear⟩ := out.pool
    exact ⟨free, maps, ok.of_perm (perm.map _), clear⟩
  old := out.old
  new c := by rw [← perm.mem_iff, out.new c]
  distinct := perm.nodup out.distinct

/-- The chunks an arena has are aligned, mapped, and clear of what was mapped before. -/
theorem ChunksOut.chunk (out : ChunksOut w₀ h arena cs) (member : c ∈ cs) :
    IsBase (h.chunks c).paddr chunksize ∧ Mapped h.maps (chunkSpan (h.chunks c).paddr) ∧
      ∀ r : Span, 0 < r.len → Mapped w₀.maps r → r.Apart (chunkSpan (h.chunks c).paddr) := by
  obtain ⟨free, maps, ok, clear⟩ := out.pool
  have outstanding : (h.chunks c).paddr ∈ free ++ h.paddrs cs :=
    List.mem_append_right _ (List.mem_map_of_mem member)
  obtain ⟨isBase, base, inMaps, within⟩ := ok.chunk outstanding
  refine ⟨isBase, ok.chunk_mapped outstanding, ?_⟩
  intro r nonempty mapped
  exact (((clear r nonempty mapped).2 base inMaps).symm.mono within).symm

/-- Different descriptors have different chunks. -/
theorem ChunksOut.paddr_inj (out : ChunksOut w₀ h arena cs) {d : Nat} (member : c ∈ cs)
    (member' : d ∈ cs) (same : (h.chunks c).paddr = (h.chunks d).paddr) : c = d := by
  obtain ⟨free, maps, ok, _⟩ := out.pool
  have distinct : (h.paddrs cs).Nodup := (List.nodup_append.mp ok.nodup).2.1
  exact List.inj_on_of_nodup_map distinct member member' same

/-- No descriptor of the arena is a new one. -/
theorem ChunksOut.not_mem (out : ChunksOut w₀ h arena cs) (fresh : ∀ b ∈ h.blocks, b.addr ≠ c) :
    c ∉ cs := fun member => fresh ⟨c, .chunk⟩ ((out.new c).mp member).1 rfl

/-- A chunk taken from the pool for a new descriptor. -/
theorem ChunksOut.take (out : ChunksOut w₀ h arena cs)
    (taken : ∃ w, pmempoolChunkAlloc h.toWorld arena.pool = .ok (addr, w, arena'.pool) ∧
      NewBlock w h'.toWorld .chunk c)
    (paddr : (h'.chunks c).paddr = addr)
    (others : ∀ d, d ≠ c → (h'.chunks d).paddr = (h.chunks d).paddr) :
    ChunksOut w₀ h' arena' (c :: cs) ∧ (∀ b ∈ h.blocks, b.addr ≠ c) ∧
      h'.blocks = ⟨c, .chunk⟩ :: h.blocks := by
  obtain ⟨later, fresh, _⟩ := chunkTaken_objects taken
  obtain ⟨free, maps, ok, clear⟩ := out.pool
  obtain ⟨w, allocated, new⟩ := taken
  -- Whether or not the pool grew, it now has one chunk more outstanding.
  obtain ⟨rest, maps', kept, stillClear⟩ : ∃ rest maps',
      PoolOk w arena'.pool rest maps' (addr :: h.paddrs cs) ∧ Clear w₀ w maps' := by
    rcases ok.chunkAlloc allocated with ⟨rest, _, rfl, kept⟩ | ⟨base, rest, _, _, grows, kept⟩
    · exact ⟨rest, maps, kept, clear⟩
    · refine ⟨rest, base :: maps, kept, ?_⟩
      intro r nonempty mapped
      obtain ⟨still, apart⟩ := clear r nonempty mapped
      obtain ⟨now, clearNew⟩ := grows.keeps r nonempty still
      exact ⟨now, List.forall_mem_cons.mpr ⟨clearNew, apart⟩⟩
  have notOld : c ∉ cs := out.not_mem fresh
  have inLater : ∀ b ∈ h.blocks, b ∈ h'.blocks := by
    intro b member
    rw [later]
    exact List.mem_cons_of_mem _ member
  have reads : h'.paddrs (c :: cs) = addr :: h.paddrs cs := by
    change (h'.chunks c).paddr :: h'.paddrs cs = _
    rw [paddr]
    congr 1
    exact List.map_congr_left fun d member => others d (by rintro rfl; exact notOld member)
  refine ⟨⟨⟨rest, maps', ?_, ?_⟩, fun b member => inLater b (out.old b member), ?_, ?_⟩, fresh,
    later⟩
  · rw [reads]
    exact kept.of_maps new.maps
  · intro r nonempty mapped
    rw [new.maps]
    exact stillClear r nonempty mapped
  · intro d
    rw [later, List.mem_cons, List.mem_cons, out.new d, Block.mk.injEq]
    constructor
    · rintro (rfl | ⟨here, isNew⟩)
      · exact ⟨.inl ⟨rfl, rfl⟩, fun isOld => fresh _ (out.old _ isOld) rfl⟩
      · exact ⟨.inr here, isNew⟩
    · rintro ⟨⟨rfl, _⟩ | here, isNew⟩
      · exact .inl rfl
      · exact .inr ⟨here, isNew⟩
  · exact List.nodup_cons.mpr ⟨notOld, out.distinct⟩

/-- What `newChunk` sets of every other descriptor: nothing. -/
theorem newChunk_paddr {garbage : Chunk} {ind : Nat} {chunktype : ChunkType} {live : Bool}
    (chunks : h'.chunks = Function.update h.chunks c (newChunk garbage addr ind chunktype live)) :
    (h'.chunks c).paddr = addr ∧ ∀ d, d ≠ c → (h'.chunks d).paddr = (h.chunks d).paddr := by
  rw [chunks]
  refine ⟨by rw [Function.update_self]; rfl, ?_⟩
  intro d other
  rw [Function.update_of_ne other]

/-- Inserting a self-linked descriptor at the head of one queue of two. -/
theorem IsQl.headInsert_new {links : Links Nat} {first other : Nat} {elms others : List Nat}
    (ql : IsQl links first elms) (ql' : IsQl links other others) (fresh : c ∉ elms)
    (fresh' : c ∉ others) (nonnull : c ≠ 0) (apart : ∀ x ∈ others, x ∉ elms) :
    IsQl (qlHeadInsert (qrNew links c) first c).1 (qlHeadInsert (qrNew links c) first c).2
        (c :: elms) ∧
      IsQl (qlHeadInsert (qrNew links c) first c).1 other others := by
  have kept : IsQl (qrNew links c) first elms :=
    ql.congr fun x member => qrNew_other (by rintro rfl; exact fresh member)
  have kept' : IsQl (qrNew links c) other others :=
    ql'.congr fun x member => qrNew_other (by rintro rfl; exact fresh' member)
  refine ⟨kept.headInsert fresh nonnull (isRing_qrNew links c), ?_⟩
  exact kept'.congr fun x member =>
    kept.headInsert_other (apart x member) (by rintro rfl; exact fresh' member)

/-- `arena_chunk_alloc` of a log chunk puts it first on `avail_chunks`. -/
theorem ChunksOk.allocLog (ok : ChunksOk w₀ h arena logs slabs)
    (allocated : ChunkAllocated h h' arena arena' .log c addr) :
    ChunksOk w₀ h' arena' (c :: logs) slabs := by
  obtain ⟨garbage, chunks, _⟩ := allocated.chunks
  obtain ⟨paddr, others⟩ := newChunk_paddr chunks
  obtain ⟨out, fresh, _⟩ := ok.out.take allocated.pool paddr others
  obtain ⟨sameSchunks, link, first⟩ := allocated.log rfl
  have nonnull := (chunkTaken_objects allocated.pool).2.2
  have absent := ok.out.not_mem fresh
  have apart := (List.nodup_append.mp ok.out.distinct).2.2
  simp only [List.mem_append, not_or] at absent
  obtain ⟨logRing, slabRing⟩ := ok.logRing.headInsert_new ok.slabRing absent.1 absent.2 nonnull
    fun x inSlabs inLogs => apart x inLogs x inSlabs rfl
  refine ⟨by simpa using out, ?_, ?_⟩
  · rw [link, first]
    exact logRing
  · rw [link, sameSchunks]
    exact slabRing

/-- `arena_chunk_alloc` of a slab chunk puts it first on `avail_schunks`. -/
theorem ChunksOk.allocSlab (ok : ChunksOk w₀ h arena logs slabs)
    (allocated : ChunkAllocated h h' arena arena' .slab c addr) :
    ChunksOk w₀ h' arena' logs (c :: slabs) := by
  obtain ⟨garbage, chunks, _⟩ := allocated.chunks
  obtain ⟨paddr, others⟩ := newChunk_paddr chunks
  obtain ⟨out, fresh, _⟩ := ok.out.take allocated.pool paddr others
  obtain ⟨sameChunks, link, first⟩ := allocated.slab (by decide)
  have nonnull := (chunkTaken_objects allocated.pool).2.2
  have absent := ok.out.not_mem fresh
  have apart := (List.nodup_append.mp ok.out.distinct).2.2
  simp only [List.mem_append, not_or] at absent
  obtain ⟨slabRing, logRing⟩ := ok.slabRing.headInsert_new ok.logRing absent.2 absent.1 nonnull
    fun x inLogs inSlabs => apart x inLogs x inSlabs rfl
  refine ⟨out.of_perm List.perm_middle.symm, ?_, ?_⟩
  · rw [link, sameChunks]
    exact logRing
  · rw [link, first]
    exact slabRing

/-- The pool never asks for a collection. -/
theorem ChunksOk.tpool {chunktype : ChunkType} (ok : ChunksOk w₀ h' arena' logs slabs)
    (allocated : ChunkAllocated h h' arena arena' chunktype c addr) : h'.tpool = h.tpool := by
  obtain ⟨free, maps, pool, _⟩ := ok.out.pool
  rw [allocated.tpool]
  exact pool.maybeGc_eq _ _

/-! ## The calls -/

theorem ChunksOk.regionChunk {size : Nat} (ok : ChunksOk w₀ h arena logs slabs)
    (chosen : regionChunk h arena size = .ok (c, h', arena')) :
    ∃ logs', ChunksOk w₀ h' arena' logs' slabs ∧ logs <:+ logs' ∧ h'.tpool = h.tpool := by
  rcases regionChunk_effect chosen with ⟨rfl, rfl, _⟩ | ⟨_, _, addr, allocated⟩
  · exact ⟨logs, ok, List.suffix_refl _, rfl⟩
  · have retired := ok.of_same (SameChunks.retire h arena.availChunks) rfl rfl rfl
    have later := retired.allocLog allocated
    exact ⟨c :: logs, later, List.suffix_cons _ _, (later.tpool allocated).trans rfl⟩

theorem ChunksOk.sregionChunk (ok : ChunksOk w₀ h arena logs slabs)
    (chosen : sregionChunk h arena = .ok (c, h', arena')) :
    ∃ slabs', ChunksOk w₀ h' arena' logs slabs' ∧ slabs <:+ slabs' ∧ h'.tpool = h.tpool := by
  rcases sregionChunk_effect chosen with ⟨rfl, rfl, _⟩ | ⟨addr, allocated⟩
  · exact ⟨slabs, ok, List.suffix_refl _, rfl⟩
  · have later := ok.allocSlab allocated
    exact ⟨c :: slabs, later, List.suffix_cons _ _, later.tpool allocated⟩

/-- `arena_region_alloc` at most adds a log chunk. -/
theorem ChunksOk.arenaRegionAlloc {size ptr threadid ret : Nat}
    (ok : ChunksOk w₀ h arena logs slabs)
    (allocated : arenaRegionAlloc h arena size ptr threadid = .ok (ret, h', arena')) :
    ∃ logs', ChunksOk w₀ h' arena' logs' slabs ∧ logs <:+ logs' ∧ h'.tpool = h.tpool := by
  obtain ⟨region, w, c, h₁, new, chosen, placed, _⟩ := arenaRegionAlloc_effect allocated
  have first : ChunksOk w₀ { h with toWorld := w } arena logs slabs :=
    ok.of_same (SameChunks.newBlock new (by decide)) rfl rfl rfl
  obtain ⟨logs', second, grown, tpool⟩ := first.regionChunk chosen
  exact ⟨logs', second.of_same placed.sameChunks rfl rfl rfl, grown, placed.tpool.trans tpool⟩

/-- `arena_malloc_small_hard` at most adds a slab chunk. -/
theorem ChunksOk.arenaMallocSmallHard {size ptr cls ret : Nat}
    (ok : ChunksOk w₀ h arena logs slabs)
    (allocated : arenaMallocSmallHard h arena size ptr cls = .ok (ret, h', arena')) :
    ∃ slabs', ChunksOk w₀ h' arena' logs slabs' ∧ slabs <:+ slabs' ∧ h'.tpool = h.tpool := by
  obtain ⟨sregion, w, c, h₁, arena₁, new, chosen, carved, _, rfl⟩ :=
    arenaMallocSmallHard_effect allocated
  have first : ChunksOk w₀ { h with toWorld := w } arena logs slabs :=
    ok.of_same (SameChunks.newBlock new (by decide)) rfl rfl rfl
  obtain ⟨slabs', second, grown, tpool⟩ := first.sregionChunk chosen
  exact ⟨slabs', second.of_same carved.sameChunks rfl rfl rfl, grown, carved.tpool.trans tpool⟩

/-- `arena_malloc` at most adds a chunk at the head of a queue, and asks for no collection. -/
theorem ChunksOk.arenaMalloc {size ptr threadid ret : Nat} (ok : ChunksOk w₀ h arena logs slabs)
    (allocated : arenaMalloc h arena size ptr threadid = .ok (ret, h', arena')) :
    ∃ logs' slabs', ChunksOk w₀ h' arena' logs' slabs' ∧ logs <:+ logs' ∧ slabs <:+ slabs' ∧
      h'.tpool = h.tpool := by
  unfold Lsmalloc.arenaMalloc at allocated
  split at allocated
  · rcases arenaMallocSmall_effect allocated with ⟨rfl, _, carved, _⟩ | hard
    · exact ⟨logs, slabs, ok.of_same carved.sameChunks rfl rfl rfl, List.suffix_refl _,
        List.suffix_refl _, carved.tpool⟩
    · obtain ⟨slabs', kept, grown, tpool⟩ := ok.arenaMallocSmallHard hard
      exact ⟨logs, slabs', kept, List.suffix_refl _, grown, tpool⟩
  · obtain ⟨logs', kept, grown, tpool⟩ := ok.arenaRegionAlloc allocated
    exact ⟨logs', slabs, kept, grown, List.suffix_refl _, tpool⟩

end Lsmalloc
