import Lsmalloc.Arena.Run
import Lsmalloc.Gc.Chunks

/-!
# What the collector gives back to the pool

`arena_chunk_dalloc` frees the address of the descriptor, not the address of the
chunk. So the pool of an arena is sound in every state of a run exactly when the run
has no `arena_chunk_dalloc` (`gcRun_poolSound_iff`).
-/

namespace Lsmalloc

/-- The calls that take chunks from the pool of an arena and give them back. -/
inductive GcOp
  /-- `arena_chunk_alloc`. -/
  | chunkAlloc (chunktype : ChunkType)
  /-- `gc_alloc_chunk`. -/
  | gcAllocChunk
  /-- `arena_chunk_dalloc`. -/
  | chunkDalloc (chunk : Nat)
deriving DecidableEq, Repr

/-- One call. The collector gives back chunks it has found on `avail_chunks`. -/
def ArenaState.gcStep (s : ArenaState) : GcOp → Except Fault ArenaState
  | .chunkAlloc chunktype => do
      let (_, heap, arena) ← arenaChunkAlloc s.heap s.arena chunktype
      .ok ⟨heap, arena⟩
  | .gcAllocChunk => do
      let (_, heap, arena) ← Lsmalloc.gcAllocChunk s.heap s.arena
      .ok ⟨heap, arena⟩
  | .chunkDalloc chunk =>
      if chunk ∈ s.heap.availList s.arena.availChunks then do
        let (heap, arena) ← arenaChunkDalloc s.heap s.arena chunk
        .ok ⟨heap, arena⟩
      else .error .contract

/-- An arena from `arena_new` on. -/
def gcRun (h : Heap) (arena : Arena) (ind : Nat) (ops : List GcOp) : Except Fault ArenaState := do
  let (h, arena) ← arenaNew h arena ind
  Execution.run ArenaState.gcStep ⟨h, arena⟩ ops

/-- Every address on the free ring is an aligned chunk of a mapping of the pool, and no
descriptor still listed that was made since `w₀` has it as its chunk. -/
structure PoolSound (w₀ : World) (s : ArenaState) : Prop where
  aligned : ∀ a ∈ s.arena.pool.freeAddrs, a % chunksize = 0
  mapped : ∀ a ∈ s.arena.pool.freeAddrs, ∃ base ∈ s.arena.pool.mappings,
    (chunkSpan a).Within ⟨base, pmempoolSize⟩
  unlisted : ∀ a ∈ s.arena.pool.freeAddrs,
    ∀ c ∈ s.heap.availList s.arena.availChunks ++ s.heap.availList s.arena.availSchunks,
      ⟨c, .chunk⟩ ∈ s.heap.blocks → ⟨c, .chunk⟩ ∉ w₀.blocks → (s.heap.chunks c).paddr ≠ a

variable {w₀ : World} {h h' : Heap} {arena arena' : Arena} {cs : List Nat} {c : Nat}

/-- `arena_chunk_alloc` of any type makes one descriptor. -/
theorem ChunksOut.chunkAlloc {chunktype : ChunkType} (out : ChunksOut w₀ h arena cs)
    (allocated : arenaChunkAlloc h arena chunktype = .ok (c, h', arena')) :
    ChunksOut w₀ h' arena' (c :: cs) := by
  obtain ⟨addr, effect⟩ := arenaChunkAlloc_effect allocated
  obtain ⟨garbage, chunks, _⟩ := effect.chunks
  obtain ⟨paddr, others⟩ := newChunk_paddr chunks
  exact (out.take effect.pool paddr others).1

/-- As long as every chunk of the pool is free or has its own descriptor, the pool is sound. -/
theorem ChunksOut.poolSound {s : ArenaState} (out : ChunksOut w₀ s.heap s.arena cs) :
    PoolSound w₀ s := by
  obtain ⟨free, maps, ok, _⟩ := out.pool
  have reads : s.arena.pool.freeAddrs = free := ok.ring.freeAddrs_eq
  refine ⟨?_, ?_, ?_⟩
  · intro a member
    rw [reads] at member
    exact (ok.chunk (List.mem_append_left _ member)).1.aligned
  · intro a member
    rw [reads] at member
    rw [ok.files.mappings_eq]
    exact (ok.chunk (List.mem_append_left _ member)).2
  · intro a member c _ isChunk new same
    rw [reads] at member
    have outstanding : a ∈ s.heap.paddrs cs := by
      rw [← same]
      exact List.mem_map_of_mem ((out.new c).mpr ⟨isChunk, new⟩)
    exact (List.nodup_append.mp ok.nodup).2.2 a member a outstanding rfl

/-- A descriptor's address on the free ring is inside no mapping of the pool. -/
theorem ChunksOut.not_poolSound {s s' : ArenaState} (out : ChunksOut w₀ s.heap s.arena cs)
    (freed : arenaChunkDalloc s.heap s.arena c = .ok (s'.heap, s'.arena)) : ¬ PoolSound w₀ s' := by
  obtain ⟨free, maps, ok, _⟩ := out.pool
  obtain ⟨nonnull, isChunk, _, arena⟩ := arenaChunkDalloc_effect freed
  have pool : s'.arena.pool = pmempoolFree s.arena.pool c := by rw [arena]
  have onRing : c ∈ s'.arena.pool.freeAddrs := by
    rw [pool, (ok.ring.free nonnull).freeAddrs_eq]
    simp
  have sameMaps : s'.arena.pool.mappings = maps := by
    rw [pool]
    exact (ok.files.of_fields rfl rfl rfl rfl).mappings_eq
  intro sound
  obtain ⟨base, inMaps, within⟩ := sound.mapped c onRing
  rw [sameMaps] at inMaps
  -- The descriptor would lie in PMEM and in DRAM.
  have mapped := (ok.mapped base inMaps).mono within
  exact mapped.ne_block (by decide : 0 < chunksize) isChunk rfl

/-- **Reclaiming a chunk corrupts the pool.** In every state of a run the pool is sound if
and only if the run gives no chunk back through `arena_chunk_dalloc`. -/
theorem gcRun_poolSound_iff {h : Heap} {arena : Arena} {ind : Nat} {ops : List GcOp}
    {s : ArenaState} (reached : gcRun h arena ind ops = .ok s) :
    (∀ before after s', ops = before ++ after → gcRun h arena ind before = .ok s' →
        PoolSound h.toWorld s') ↔
      ∀ c, .chunkDalloc c ∉ ops := by
  obtain ⟨⟨h₁, arena₁⟩, made, ran⟩ := Execution.bind_eq_ok.mp reached
  have sameRun : ∀ before s', gcRun h arena ind before = .ok s' ↔
      Execution.run ArenaState.gcStep ⟨h₁, arena₁⟩ before = .ok s' := by
    intro before s'
    unfold gcRun
    rw [made]
    rfl
  simp only [sameRun]
  have admitted : (∀ c, GcOp.chunkDalloc c ∉ ops) ↔ ∀ op ∈ ops, ∀ c, op ≠ .chunkDalloc c :=
    ⟨fun none op member c same => none c (same ▸ member),
      fun all c member => all _ member c rfl⟩
  rw [admitted]
  obtain ⟨start, _⟩ := arenaNew_chunks made
  have kept : ∀ s op s', (∃ cs, ChunksOut h.toWorld (ArenaState.heap s) s.arena cs) →
      (∀ c, op ≠ GcOp.chunkDalloc c) → s.gcStep op = .ok s' →
      ∃ cs, ChunksOut h.toWorld s'.heap s'.arena cs := by
    rintro s op s' ⟨cs, out⟩ notDalloc stepped
    cases op with
    | chunkAlloc chunktype =>
        obtain ⟨⟨c, heap, arena⟩, allocated, stepped⟩ := Execution.bind_eq_ok.mp stepped
        cases stepped
        exact ⟨c :: cs, out.chunkAlloc allocated⟩
    | gcAllocChunk =>
        obtain ⟨⟨c, heap, arena⟩, allocated, stepped⟩ := Execution.bind_eq_ok.mp stepped
        cases stepped
        exact ⟨c :: cs, (out.gcAlloc allocated).1⟩
    | chunkDalloc c => exact absurd rfl (notDalloc c)
  have broken : ∀ s op s', (∃ cs, ChunksOut h.toWorld (ArenaState.heap s) s.arena cs) →
      ¬ (∀ c, op ≠ GcOp.chunkDalloc c) → s.gcStep op = .ok s' → ¬ PoolSound h.toWorld s' := by
    rintro s op s' ⟨cs, out⟩ isDalloc stepped
    cases op with
    | chunkAlloc chunktype => exact absurd nofun isDalloc
    | gcAllocChunk => exact absurd nofun isDalloc
    | chunkDalloc c =>
        simp only [ArenaState.gcStep] at stepped
        split at stepped
        · obtain ⟨⟨heap, arena⟩, freed, stepped⟩ := Execution.bind_eq_ok.mp stepped
          cases stepped
          exact out.not_poolSound freed
        · cases stepped
  exact Execution.along_iff_admitted kept (fun _ ⟨_, out⟩ => out.poolSound) broken
    ⟨_, start.out⟩ ran

/-- A run that takes a log chunk and a GC chunk. -/
theorem gcRun_poolSound_of_allocs :
    ∃ s, gcRun (.fresh [chunksize] [1024, 2048]) .zeroed 0 [.chunkAlloc .log, .gcAllocChunk] =
        .ok s ∧
      ((∀ before after s', [GcOp.chunkAlloc .log, .gcAllocChunk] = before ++ after →
          gcRun (.fresh [chunksize] [1024, 2048]) .zeroed 0 before = .ok s' →
          PoolSound (World.fresh [chunksize] [1024, 2048]) s') ↔
        ∀ c, .chunkDalloc c ∉ [GcOp.chunkAlloc .log, .gcAllocChunk]) := by
  obtain ⟨s, reached⟩ : ∃ s, gcRun (.fresh [chunksize] [1024, 2048]) .zeroed 0
      [.chunkAlloc .log, .gcAllocChunk] = .ok s := Execution.exists_eq_ok (by decide +kernel)
  exact ⟨s, reached, gcRun_poolSound_iff reached⟩

/-- The chunk at `chunksize` is reclaimed, and `1024`, where its descriptor is, is free. -/
theorem not_poolSound_of_dalloc :
    ∃ s, gcRun (.fresh [chunksize] [1024]) .zeroed 0 [.chunkAlloc .log, .chunkDalloc 1024] =
        .ok s ∧ (s.heap.chunks 1024).paddr = chunksize ∧
      1024 ∈ s.arena.pool.freeAddrs ∧ chunksize ∉ s.arena.pool.freeAddrs ∧
      ¬ PoolSound (World.fresh [chunksize] [1024]) s := by
  obtain ⟨s, reached, paddr, wrong, missing⟩ : ∃ s, gcRun (.fresh [chunksize] [1024]) .zeroed 0
      [.chunkAlloc .log, .chunkDalloc 1024] = .ok s ∧ (s.heap.chunks 1024).paddr = chunksize ∧
      1024 ∈ s.arena.pool.freeAddrs ∧ chunksize ∉ s.arena.pool.freeAddrs :=
    Execution.exists_eq_ok_and (by decide +kernel)
  refine ⟨s, reached, paddr, wrong, missing, ?_⟩
  intro sound
  have aligned := sound.aligned 1024 wrong
  rw [chunksize_eq] at aligned
  omega

end Lsmalloc
