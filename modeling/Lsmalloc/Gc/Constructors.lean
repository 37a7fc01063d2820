import Lsmalloc.Arena.Progress
import Lsmalloc.Gc.PoolSound

/-!
# The two constructors of chunks

`arena_chunk_alloc` empties the list of regions of its descriptor and links the descriptor to
itself before it inserts it. `gc_alloc_chunk` is a copy of it that does neither, so there the
two are what `malloc` returned. The constructors agree exactly when `malloc` happens to
return what the second one leaves out (`chunkConstructors_agree_iff`).
-/

namespace Lsmalloc

open Execution

variable {h h' : Heap} {arena arena' : Arena} {elms rs : List Nat} {c : Nat}

/-- What a constructor is to leave of its chunk and of `avail_chunks`. -/
structure Constructed (h : Heap) (arena : Arena) (c : Nat) (queue : List Nat) : Prop where
  isChunk : ⟨c, .chunk⟩ ∈ h.blocks
  regions : IsQl h.regionsLink (h.chunks c).regions []
  tail : (h.chunks c).tail = szAdd (h.chunks c).paddr sizeofPchunk
  availsize : (h.chunks c).availsize = szSub chunksize sizeofPchunk
  dirtysize : (h.chunks c).dirtysize = 0
  header : h.pmem.loadWord (h.chunks c).paddr sizeofPchunk = c
  gcing : (h.chunks c).gcing = false
  queue : IsQl h.availLink arena.availChunks queue

/-- What `gc_alloc_chunk` leaves out is there in the memory that `malloc` is to return: an
empty list of regions and, for an empty `avail_chunks`, a descriptor linked to itself. -/
def Prepared (h : Heap) (elms : List Nat) : Prop :=
  ∀ c ∈ h.mallocAnswers.head?, (h.chunks c).regions = 0 ∧
    (elms = [] → h.availLink.next c = c ∧ h.availLink.prev c = c)

/-- A request for a region. -/
structure RegionRequest where
  size : Nat
  ptr : Nat
  threadid : Nat
deriving DecidableEq, Repr

/-- A region append: what `arena_region_alloc` and `gc_region_migration` do with a chunk. -/
def appendRegion (c : Nat) (h : Heap) (request : RegionRequest) : Except Fault Heap := do
  let (region, w) ← malloc h.toWorld .region
  let (_, h) ← placeRegion { h with toWorld := w } c region request.size request.ptr
    request.threadid
  .ok h

/-- Any appends for which the chunk has the room get through, and list a region each. -/
def Appends (h : Heap) (c : Nat) : Prop :=
  ∀ requests : List RegionRequest, (∀ r ∈ requests, sizeofPregion ≤ r.size) →
    (requests.map RegionRequest.size).sum ≤ (h.chunks c).availsize →
    Delivers Fault.FromEnvironment
      (fun h' => ∃ rs, IsQl h'.regionsLink (h'.chunks c).regions rs ∧ rs.length = requests.length)
      (run (appendRegion c) h requests)

/-! ## Appends -/

/-- A region that fits is appended. -/
theorem Appendable.append (appendable : Appendable h c rs) {request : RegionRequest}
    (header : sizeofPregion ≤ request.size) (fits : request.size ≤ (h.chunks c).availsize) :
    Delivers Fault.FromEnvironment
      (fun h' => ∃ region, Appendable h' c (rs ++ [region]) ∧
        (h'.chunks c).availsize = (h.chunks c).availsize - request.size)
      (appendRegion c h request) := by
  constructor
  · refine (malloc_failsOnly _ _).bind fun ⟨region, w⟩ allocated => ?_
    obtain ⟨kept, fresh⟩ := appendable.newRegion (malloc_newBlock allocated)
    exact .bind (kept.placeRegion_failsOnly fresh header fits) fun _ _ => failsOnly_ok _
  · intro h' appended
    obtain ⟨⟨region, w⟩, allocated, appended⟩ := bind_eq_ok.mp appended
    obtain ⟨⟨paddr, h₁⟩, placed, appended⟩ := bind_eq_ok.mp appended
    cases appended
    have new := malloc_newBlock allocated
    obtain ⟨kept, fresh⟩ := appendable.newRegion new
    have isRegion : ⟨region, .region⟩ ∈ w.blocks := by
      rw [new.blocks]
      exact List.mem_cons_self
    exact ⟨region, kept.place fresh isRegion fits (placeRegion_effect placed).2⟩

/-- So are any that fit together. -/
theorem Appendable.appends (appendable : Appendable h c rs) (requests : List RegionRequest)
    (headers : ∀ r ∈ requests, sizeofPregion ≤ r.size)
    (fit : (requests.map RegionRequest.size).sum ≤ (h.chunks c).availsize) :
    Delivers Fault.FromEnvironment
      (fun h' => ∃ added, Appendable h' c (rs ++ added) ∧ added.length = requests.length)
      (run (appendRegion c) h requests) := by
  induction requests generalizing h rs with
  | nil => exact delivers_ok ⟨[], by simpa using appendable, rfl⟩
  | cons request requests ih =>
      rw [List.map_cons, List.sum_cons] at fit
      have first := appendable.append (headers request List.mem_cons_self) (by omega)
      refine first.bind fun h₁ ⟨region, kept, avail⟩ => ?_
      have rest := ih kept (fun r member => headers r (List.mem_cons_of_mem _ member))
        (by omega)
      refine rest.mono (fun _ cause => cause) fun h₂ ⟨added, still, length⟩ => ?_
      refine ⟨region :: added, by simpa using still, ?_⟩
      rw [List.length_cons, List.length_cons, length]

/-- A chunk that is constructed, in a room that is mapped, can be appended to. -/
theorem Constructed.appends {queue : List Nat} (built : Constructed h arena c queue)
    (isBase : IsBase (h.chunks c).paddr chunksize)
    (mapped : Mapped h.maps (chunkSpan (h.chunks c).paddr)) : Appends h c := by
  have bumped : (h.chunks c).Bumped := by
    obtain ⟨fresh, room⟩ := newChunk_bumped isBase (h.chunks c) 0 .gc false
    refine ⟨isBase, ?_, ?_⟩
    · rw [built.tail]
      exact fresh.headed
    · rw [built.tail, built.availsize]
      exact fresh.ends
  have appendable : Appendable h c [] :=
    ⟨built.isChunk, built.regions, by simp, bumped, mapped⟩
  intro requests headers fit
  refine (appendable.appends requests headers fit).mono (fun _ cause => cause) ?_
  rintro h' ⟨added, still, length⟩
  exact ⟨added, still.list, length⟩

/-! ## The constructors -/

/-- The fields both constructors set. -/
theorem Constructed.of_newChunk {garbage : Chunk} {addr ind : Nat} {chunktype : ChunkType}
    {live : Bool} {queue : List Nat}
    (chunks : h'.chunks = Function.update h.chunks c (newChunk garbage addr ind chunktype live))
    (pmem : h'.pmem = h.pmem.storeWord addr sizeofPchunk c) (isChunk : ⟨c, .chunk⟩ ∈ h'.blocks)
    (empty : garbage.regions = 0) (ring : IsQl h'.availLink arena'.availChunks queue) :
    Constructed h' arena' c queue := by
  have self : h'.chunks c = newChunk garbage addr ind chunktype live := by
    rw [chunks, Function.update_self]
  have word : c < 256 ^ sizeofPchunk := h'.placed.word _ isChunk
  refine ⟨isChunk, ?_, by rw [self]; rfl, by rw [self]; rfl, by rw [self]; rfl, ?_,
    by rw [self]; rfl, ring⟩
  · have noRegions : (h'.chunks c).regions = 0 := by
      rw [self]
      exact empty
    rw [noRegions]
    exact isQl_nil _
  · have paddr : (h'.chunks c).paddr = addr := by
      rw [self]
      rfl
    rw [paddr, pmem, Memory.loadWord_storeWord, Nat.mod_eq_of_lt word]

/-- A new descriptor is at the address that `malloc` answers with. -/
theorem chunkCreate_answer {chunktype : ChunkType} {live : Bool}
    (created : chunkCreate h arena chunktype live = .ok (c, h', arena')) :
    c ∈ h.mallocAnswers.head? := by
  obtain ⟨⟨addr, w, pool⟩, taken, created⟩ := bind_eq_ok.mp created
  obtain ⟨⟨chunk, w'⟩, allocated, created⟩ := bind_eq_ok.mp created
  obtain ⟨stored, _, created⟩ := bind_eq_ok.mp created
  simp only [Except.ok.injEq, Prod.mk.injEq] at created
  obtain ⟨rfl, _, _⟩ := created
  rw [← (pmempoolChunkAlloc_objects taken).2]
  exact malloc_answer allocated

/-- `arena_chunk_alloc` constructs its chunk, whatever the descriptor held before. -/
theorem arenaChunkAlloc_constructed (queue : IsQl h.availLink arena.availChunks elms)
    (isChunk : ∀ d ∈ elms, ⟨d, .chunk⟩ ∈ h.blocks)
    (allocated : arenaChunkAlloc h arena .log = .ok (c, h', arena')) :
    Constructed h' arena' c (c :: elms) := by
  obtain ⟨addr, effect⟩ := arenaChunkAlloc_effect allocated
  obtain ⟨blocks, fresh, nonnull⟩ := chunkTaken_objects effect.pool
  obtain ⟨garbage, chunks, empty⟩ := effect.chunks
  obtain ⟨_, availLink, availChunks⟩ := effect.log rfl
  have absent : c ∉ elms := fun member => fresh _ (isChunk c member) rfl
  have linked : IsQl (qrNew h.availLink c) arena.availChunks elms :=
    queue.congr fun x member => qrNew_other (by rintro rfl; exact absent member)
  refine .of_newChunk chunks effect.pmem (by simp [blocks]) (empty rfl) ?_
  rw [availLink, availChunks]
  exact linked.headInsert absent nonnull (isRing_qrNew _ _)

/-- `gc_alloc_chunk` constructs its chunk exactly when the descriptor was prepared. -/
theorem gcAllocChunk_constructed_iff (queue : IsQl h.availLink arena.availChunks elms)
    (isChunk : ∀ d ∈ elms, ⟨d, .chunk⟩ ∈ h.blocks)
    (allocated : gcAllocChunk h arena = .ok (c, h', arena')) :
    Constructed h' arena' c (elms ++ [c]) ↔ Prepared h elms := by
  obtain ⟨addr, h₁, arena₁, created, _, rfl, rfl⟩ := gcAllocChunk_effect allocated
  obtain ⟨blocks, fresh, nonnull⟩ := chunkTaken_objects created.pool
  have absent : c ∉ elms := fun member => fresh _ (isChunk c member) rfl
  have answer : h.mallocAnswers.head? = some c := by
    obtain ⟨⟨chunk, h₂, arena₂⟩, made, inserted⟩ := bind_eq_ok.mp allocated
    obtain ⟨⟨first, h₃⟩, _, inserted⟩ := bind_eq_ok.mp inserted
    simp only [Except.ok.injEq, Prod.mk.injEq] at inserted
    rw [← inserted.1]
    exact chunkCreate_answer made
  have prepared : Prepared h elms ↔ (h.chunks c).regions = 0 ∧
      (elms = [] → h.availLink.IsRing [c]) := by
    simp [Prepared, answer, Links.isRing_singleton]
  rw [prepared]
  constructor
  · intro built
    refine ⟨?_, ?_⟩
    · have noRegions := built.regions.first_eq
      change (h₁.chunks c).regions = 0 at noRegions
      rwa [created.chunks, Function.update_self] at noRegions
    · rintro rfl
      have empty : arena.availChunks = 0 := queue.first_eq
      simpa [qlTailInsert, empty] using built.queue.ring (by simp)
  · rintro ⟨empty, self⟩
    refine .of_newChunk created.chunks created.pmem (by simp [blocks]) empty ?_
    exact queue.tailInsert absent nonnull self

/-- `gc_alloc_chunk` gets through. -/
theorem GivesChunk.gcAllocChunk_failsOnly (gives : GivesChunk h.toWorld arena.pool)
    (queue : IsQl h.availLink arena.availChunks elms)
    (isChunk : ∀ d ∈ elms, ⟨d, .chunk⟩ ∈ h.blocks) :
    FailsOnly Fault.FromEnvironment (gcAllocChunk h arena) := by
  refine (gives.chunkCreate_failsOnly .gc false).bind fun ⟨chunk, h₁, arena₁⟩ made => ?_
  obtain ⟨addr, effect⟩ := chunkCreate_effect made
  obtain ⟨blocks, _⟩ := chunkTaken_objects effect.pool
  have same : arena₁.availChunks = arena.availChunks := by rw [effect.others]
  refine .bind (availTailInsert_failsOnly fun n isNode => ?_) fun _ _ => failsOnly_ok _
  rw [effect.availLink, same] at isNode
  have member := queue.mem_of_qlInsertNodes isNode
  rw [blocks]
  exact ⟨queue.nonnull n member, List.mem_cons_of_mem _ (isChunk n member)⟩

/-- **The constructors agree when the memory of the descriptor is prepared.**
`arena_chunk_alloc` always constructs its chunk, first on `avail_chunks`. `gc_alloc_chunk`
constructs its own, last on `avail_chunks`, exactly when `malloc` returns what it leaves out.
On a pool in order both get through, and regions can be appended to what they construct. -/
theorem chunkConstructors_agree_iff (queue : IsQl h.availLink arena.availChunks elms)
    (isChunk : ∀ d ∈ elms, ⟨d, .chunk⟩ ∈ h.blocks) :
    (∀ c h' arena', arenaChunkAlloc h arena .log = .ok (c, h', arena') →
        Constructed h' arena' c (c :: elms)) ∧
      (∀ c h' arena', gcAllocChunk h arena = .ok (c, h', arena') →
        (Constructed h' arena' c (elms ++ [c]) ↔ Prepared h elms)) ∧
      (∀ free maps out, PoolOk h.toWorld arena.pool free maps out →
        FailsOnly Fault.FromEnvironment (arenaChunkAlloc h arena .log) ∧
        FailsOnly Fault.FromEnvironment (gcAllocChunk h arena) ∧
        ∀ c h' arena' chunks, (arenaChunkAlloc h arena .log = .ok (c, h', arena') ∨
            gcAllocChunk h arena = .ok (c, h', arena')) →
          Constructed h' arena' c chunks → Appends h' c) := by
  refine ⟨fun c h' arena' allocated => arenaChunkAlloc_constructed queue isChunk allocated,
    fun c h' arena' allocated => gcAllocChunk_constructed_iff queue isChunk allocated, ?_⟩
  intro free maps out pool
  have gives := pool.givesChunk
  refine ⟨gives.arenaChunkAlloc_failsOnly queue isChunk,
    gives.gcAllocChunk_failsOnly queue isChunk, ?_⟩
  intro c h' arena' chunks allocated built
  obtain ⟨isBase, mapped⟩ : IsChunk h'.toWorld (h'.chunks c).paddr := by
    rcases allocated with log | gc
    · obtain ⟨addr, effect⟩ := arenaChunkAlloc_effect log
      obtain ⟨garbage, descriptor, _⟩ := effect.chunks
      obtain ⟨w, taken, new⟩ := effect.pool
      have chunk := gives addr w _ taken
      rw [(newChunk_paddr descriptor).1]
      exact ⟨chunk.isBase, by rw [new.maps]; exact chunk.mapped⟩
    · obtain ⟨addr, h₁, arena₁, created, _, rfl, rfl⟩ := gcAllocChunk_effect gc
      obtain ⟨w, taken, new⟩ := created.pool
      have chunk := gives addr w _ taken
      change IsChunk h₁.toWorld (h₁.chunks c).paddr
      rw [(newChunk_paddr created.chunks).1]
      exact ⟨chunk.isBase, by rw [new.maps]; exact chunk.mapped⟩
  exact built.appends isBase mapped

/-- `avail_chunks` of one log chunk. -/
theorem isQl_of_one {s : ArenaState} (first : s.arena.availChunks = 1024)
    (next : s.heap.availLink.next 1024 = 1024) (prev : s.heap.availLink.prev 1024 = 1024) :
    IsQl s.heap.availLink s.arena.availChunks [1024] := by
  rw [first]
  exact isQl_singleton (by decide) next prev

/-- Behind a log chunk, in memory of zero bytes, `gc_alloc_chunk` constructs its chunk. -/
theorem chunkConstructors_agree_iff_of_zero :
    ∃ s h' arena',
      gcRun (.fresh [chunksize] [1024, 2048]) .zeroed 0 [.chunkAlloc .log] = .ok s ∧
      gcAllocChunk s.heap s.arena = .ok (2048, h', arena') ∧
      Constructed h' arena' 2048 ([1024] ++ [2048]) := by
  obtain ⟨⟨s, c, h', arena'⟩, ran, first, isChunk, next, prev, rfl, prepared⟩ :
      ∃ r : ArenaState × Nat × Heap × Arena,
        (gcRun (.fresh [chunksize] [1024, 2048]) .zeroed 0 [.chunkAlloc .log] >>= fun s =>
          gcAllocChunk s.heap s.arena >>= fun made => .ok (s, made)) = .ok r ∧
        r.1.arena.availChunks = 1024 ∧ ⟨1024, .chunk⟩ ∈ r.1.heap.blocks ∧
        r.1.heap.availLink.next 1024 = 1024 ∧ r.1.heap.availLink.prev 1024 = 1024 ∧
        r.2.1 = 2048 ∧ ∀ c ∈ r.1.heap.mallocAnswers.head?, (r.1.heap.chunks c).regions = 0 :=
    exists_eq_ok_and (by decide +kernel)
  obtain ⟨_, reached, ran⟩ := bind_eq_ok.mp ran
  obtain ⟨_, allocated, ran⟩ := bind_eq_ok.mp ran
  cases ran
  have agree := chunkConstructors_agree_iff (isQl_of_one first next prev) (by simpa using isChunk)
  refine ⟨s, h', arena', reached, allocated, (agree.2.1 _ _ _ allocated).mpr ?_⟩
  exact fun c answer => ⟨prepared c answer, fun empty => absurd empty (by simp)⟩

/-- Where `malloc` returns memory that was used before, the GC chunk has a wild list of
regions, and the first region that is appended follows it. In memory of zero bytes, a GC chunk
that is the first of `avail_chunks` is not on it. -/
theorem not_chunkConstructors_agree :
    (∃ s h' arena', gcRun { Heap.fresh [chunksize] [1024, 2048, 3072] with
          chunks := fun _ => ⟨.slab, 8, 0, 0, 0, 0, 0, false, false⟩ } .zeroed 0
        [.chunkAlloc .log] = .ok s ∧
      IsQl s.heap.availLink s.arena.availChunks [1024] ∧ ⟨1024, .chunk⟩ ∈ s.heap.blocks ∧
      gcAllocChunk s.heap s.arena = .ok (2048, h', arena') ∧
      ¬ Constructed h' arena' 2048 ([1024] ++ [2048]) ∧
      appendRegion 2048 h' ⟨240, 0, 0⟩ = .error .wild) ∧
    (∃ s h' arena', gcRun (.fresh [chunksize] [1024]) .zeroed 0 [] = .ok s ∧
      IsQl s.heap.availLink s.arena.availChunks [] ∧
      gcAllocChunk s.heap s.arena = .ok (1024, h', arena') ∧ arena'.availChunks = 0 ∧
      ¬ Constructed h' arena' 1024 ([] ++ [1024])) := by
  constructor
  · obtain ⟨⟨s, c, h', arena'⟩, ran, first, isChunk, next, prev, rfl, wild, fault⟩ :
        ∃ r : ArenaState × Nat × Heap × Arena,
          (gcRun { Heap.fresh [chunksize] [1024, 2048, 3072] with
              chunks := fun _ => ⟨.slab, 8, 0, 0, 0, 0, 0, false, false⟩ } .zeroed 0
              [.chunkAlloc .log] >>= fun s =>
            gcAllocChunk s.heap s.arena >>= fun made => .ok (s, made)) = .ok r ∧
          r.1.arena.availChunks = 1024 ∧ ⟨1024, .chunk⟩ ∈ r.1.heap.blocks ∧
          r.1.heap.availLink.next 1024 = 1024 ∧ r.1.heap.availLink.prev 1024 = 1024 ∧
          r.2.1 = 2048 ∧ (r.2.2.1.chunks 2048).regions = 8 ∧
          (match appendRegion 2048 r.2.2.1 ⟨240, 0, 0⟩ with
            | .ok _ => false
            | .error cause => decide (cause = .wild)) = true :=
      exists_eq_ok_and (by decide +kernel)
    obtain ⟨_, reached, ran⟩ := bind_eq_ok.mp ran
    obtain ⟨_, allocated, ran⟩ := bind_eq_ok.mp ran
    cases ran
    refine ⟨s, h', arena', reached, isQl_of_one first next prev, isChunk, allocated, ?_, ?_⟩
    · intro built
      have empty := built.regions.first_eq
      rw [wild] at empty
      cases empty
    · cases outcome : appendRegion 2048 h' ⟨240, 0, 0⟩ with
      | ok h'' => simp [outcome] at fault
      | error cause => simpa [outcome] using fault
  · obtain ⟨⟨s, c, h', arena'⟩, ran, first, rfl, unlisted⟩ :
        ∃ r : ArenaState × Nat × Heap × Arena,
          (gcRun (.fresh [chunksize] [1024]) .zeroed 0 [] >>= fun s =>
            gcAllocChunk s.heap s.arena >>= fun made => .ok (s, made)) = .ok r ∧
          r.1.arena.availChunks = 0 ∧ r.2.1 = 1024 ∧ r.2.2.2.availChunks = 0 :=
      exists_eq_ok_and (by decide +kernel)
    obtain ⟨_, reached, ran⟩ := bind_eq_ok.mp ran
    obtain ⟨_, allocated, ran⟩ := bind_eq_ok.mp ran
    cases ran
    refine ⟨s, h', arena', reached, by rw [first]; exact isQl_nil _, allocated, unlisted, ?_⟩
    intro built
    have entry := built.queue.first_eq
    rw [unlisted] at entry
    cases entry

end Lsmalloc
