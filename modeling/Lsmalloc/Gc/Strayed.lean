import Lsmalloc.Gc.QueueRun

/-!
# A header over a link

Once the chunks that were free before it are taken, a descriptor that was given back is the
next chunk of the pool. A region header of that chunk can then fall on the `avail_link` of the
descriptor behind it, and `avail_chunks` is no ring any more (`not_queueRun_shaped`).
-/

namespace Lsmalloc

open Execution

variable {w : World} {s : ArenaState} {h h' : Heap} {arena arena' : Arena}
  {head a c size : Nat} {retired gcs free rest more : List Nat}

/-! ## Calls the environment lets through -/

/-- `malloc` returns an answer that is laid out as it documents. -/
theorem malloc_of_placed {object : Object} (answers : w.mallocAnswers = a :: rest)
    (placed : Placed w.maps (⟨a, object⟩ :: w.blocks)) :
    ∃ w', malloc w object = .ok (a, w') ∧ w'.maps = w.maps ∧
      w'.blocks = ⟨a, object⟩ :: w.blocks ∧ w'.mallocAnswers = rest := by
  have contract : MallocContract w ⟨a, object⟩ := by
    constructor
    case nonnull => exact placed.nonnull _ List.mem_cons_self
    case aligned => exact placed.aligned _ List.mem_cons_self
    case word => exact placed.word _ List.mem_cons_self
    case clearMaps => exact fun m isMap => placed.separate m isMap _ List.mem_cons_self
    case clearBlocks => exact (List.pairwise_cons.mp placed.distinct).1
  refine ⟨w.addBlock ⟨a, object⟩ rest contract, ?_, rfl, rfl, rfl⟩
  unfold malloc
  split
  · rename_i empty
    rw [answers] at empty
    cases empty
  · rename_i answer others same
    rw [answers] at same
    obtain ⟨rfl, rfl⟩ := List.cons.inj same
    rw [dif_pos contract]

/-- A pool with a free chunk needs no mapping. -/
theorem pmempoolChunkAlloc_of_free {pp : Pmempool} (ring : FreeRing pp (a :: free)) :
    ∃ pp', pmempoolChunkAlloc w pp = .ok (a, w, pp') ∧ FreeRing pp' free := by
  have available : pp.flLink.next pp.flNow ≠ pp.flNow := fun exhausted =>
    absurd (ring.exhausted_iff.mp exhausted) (List.cons_ne_nil a free)
  obtain ⟨first, popped⟩ := ring.pop
  refine ⟨(popFree pp).2, ?_, popped⟩
  rw [pmempoolChunkAlloc, if_neg available, ← first]
  rfl

/-- Fewer objects are laid out as well. -/
theorem Placed.sublist {maps : List Span} {blocks fewer : List Block}
    (placed : Placed maps blocks) (sub : fewer.Sublist blocks) : Placed maps fewer where
  separate m isMap d isBlock := placed.separate m isMap d (sub.subset isBlock)
  distinct := placed.distinct.sublist sub
  nonnull d isBlock := placed.nonnull d (sub.subset isBlock)
  aligned d isBlock := placed.aligned d (sub.subset isBlock)
  word d isBlock := placed.word d (sub.subset isBlock)

/-- A chunk is mapped, so no descriptor has its address. -/
theorem IsChunk.not_descriptor (isChunk : IsChunk w a) : ⟨a, .chunk⟩ ∉ w.blocks := by
  intro isBlock
  obtain ⟨m, isMap, within⟩ := isChunk.mapped
  have apart := w.placed.separate m isMap _ isBlock
  exact (apart.mono within).start_ne (by decide : 0 < chunksize)
    Object.chunk.size_pos rfl

/-! ## Taking the chunks before it -/

/-- `gc_alloc_chunk` takes the next chunk of the pool and the next answer of `malloc`. -/
theorem QueueOk.gcAlloc_ok (ok : QueueOk s head retired gcs) (new : IsChunk s.heap.toWorld a)
    (next : s.arena.pool.freeAddrs = a :: free) (answers : s.heap.mallocAnswers = c :: more)
    (placed : Placed s.heap.maps (⟨c, .chunk⟩ :: s.heap.blocks)) :
    ∃ h' arena', gcAllocChunk s.heap s.arena = .ok (c, h', arena') ∧
      arena'.pool.freeAddrs = free ∧ h'.mallocAnswers = more ∧
      h'.blocks = ⟨c, .chunk⟩ :: s.heap.blocks ∧ h'.maps = s.heap.maps ∧
      ∀ d ≠ c, h'.chunks d = s.heap.chunks d := by
  obtain ⟨free', sound⟩ := ok.pool
  have ring := sound.ring
  obtain rfl : free' = a :: free := ring.freeAddrs_eq.symm.trans next
  obtain ⟨pp', taken, popped⟩ := pmempoolChunkAlloc_of_free (w := s.heap.toWorld) ring
  obtain ⟨w', allocated, maps, blocks, answers'⟩ := malloc_of_placed answers placed
  have headed : Mapped w'.maps ⟨a, sizeofPchunk⟩ := by
    rw [maps]
    exact new.header
  have nodes : ∀ n ∈ qlInsertNodes s.heap.availLink s.arena.availChunks,
      n ≠ 0 ∧ ⟨n, .chunk⟩ ∈ w'.blocks := by
    intro n isNode
    have member := ok.shape.queue.ring.mem_of_qlInsertNodes isNode
    rw [blocks]
    exact ⟨ok.shape.queue.ring.nonnull n member,
      List.mem_cons_of_mem _ (ok.isChunk n member)⟩
  refine ⟨_, _, bind_eq_ok.mpr ⟨_, bind_eq_ok.mpr ⟨_, taken, bind_eq_ok.mpr ⟨_, allocated,
    bind_eq_ok.mpr ⟨_, storePmem_eq_ok.mpr ⟨⟨new.isBase.nonnull, headed⟩, rfl⟩, rfl⟩⟩⟩,
    bind_eq_ok.mpr ⟨_, availTailInsert_eq_ok.mpr ⟨nodes, rfl, rfl⟩, rfl⟩⟩, ?_⟩
  refine ⟨popped.freeAddrs_eq, answers', blocks, maps, fun d other => ?_⟩
  exact Function.update_of_ne other _ _

/-- Chunk after chunk is taken, with the queue in order. -/
theorem QueueOk.gcAllocs {as cs : List Nat} (ok : QueueOk s head retired gcs)
    (new : ∀ a ∈ as, IsChunk s.heap.toWorld a) (next : s.arena.pool.freeAddrs = as ++ free)
    (count : as.length = cs.length) (answers : s.heap.mallocAnswers = cs ++ more)
    (placed : Placed s.heap.maps ((cs.map (Block.mk · .chunk)).reverse ++ s.heap.blocks)) :
    ∃ s', run ArenaState.queueStep s (List.replicate cs.length .gcAllocChunk) = .ok s' ∧
      QueueOk s' head retired (gcs ++ cs) ∧
      s'.arena.pool.freeAddrs = free ∧ s'.heap.mallocAnswers = more ∧
      s'.heap.blocks = (cs.map (Block.mk · .chunk)).reverse ++ s.heap.blocks ∧
      s'.heap.maps = s.heap.maps ∧ ∀ d ∉ cs, s'.heap.chunks d = s.heap.chunks d := by
  induction cs generalizing s as gcs with
  | nil =>
      obtain rfl : as = [] := List.length_eq_zero_iff.mp count
      refine ⟨s, rfl, ?_, next, answers, rfl, rfl, fun _ _ => rfl⟩
      rwa [List.append_nil]
  | cons c cs ih =>
      obtain ⟨a, as, rfl⟩ : ∃ a as', as = a :: as' :=
        List.exists_cons_of_length_eq_add_one count
      have isNew : s.NextIsNew := by
        intro b isNext
        rw [next, List.cons_append, List.head?_cons, Option.mem_some] at isNext
        subst isNext
        exact (new a List.mem_cons_self).not_descriptor
      have shifted : ((c :: cs).map (Block.mk · .chunk)).reverse ++ s.heap.blocks =
          (cs.map (Block.mk · .chunk)).reverse ++ ⟨c, .chunk⟩ :: s.heap.blocks := by simp
      rw [shifted] at placed
      obtain ⟨h', arena', allocated, next', answers', blocks, maps, others⟩ :=
        ok.gcAlloc_ok (new a List.mem_cons_self) next answers
          (placed.sublist (List.sublist_append_right _ _))
      have stepped : s.queueStep .gcAllocChunk = .ok ⟨h', arena'⟩ := by
        rw [ArenaState.queueStep, gcAllocChunkBy_storeWord (ok.givesChunk isNew), allocated]
        rfl
      have still : ∀ b ∈ as, IsChunk h'.toWorld b := by
        intro b member
        refine (new b (List.mem_cons_of_mem _ member)).mono fun r _ mapped => ?_
        rwa [maps]
      rw [← blocks, ← maps] at placed
      obtain ⟨s', ran, ok', freed, left, laid, kept, same⟩ :=
        ih (s := ⟨h', arena'⟩) (ok.gcAlloc allocated) still next' (by simpa using count)
          answers' placed
      refine ⟨s', run_cons_eq_ok.mpr ⟨_, stepped, ran⟩, ?_, freed, left, ?_, kept.trans maps, ?_⟩
      · rwa [List.append_assoc] at ok'
      · rw [shifted, laid, blocks]
      · intro d absent
        rw [List.mem_cons, not_or] at absent
        rw [same d absent.2]
        exact others d absent.1

/-! ## The stores -/

section Over

variable {offset value : Nat} (p x : Nat)

theorem overwriteChunk_world : (h.overwriteChunk p offset value).toWorld = h.toWorld := by
  unfold Heap.overwriteChunk
  split <;> rfl

theorem overwriteChunk_regionsLink :
    (h.overwriteChunk p offset value).regionsLink = h.regionsLink := by
  unfold Heap.overwriteChunk
  split <;> rfl

theorem overwriteChunk_chunks {x : Nat} (other : x ≠ p) :
    (h.overwriteChunk p offset value).chunks x = h.chunks x := by
  unfold Heap.overwriteChunk
  split <;> first | rfl | exact Function.update_of_ne other _ _

end Over

/-- A word inside a descriptor is stored there. -/
theorem storeWord_over {d width : Nat} (isOther : ⟨d, .chunk⟩ ∈ h.blocks) (offset : Nat)
    (inside : offset + width ≤ Object.chunk.size) (nonempty : 0 < width) (value : Nat) :
    h.storeWord (d + offset) width value = .ok (h.overwriteChunk d offset value) := by
  have within : (Span.mk (d + offset) width).Within (Block.mk d .chunk).span := by
    rw [Block.span, Span.within_mk]
    refine ⟨Nat.le_add_right _ _, ?_⟩
    change d + offset + width ≤ d + Object.chunk.size
    omega
  rw [storeWord_of_block isOther within nonempty value, Nat.add_sub_cancel_left]
  rfl

/-- The descriptor has a list of regions, wherever its room may be. -/
structure Lists (h : Heap) (c : Nat) (rs : List Nat) : Prop where
  isChunk : ⟨c, .chunk⟩ ∈ h.blocks
  list : IsQl h.regionsLink (h.chunks c).regions rs
  isRegion : ∀ r ∈ rs, ⟨r, .region⟩ ∈ h.blocks

/-- A store over another descriptor leaves it. -/
theorem Lists.overwrite {d offset value : Nat} {rs : List Nat} (lists : Lists h c rs)
    (other : c ≠ d) : Lists (h.overwriteChunk d offset value) c rs where
  isChunk := by
    rw [overwriteChunk_world]
    exact lists.isChunk
  list := by
    rw [overwriteChunk_chunks d other, overwriteChunk_regionsLink]
    exact lists.list
  isRegion r member := by
    rw [overwriteChunk_world]
    exact lists.isRegion r member

/-- A new region goes to the end of the list. -/
theorem Lists.tailInsert {region : Nat} {rs : List Nat} (lists : Lists h c rs)
    (fresh : region ∉ rs) (isRegion : ⟨region, .region⟩ ∈ h.blocks) :
    ∃ first links, (h.regionsElmNew region).regionsTailInsert (h.chunks c).regions region =
        .ok (first, { h.regionsElmNew region with regionsLink := links }) ∧
      IsQl links first (rs ++ [region]) := by
  have linked : IsQl (h.regionsElmNew region).regionsLink (h.chunks c).regions rs :=
    lists.list.congr fun r member => qrNew_other (by rintro rfl; exact fresh member)
  have followed : ∀ n ∈ qlInsertNodes (h.regionsElmNew region).regionsLink (h.chunks c).regions,
      n ≠ 0 ∧ ⟨n, .region⟩ ∈ (h.regionsElmNew region).blocks := by
    intro n isNode
    have member := linked.mem_of_qlInsertNodes isNode
    exact ⟨linked.nonnull n member, lists.isRegion n member⟩
  refine ⟨_, _, regionsTailInsert_eq_ok.mpr ⟨followed, rfl, rfl⟩, ?_⟩
  exact linked.tailInsert fresh (h.placed.nonnull _ isRegion) fun _ => isRing_qrNew _ _

/-- A region is placed on `c`, with its header `offset` bytes into the descriptor `d`. -/
structure PlacedOver (h h' : Heap) (c d offset region size : Nat) (rs : List Nat) : Prop where
  world : h'.toWorld = h.toWorld
  lists : Lists h' c (rs ++ [region])
  chunk : (h'.chunks c).tail = szAdd (h.chunks c).tail size ∧
    (h'.chunks c).availsize = szSub (h.chunks c).availsize size ∧
    (h'.chunks c).chunktype = (h.chunks c).chunktype
  others : ∀ x, x ≠ c → x ≠ d → h'.chunks x = h.chunks x
  availLink : h'.availLink = (h.overwriteChunk d offset region).availLink

theorem placeRegionBy_over {d offset region : Nat} {rs : List Nat} (size ptr threadid : Nat)
    (lists : Lists h c rs) (fresh : region ∉ rs) (isRegion : ⟨region, .region⟩ ∈ h.blocks)
    (isOther : ⟨d, .chunk⟩ ∈ h.blocks) (other : c ≠ d)
    (tail : (h.chunks c).tail = d + offset)
    (inside : offset + sizeofPregion ≤ Object.chunk.size) :
    ∃ h', placeRegionBy Heap.storeWord h c region size ptr threadid = .ok (d + offset, h') ∧
      PlacedOver h h' c d offset region size rs := by
  have present : c ≠ 0 := h.placed.nonnull _ lists.isChunk
  let bumped := h.putChunk c { h.chunks c with
    tail := szAdd (h.chunks c).tail size
    availsize := szSub (h.chunks c).availsize size }
  let written := bumped.overwriteChunk d offset region
  let described := written.putRegion region ⟨.alive, threadid, size, ptr, d + offset, c⟩
  have appended : pmemAppendRegion h c size = .ok (d + offset, bumped) := by
    rw [← tail]
    exact bind_eq_ok.mpr ⟨_, getChunk_eq_ok.mpr ⟨⟨present, lists.isChunk⟩, rfl⟩, rfl⟩
  have stored : bumped.storeWord (d + offset) sizeofPregion region = .ok written :=
    storeWord_over (h := bumped) isOther offset inside (by decide) region
  have world : written.toWorld = h.toWorld := overwriteChunk_world d
  have bump : bumped.chunks c = { h.chunks c with
      tail := szAdd (h.chunks c).tail size
      availsize := szSub (h.chunks c).availsize size } := Function.update_self ..
  have chunk : described.chunks c = bumped.chunks c := overwriteChunk_chunks d other
  -- The header goes over the other descriptor, so the regions are linked as ever.
  have still : Lists bumped c rs := by
    refine ⟨lists.isChunk, ?_, lists.isRegion⟩
    rw [bump]
    exact lists.list
  have listed : Lists described c rs :=
    ⟨(still.overwrite other).isChunk, (still.overwrite other).list,
      (still.overwrite other).isRegion⟩
  have isNew : ⟨region, .region⟩ ∈ described.blocks := by
    change ⟨region, .region⟩ ∈ written.blocks
    rwa [world]
  have read : described.getChunk c = .ok (described.chunks c) :=
    getChunk_eq_ok.mpr ⟨⟨present, listed.isChunk⟩, rfl⟩
  obtain ⟨first, links, inserted, linked⟩ := listed.tailInsert fresh isNew
  have self : Function.update described.chunks c { described.chunks c with regions := first } c =
      { bumped.chunks c with regions := first } := by
    rw [Function.update_self, chunk]
  refine ⟨_, bind_eq_ok.mpr ⟨_, appended, bind_eq_ok.mpr ⟨_, stored, bind_eq_ok.mpr ⟨_, read,
    bind_eq_ok.mpr ⟨_, inserted, rfl⟩⟩⟩⟩, ?_⟩
  constructor
  case world => exact world
  case lists =>
    constructor
    case isChunk => exact listed.isChunk
    case list =>
      change IsQl links (Function.update described.chunks c _ c).regions _
      rw [self]
      exact linked
    case isRegion =>
      intro r member
      rcases List.mem_append.mp member with was | new
      · exact listed.isRegion r was
      · rwa [List.mem_singleton.mp new]
  case chunk =>
    have type : (bumped.chunks c).chunktype = (h.chunks c).chunktype := by rw [bump]
    exact ⟨(congrArg Chunk.tail self).trans (congrArg Chunk.tail bump),
      (congrArg Chunk.availsize self).trans (congrArg Chunk.availsize bump),
      (congrArg Chunk.chunktype self).trans type⟩
  case others =>
    intro x notC notD
    change Function.update described.chunks c _ x = _
    rw [Function.update_of_ne notC]
    exact (overwriteChunk_chunks d notD).trans (Function.update_of_ne notC _ _)
  case availLink =>
    change (bumped.overwriteChunk d offset region).availLink = _
    unfold Heap.overwriteChunk
    split <;> rfl

/-- `c` is a new log chunk at the head of the queue, at the address of the descriptor `d`. -/
structure TakenOver (h h' : Heap) (arena arena' : Arena) (c d : Nat) (elms : List Nat) : Prop where
  maps : h'.maps = h.maps
  blocks : h'.blocks = ⟨c, .chunk⟩ :: h.blocks
  fresh : ∀ b ∈ h.blocks, b.addr ≠ c
  others : ∀ x, x ≠ c → x ≠ d → h'.chunks x = h.chunks x
  chunk : (h'.chunks c).tail = szAdd d sizeofPchunk ∧ (h'.chunks c).regions = 0 ∧
    (h'.chunks c).availsize = szSub chunksize sizeofPchunk ∧ (h'.chunks c).chunktype = .log
  queue : IsQl h'.availLink c (c :: elms)
  availChunks : arena'.availChunks = c
  pool : arena'.pool.freeAddrs = arena.pool.freeAddrs.tail

theorem arenaChunkAllocBy_over {d : Nat} {elms : List Nat}
    (ring : FreeRing arena.pool (d :: free)) (isOther : ⟨d, .chunk⟩ ∈ h.blocks)
    (answers : h.mallocAnswers = c :: more) (placed : Placed h.maps (⟨c, .chunk⟩ :: h.blocks))
    (queue : IsQl h.availLink arena.availChunks elms)
    (isChunk : ∀ e ∈ elms, ⟨e, .chunk⟩ ∈ h.blocks) :
    ∃ h' arena', arenaChunkAllocBy Heap.storeWord h arena .log = .ok (c, h', arena') ∧
      h'.mallocAnswers = more ∧ TakenOver h h' arena arena' c d elms := by
  obtain ⟨pp', taken, popped⟩ := pmempoolChunkAlloc_of_free (w := h.toWorld) ring
  obtain ⟨w, allocated, maps, blocks, answers'⟩ := malloc_of_placed answers placed
  have new := malloc_newBlock allocated
  have other : c ≠ d := fun same => new.fresh _ isOther same.symm
  let made := { h with toWorld := w }.putChunk c
    (newChunk (h.chunks c) d arena.ind .log true)
  let written := made.overwriteChunk d 0 c
  have isBlock : ⟨d, .chunk⟩ ∈ made.blocks := by
    change _ ∈ w.blocks
    rw [blocks]
    exact List.mem_cons_of_mem _ isOther
  have stored : made.storeWord d sizeofPchunk c = .ok written :=
    storeWord_over isBlock 0 (by decide) (by decide) c
  have world : written.toWorld = w := overwriteChunk_world d
  have chunk : written.chunks c = newChunk (h.chunks c) d arena.ind .log true := by
    rw [overwriteChunk_chunks d other]
    exact Function.update_self ..
  have absent : c ∉ elms := fun member => new.fresh _ (isChunk c member) rfl
  have linked : IsQl (qrNew written.availLink c) arena.availChunks elms :=
    queue.congr fun x member => qrNew_other (by rintro rfl; exact absent member)
  let listed := (written.putChunk c { written.chunks c with regions := 0 }).availElmNew c
  have nodes : ∀ n ∈ qlInsertNodes listed.availLink arena.availChunks,
      n ≠ 0 ∧ ⟨n, .chunk⟩ ∈ listed.blocks := by
    intro n isNode
    have member := linked.mem_of_qlInsertNodes isNode
    change n ≠ 0 ∧ ⟨n, .chunk⟩ ∈ written.blocks
    rw [world, blocks]
    exact ⟨linked.nonnull n member, List.mem_cons_of_mem _ (isChunk n member)⟩
  have inserted : listed.availHeadInsert arena.availChunks c = .ok (_, _) :=
    availHeadInsert_eq_ok.mpr ⟨nodes, rfl, rfl⟩
  refine ⟨_, _, bind_eq_ok.mpr ⟨_, bind_eq_ok.mpr ⟨_, taken, bind_eq_ok.mpr ⟨_, allocated,
    bind_eq_ok.mpr ⟨_, stored, rfl⟩⟩⟩, bind_eq_ok.mpr ⟨_, bind_eq_ok.mpr ⟨_, inserted, rfl⟩,
      rfl⟩⟩, ?_, ?_⟩
  · change written.mallocAnswers = _
    rw [world]
    exact answers'
  · have self : Function.update written.chunks c { written.chunks c with regions := 0 } c =
        { newChunk (h.chunks c) d arena.ind .log true with regions := 0 } := by
      rw [Function.update_self, chunk]
    constructor
    case maps =>
      change written.maps = _
      rw [world]
      exact maps
    case blocks =>
      change written.blocks = _
      rw [world]
      exact blocks
    case fresh => exact new.fresh
    case others =>
      intro x notC notD
      change Function.update written.chunks c _ x = _
      rw [Function.update_of_ne notC, overwriteChunk_chunks d notD]
      exact Function.update_of_ne notC _ _
    case chunk =>
      exact ⟨congrArg Chunk.tail self, congrArg Chunk.regions self, congrArg Chunk.availsize self,
        congrArg Chunk.chunktype self⟩
    case queue => exact linked.headInsert absent new.nonnull (isRing_qrNew _ _)
    case availChunks => rfl
    case pool =>
      change pp'.freeAddrs = _
      rw [popped.freeAddrs_eq, ring.freeAddrs_eq]
      rfl

theorem TakenOver.lists {d : Nat} {elms : List Nat} (taken : TakenOver h h' arena arena' c d elms) :
    Lists h' c [] where
  isChunk := by
    rw [taken.blocks]
    exact List.mem_cons_self
  list := by
    rw [taken.chunk.2.1]
    exact isQl_nil _
  isRegion := by simp

/-! ## Two requests -/

/-- The head has been retired, and the new head `e` is the descriptor `d` with `size` bytes
reserved in it. -/
structure FilledOver (s s' : ArenaState) (d e r size : Nat) (elms : List Nat) : Prop where
  maps : s'.heap.maps = s.heap.maps
  blocks : s'.heap.blocks = ⟨e, .chunk⟩ :: ⟨r, .region⟩ :: s.heap.blocks
  availChunks : s'.arena.availChunks = e
  queue : IsQl s'.heap.availLink e (e :: elms)
  others : ∀ x ∉ e :: d :: elms, s'.heap.chunks x = s.heap.chunks x
  lists : Lists s'.heap e [r]
  tail : (s'.heap.chunks e).tail = d + sizeofPchunk + size
  availsize : (s'.heap.chunks e).availsize = chunksize - sizeofPchunk - size
  chunktype : (s'.heap.chunks e).chunktype = .log

/-- `arena_region_alloc` finds no room, retires the head and is given a descriptor. -/
theorem QueueOk.regionChunk_over {d e : Nat} (ok : QueueOk s head retired gcs)
    (short : (s.heap.chunks head).availsize < size)
    (next : s.arena.pool.freeAddrs = d :: free) (isOther : ⟨d, .chunk⟩ ∈ s.heap.blocks)
    (old : ∀ b ∈ s.heap.blocks, b ∈ w.blocks) (answers : w.mallocAnswers = e :: more)
    (placed : Placed w.maps (⟨e, .chunk⟩ :: w.blocks)) :
    ∃ h' arena', regionChunkBy Heap.storeWord { s.heap with toWorld := w } s.arena size =
        .ok (e, h', arena') ∧ h'.mallocAnswers = more ∧
      TakenOver ({ s.heap with toWorld := w }.putChunk head
        { s.heap.chunks head with live := false }) h' s.arena arena' e d
        (head :: (retired ++ gcs)) := by
  obtain ⟨free', sound⟩ := ok.pool
  have ring := sound.ring
  obtain rfl : free' = d :: free := ring.freeAddrs_eq.symm.trans next
  obtain ⟨first, log⟩ := ok.head_eq
  have isHead := old _ (ok.isChunk head List.mem_cons_self)
  have present : head ≠ 0 := w.placed.nonnull _ isHead
  have read : Heap.getChunk { s.heap with toWorld := w } head = .ok (s.heap.chunks head) :=
    getChunk_eq_ok.mpr ⟨⟨present, isHead⟩, rfl⟩
  let left := { s.heap with toWorld := w }.putChunk head { s.heap.chunks head with live := false }
  have lacks : chunkLacks { s.heap with toWorld := w } head size .log = .ok true := by
    rw [chunkLacks, if_neg present, read]
    exact congrArg Except.ok (by simp [short])
  have queue : IsQl left.availLink s.arena.availChunks (head :: (retired ++ gcs)) :=
    ok.shape.queue.ring
  obtain ⟨h', arena', taken, answers', written⟩ := arenaChunkAllocBy_over (h := left) ring
    (old _ isOther) answers placed queue fun c member => old _ (ok.isChunk c member)
  refine ⟨h', arena', ?_, answers', written⟩
  rw [regionChunkBy, first]
  exact bind_eq_ok.mpr ⟨true, lacks, bind_eq_ok.mpr ⟨_, read, taken⟩⟩

/-- A request that finds no room is given a descriptor for a chunk. -/
theorem QueueOk.mallocLarge_over {d r e : Nat} (ptr threadid : Nat)
    (ok : QueueOk s head retired gcs)
    (short : (s.heap.chunks head).availsize < regionSize size)
    (fits : regionSize size ≤ chunksize - sizeofPchunk)
    (next : s.arena.pool.freeAddrs = d :: free) (isOther : ⟨d, .chunk⟩ ∈ s.heap.blocks)
    (word : d + chunksize < 2 ^ 64)
    (answers : s.heap.mallocAnswers = r :: e :: more)
    (placed : Placed s.heap.maps (⟨e, .chunk⟩ :: ⟨r, .region⟩ :: s.heap.blocks)) :
    ∃ s', s.queueStep (.mallocLarge size ptr threadid) = .ok s' ∧ s'.heap.mallocAnswers = more ∧
      FilledOver s s' d e r (regionSize size) (head :: (retired ++ gcs)) := by
  obtain ⟨w, allocated, maps, blocks, answers'⟩ := malloc_of_placed answers
    (placed.sublist (List.sublist_cons_self ..))
  have old : ∀ b ∈ s.heap.blocks, b ∈ w.blocks := by
    intro b member
    rw [blocks]
    exact List.mem_cons_of_mem _ member
  rw [← blocks, ← maps] at placed
  obtain ⟨h₁, arena₁, chosen, answers₁, written⟩ :=
    ok.regionChunk_over short next isOther old answers' placed
  obtain ⟨tail, _, availsize, chunktype⟩ := written.chunk
  have later : ∀ b ∈ w.blocks, b ∈ h₁.blocks := by
    intro b member
    rw [written.blocks]
    exact List.mem_cons_of_mem _ member
  have isRegion : ⟨r, .region⟩ ∈ h₁.blocks := by
    apply later
    rw [blocks]
    exact List.mem_cons_self
  have other : e ≠ d := fun same => written.fresh _ (old _ isOther) same.symm
  have header : sizeofPchunk = 8 := rfl
  have chunk := chunksize_eq
  rw [szAdd_of_lt (by omega)] at tail
  rw [szSub_of_le (by omega) (by omega)] at availsize
  obtain ⟨h₂, stored, placedOver⟩ := placeRegionBy_over (regionSize size) ptr threadid
    written.lists List.not_mem_nil isRegion (later _ (old _ isOther)) other tail (by decide)
  refine ⟨⟨h₂, arena₁⟩, bind_eq_ok.mpr ⟨_, bind_eq_ok.mpr ⟨_, allocated, bind_eq_ok.mpr ⟨_, chosen,
    bind_eq_ok.mpr ⟨_, stored, rfl⟩⟩⟩, rfl⟩, ?_, ?_⟩
  · change h₂.mallocAnswers = _
    rw [placedOver.world]
    exact answers₁
  constructor
  case maps =>
    change h₂.maps = _
    rw [placedOver.world, written.maps]
    exact maps
  case blocks =>
    change h₂.blocks = _
    rw [placedOver.world, written.blocks]
    exact congrArg _ blocks
  case availChunks => exact written.availChunks
  case queue =>
    change IsQl h₂.availLink e _
    rw [placedOver.availLink]
    exact written.queue
  case others =>
    intro x absent
    simp only [List.mem_cons, not_or] at absent
    obtain ⟨notE, notD, notHead, _⟩ := absent
    change h₂.chunks x = _
    rw [placedOver.others x notE notD, written.others x notE notD]
    exact Function.update_of_ne notHead _ _
  case lists => exact placedOver.lists
  case tail =>
    change (h₂.chunks e).tail = _
    rw [placedOver.chunk.1, tail, szAdd_of_lt (by omega)]
  case availsize =>
    change (h₂.chunks e).availsize = _
    rw [placedOver.chunk.2.1, availsize, szSub_of_le (by omega) (by omega)]
  case chunktype => exact placedOver.chunk.2.2.trans chunktype

/-- The links of a chunk are 40 bytes into it, and the next link is stored first. -/
theorem overwriteChunk_next (p value : Nat) :
    (h.overwriteChunk p 40 value).availLink = h.availLink.setNext p value := rfl

/-- The next region of the chunk has its header over the next link of the chunk behind it. -/
theorem FilledOver.mallocLarge {s' : ArenaState} {d e r r' filled : Nat} {elms : List Nat}
    (size ptr threadid : Nat) (written : FilledOver s s' d e r filled (head :: elms))
    (isHead : ⟨head, .chunk⟩ ∈ s.heap.blocks) (reaches : d + sizeofPchunk + filled = head + 40)
    (room : regionSize size ≤ chunksize - sizeofPchunk - filled)
    (answers : s'.heap.mallocAnswers = r' :: more)
    (placed : Placed s'.heap.maps (⟨r', .region⟩ :: s'.heap.blocks)) :
    ∃ s'', s'.queueStep (.mallocLarge size ptr threadid) = .ok s'' ∧
      s''.arena.availChunks = e ∧ s''.heap.availLink.next e = head ∧
      s''.heap.availLink.next head = r' ∧
      ∀ x ∉ e :: d :: head :: elms, s''.heap.chunks x = s.heap.chunks x := by
  obtain ⟨w, allocated, maps, blocks, _⟩ := malloc_of_placed answers placed
  have new := malloc_newBlock allocated
  obtain ⟨isChunk, list, isRegion⟩ := written.lists
  have old : ∀ b ∈ s'.heap.blocks, b ∈ w.blocks := by
    intro b member
    rw [blocks]
    exact List.mem_cons_of_mem _ member
  have present : e ≠ 0 := w.placed.nonnull _ (old _ isChunk)
  have read : Heap.getChunk { s'.heap with toWorld := w } e = .ok (s'.heap.chunks e) :=
    getChunk_eq_ok.mpr ⟨⟨present, old _ isChunk⟩, rfl⟩
  have lacks : chunkLacks { s'.heap with toWorld := w } e (regionSize size) .log = .ok false := by
    rw [chunkLacks, if_neg present, read]
    refine congrArg Except.ok ?_
    simp [written.availsize, written.chunktype, room]
  have chosen : regionChunkBy Heap.storeWord { s'.heap with toWorld := w } s'.arena
      (regionSize size) = .ok (e, { s'.heap with toWorld := w }, s'.arena) := by
    rw [regionChunkBy, written.availChunks]
    exact bind_eq_ok.mpr ⟨false, lacks, rfl⟩
  have fresh : r' ∉ [r] := by
    intro member
    obtain rfl := List.mem_singleton.mp member
    exact new.fresh _ (isRegion r' member) rfl
  have linked := written.queue.ring (List.cons_ne_nil _ _)
  have other : e ≠ head := by
    rintro rfl
    simpa using linked.nodup
  have isOld : ⟨head, .chunk⟩ ∈ s'.heap.blocks := by
    rw [written.blocks]
    exact List.mem_cons_of_mem _ (List.mem_cons_of_mem _ isHead)
  have still : Lists { s'.heap with toWorld := w } e [r] :=
    ⟨old _ isChunk, list, fun x member => old _ (isRegion x member)⟩
  have isNew : ⟨r', .region⟩ ∈ w.blocks := by
    rw [blocks]
    exact List.mem_cons_self
  obtain ⟨h₂, stored, placedOver⟩ := placeRegionBy_over (regionSize size) ptr threadid still
    fresh isNew (old _ isOld) other (written.tail.trans reaches) (by decide)
  refine ⟨⟨h₂, s'.arena⟩, bind_eq_ok.mpr ⟨_, bind_eq_ok.mpr ⟨_, allocated, bind_eq_ok.mpr
    ⟨_, chosen, bind_eq_ok.mpr ⟨_, stored, rfl⟩⟩⟩, rfl⟩, written.availChunks, ?_, ?_, ?_⟩
  · change h₂.availLink.next e = head
    rw [placedOver.availLink, overwriteChunk_next, Links.setNext_next, if_neg other]
    exact linked.next_first
  · change h₂.availLink.next head = r'
    rw [placedOver.availLink, overwriteChunk_next, Links.setNext_next, if_pos rfl]
  · intro x absent
    have notListed := absent
    simp only [List.mem_cons, not_or] at notListed
    obtain ⟨notE, _, notHead, _⟩ := notListed
    change h₂.chunks x = _
    rw [placedOver.others x notE notHead]
    exact written.others x absent

/-- A queue that leads to something that is no chunk has not its shape. -/
theorem not_shaped_of_next {first : Nat} (enters : s.arena.availChunks = first)
    (notLog : (s.heap.chunks (s.heap.availLink.next (s.heap.availLink.next first))).chunktype ≠ .log)
    (notGc : (s.heap.chunks (s.heap.availLink.next (s.heap.availLink.next first))).chunktype ≠ .gc) :
    ¬ ∃ head retired gcs, s.Shaped head retired gcs := by
  rintro ⟨head, retired, gcs, shaped⟩
  have ring := shaped.ring.ring (List.cons_ne_nil _ _)
  have isHead : first = head := by
    rw [← enters]
    exact shaped.ring.first_eq
  have member := ring.next_mem (ring.next_mem List.mem_cons_self)
  rw [← isHead, List.mem_cons, List.mem_append] at member
  rcases member with same | isRetired | isGc
  · rw [same, isHead] at notLog
    exact notLog shaped.first.1
  · exact notLog (shaped.middle _ isRetired).1
  · exact notGc (shaped.last _ isGc).1

/-! ## A run -/

/-- The descriptors of the GC chunks of the run. -/
def strayedGcs : List Nat := (List.range 38).map (1504 + 176 * ·)

/-- A process whose `malloc` answers with the descriptors of the run. -/
def strayedHeap : Heap :=
  .fresh [chunksize] ([1024, 1200, 1264, 1328] ++ strayedGcs ++ [8192, 8256, 8432])

/-- The first log chunk is filled, retired and given back. -/
def strayedOps : List QueueOp :=
  [.mallocLarge 4194280 0 0, .mallocLarge 4194280 0 0, .chunkDalloc 1024]

theorem strayed_started : ∃ s, queueRun strayedHeap .zeroed 0 strayedOps = .ok s ∧
    s.arena.pool.freeAddrs = (List.range 38).map (12582912 + chunksize * ·) ++ [1024] ∧
    s.heap.mallocAnswers = strayedGcs ++ [8192, 8256, 8432] ∧
    s.heap.maps = [⟨4194304, 167772160⟩] ∧
    s.heap.blocks = [⟨1328, .chunk⟩, ⟨1264, .region⟩, ⟨1200, .region⟩, ⟨1024, .chunk⟩] ∧
    s.arena.availChunks = 1328 ∧ (s.heap.chunks 1328).availsize = 8 ∧
    (s.heap.chunks 8432).chunktype = .other 0 :=
  exists_eq_ok_and (by decide +kernel)

theorem strayed_undisturbed : QueueUndisturbed strayedHeap .zeroed 0 strayedOps :=
  queueUndisturbed_of_boot (exists_eq_ok_and (by decide +kernel))

/-- The descriptors of the run are laid out as `malloc` documents. -/
theorem strayed_placed : Placed [⟨4194304, 167772160⟩]
    ([⟨8432, .region⟩, ⟨8256, .chunk⟩, ⟨8192, .region⟩] ++
      (strayedGcs.map (Block.mk · .chunk)).reverse ++
      [⟨1328, .chunk⟩, ⟨1264, .region⟩, ⟨1200, .region⟩, ⟨1024, .chunk⟩]) where
  separate := by decide +kernel
  distinct := by decide +kernel
  nonnull := by decide +kernel
  aligned := by decide +kernel
  word := by decide +kernel

/-- The first calls, the GC chunks and the two requests. -/
theorem strayed_run : ∃ s,
    queueRun strayedHeap .zeroed 0 (strayedOps ++ List.replicate 38 .gcAllocChunk ++
      [.mallocLarge 328 0 0, .mallocLarge 8 0 0]) = .ok s ∧
    ¬ ∃ head retired gcs, s.Shaped head retired gcs := by
  obtain ⟨s, started, free, answers, maps, blocks, first, short, other⟩ := strayed_started
  obtain ⟨head, retired, gcs, ok⟩ := queueRun_ok strayed_undisturbed started
  obtain rfl : 1328 = head := first.symm.trans ok.head_eq.1
  have placed := strayed_placed
  rw [← blocks, ← maps, List.append_assoc] at placed
  -- Behind the descriptor that was given back the pool has chunks only.
  have new : ∀ a ∈ (List.range 38).map (12582912 + chunksize * ·), IsChunk s.heap.toWorld a := by
    intro a member
    obtain ⟨free', sound⟩ := ok.pool
    have inFree : a ∈ free' := by
      rw [← sound.ring.freeAddrs_eq, free]
      exact List.mem_append_left _ member
    refine (sound.each a inFree).resolve_right ?_
    obtain ⟨i, _, rfl⟩ := List.mem_map.mp member
    rw [blocks]
    simp
    omega
  obtain ⟨s₁, taken, ok₁, free₁, answers₁, blocks₁, maps₁, others₁⟩ :=
    ok.gcAllocs new free (by decide) answers (placed.sublist (List.sublist_append_right _ _))
  rw [← blocks₁, ← maps₁] at placed
  have short₁ : (s₁.heap.chunks 1328).availsize < regionSize 328 := by
    rw [others₁ 1328 (by decide), short]
    decide
  have isOther : ⟨1024, .chunk⟩ ∈ s₁.heap.blocks := by
    rw [blocks₁, blocks]
    simp
  obtain ⟨s₂, filled, answers₂, written⟩ := ok₁.mallocLarge_over 0 0 short₁
    (by decide) free₁ isOther (by decide) answers₁ (placed.sublist (List.sublist_cons_self ..))
  have placed₂ : Placed s₂.heap.maps (⟨8432, .region⟩ :: s₂.heap.blocks) := by
    rw [written.maps, written.blocks]
    exact placed
  obtain ⟨s₃, strayed, enters, next, next', others₃⟩ := written.mallocLarge 8 0 0
    (ok₁.isChunk 1328 List.mem_cons_self) rfl (by decide) answers₂ placed₂
  have notQueued : 8432 ∉ 1328 :: (retired ++ (gcs ++ strayedGcs)) := by
    intro queued
    have isBlock : ⟨8432, .chunk⟩ ∈ s₂.heap.blocks := by
      rw [written.blocks]
      exact List.mem_cons_of_mem _ (List.mem_cons_of_mem _ (ok₁.isChunk _ queued))
    have apart := (List.pairwise_cons.mp placed₂.distinct).1 _ isBlock
    exact apart.start_ne Object.region.size_pos Object.chunk.size_pos rfl
  have region : (s₃.heap.chunks 8432).chunktype = .other 0 := by
    rw [others₃ 8432 (by simpa using notQueued), others₁ 8432 (by decide), other]
  refine ⟨s₃, ?_, not_shaped_of_next enters ?_ ?_⟩
  · obtain ⟨start, booted, ran⟩ := bind_eq_ok.mp started
    rw [List.append_assoc]
    refine bind_eq_ok.mpr ⟨start, booted, run_append_eq_ok.mpr ⟨s, ran, ?_⟩⟩
    refine run_append_eq_ok.mpr ⟨s₁, taken, run_cons_eq_ok.mpr ⟨s₂, filled, ?_⟩⟩
    exact run_cons_eq_ok.mpr ⟨s₃, strayed, rfl⟩
  · rw [next, next', region]
    simp
  · rw [next, next', region]
    simp

/-- Two log chunks are retired, and a worker does not visit both. -/
theorem unvisited_run : ∃ s head retired gcs,
    queueRun (.fresh [chunksize] [1024, 1200, 1264, 1328, 1488, 1552, 1712]) .zeroed 0
      (List.replicate 3 (.mallocLarge 4194280 0 0)) = .ok s ∧
    s.Shaped head retired gcs ∧ (∃ made, gcAllocChunk s.heap s.arena = .ok made) ∧
    ¬ (GcRun.idle s.heap s.arena).Visits retired := by
  obtain ⟨s, ran, made, two⟩ : ∃ s,
      queueRun (.fresh [chunksize] [1024, 1200, 1264, 1328, 1488, 1552, 1712]) .zeroed 0
        (List.replicate 3 (.mallocLarge 4194280 0 0)) = .ok s ∧
      (gcAllocChunk s.heap s.arena).isOk = true ∧
      ((s.heap.availList s.arena.availChunks).tail.filter
        fun c => (s.heap.chunks c).chunktype = .log).length = 2 :=
    exists_eq_ok_and (by decide +kernel)
  have undisturbed : QueueUndisturbed
      (.fresh [chunksize] [1024, 1200, 1264, 1328, 1488, 1552, 1712]) .zeroed 0
      (List.replicate 3 (.mallocLarge 4194280 0 0)) :=
    queueUndisturbed_of_boot (exists_eq_ok_and (by decide +kernel))
  obtain ⟨head, retired, gcs, ok⟩ := queueRun_ok undisturbed ran
  obtain ⟨⟨c, h', arena'⟩, allocated⟩ := exists_eq_ok made
  refine ⟨s, head, retired, gcs, ran, ok.shape.shaped, ⟨_, allocated⟩, fun visits => ?_⟩
  have one := (visits_retired_iff ok.shape ok.unclaimed_retired allocated).mp visits
  rw [ok.shape.retired_eq, two] at one
  exact absurd one (by decide)

/-- **The queue breaks, and chunks stay unvisited.** A chunk is given back, the chunks that were
free before it are taken, and a region header of the next falls on a link of the queue. And
without that, of two retired log chunks a worker visits one. -/
theorem not_queueRun_shaped :
    (∃ s, queueRun strayedHeap .zeroed 0 (strayedOps ++ List.replicate 38 .gcAllocChunk ++
        [.mallocLarge 328 0 0, .mallocLarge 8 0 0]) = .ok s ∧
      ¬ ∃ head retired gcs, s.Shaped head retired gcs) ∧
    ∃ s head retired gcs,
      queueRun (.fresh [chunksize] [1024, 1200, 1264, 1328, 1488, 1552, 1712]) .zeroed 0
        (List.replicate 3 (.mallocLarge 4194280 0 0)) = .ok s ∧
      s.Shaped head retired gcs ∧ (∃ made, gcAllocChunk s.heap s.arena = .ok made) ∧
      ¬ (GcRun.idle s.heap s.arena).Visits retired :=
  ⟨strayed_run, unvisited_run⟩

end Lsmalloc
