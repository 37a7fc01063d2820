import Lsmalloc.Gc.Chunks

/-!
# The live chunk at the head

Regions are appended to the chunk at the head of `avail_chunks`, the one chunk of the queue
whose `live` flag is set. `LiveHead` says this of a queue that is a ring of descriptors. An
allocation may retire the head and put a new one before it, `gc_alloc_chunk` adds a chunk
at the other end, and `ql_remove` takes one from behind the head.
-/

namespace Lsmalloc

/-- What the collectors read of a chunk to decide what to do with it. -/
structure Marks where
  chunktype : ChunkType
  live : Bool
  gcing : Bool
deriving DecidableEq, Repr

def Chunk.marks (c : Chunk) : Marks := ⟨c.chunktype, c.live, c.gcing⟩

/-- The queue is a ring of descriptors, and its head is the one that is live. -/
structure LiveHead (h : Heap) (arena : Arena) (head : Nat) (rest : List Nat) : Prop where
  ring : IsQl h.availLink arena.availChunks (head :: rest)
  isChunk : ∀ c ∈ head :: rest, ⟨c, .chunk⟩ ∈ h.blocks
  live : (h.chunks head).live = true
  others : ∀ c ∈ rest, (h.chunks c).live = false

/-- A step that neither moves a chunk nor marks one. -/
structure SameQueue (h h' : Heap) : Prop where
  old : ∀ b ∈ h.blocks, b ∈ h'.blocks
  marks : ∀ c, (h'.chunks c).marks = (h.chunks c).marks
  availLink : h'.availLink = h.availLink

/-- A descriptor is new; no other one is marked. -/
structure ChunkAdded (h h' : Heap) (c : Nat) (marks : Marks) : Prop where
  blocks : h'.blocks = ⟨c, .chunk⟩ :: h.blocks
  fresh : ∀ b ∈ h.blocks, b.addr ≠ c
  nonnull : c ≠ 0
  marks : (h'.chunks c).marks = marks
  others : ∀ d, d ≠ c → (h'.chunks d).marks = (h.chunks d).marks

/-- The pointers of every descriptor but the given ones are as they were. -/
def SameLinks (h h' : Heap) (cs : List Nat) : Prop :=
  ∀ x, x ∉ cs → h'.availLink.next x = h.availLink.next x ∧
    h'.availLink.prev x = h.availLink.prev x

variable {h h' : Heap} {arena arena' : Arena} {head c : Nat} {rest : List Nat}

theorem Chunk.marks_eq {a b : Chunk} (same : a.marks = b.marks) :
    a.chunktype = b.chunktype ∧ a.live = b.live ∧ a.gcing = b.gcing := by
  simpa only [Chunk.marks, Marks.mk.injEq] using same

/-! ## Steps that leave the queue alone -/

theorem SameQueue.refl (h : Heap) : SameQueue h h := ⟨fun _ here => here, fun _ => rfl, rfl⟩

theorem SameQueue.trans {h'' : Heap} (first : SameQueue h h') (second : SameQueue h' h'') :
    SameQueue h h'' where
  old b member := second.old b (first.old b member)
  marks c := (second.marks c).trans (first.marks c)
  availLink := second.availLink.trans first.availLink

theorem SameQueue.newBlock {w : World} {object : Object} {p : Nat}
    (new : NewBlock h.toWorld w object p) : SameQueue h { h with toWorld := w } where
  old b member := by
    change b ∈ w.blocks
    rw [new.blocks]
    exact List.mem_cons_of_mem _ member
  marks _ := rfl
  availLink := rfl

/-- Fields of a descriptor other than its marks change. -/
theorem SameQueue.of_update {p : Nat} {chunk : Chunk} (world : h'.toWorld = h.toWorld)
    (chunks : h'.chunks = Function.update h.chunks p chunk)
    (marks : chunk.marks = (h.chunks p).marks) (availLink : h'.availLink = h.availLink) :
    SameQueue h h' where
  old b member := by rwa [world]
  marks c := by
    rw [chunks]
    by_cases same : c = p
    · rw [same, Function.update_self, marks]
    · rw [Function.update_of_ne same]
  availLink := availLink

theorem RegionPlaced.sameQueue {region size ptr threadid : Nat}
    (placed : RegionPlaced h h' c region size ptr threadid) : SameQueue h h' :=
  .of_update placed.world placed.chunks rfl placed.availLink

theorem SameQueue.migrate {gcChunk oldregion region : Nat}
    (migrated : gcRegionMigration h gcChunk oldregion = .ok (region, h')) : SameQueue h h' := by
  obtain ⟨w, new, placed⟩ := gcRegionMigration_effect migrated
  exact (SameQueue.newBlock new).trans placed.sameQueue

theorem LiveHead.of_same (inv : LiveHead h arena head rest) (same : SameQueue h h')
    (availChunks : arena'.availChunks = arena.availChunks) : LiveHead h' arena' head rest where
  ring := by
    rw [same.availLink, availChunks]
    exact inv.ring
  isChunk c member := same.old _ (inv.isChunk c member)
  live := (Chunk.marks_eq (same.marks head)).2.1.trans inv.live
  others c member := (Chunk.marks_eq (same.marks c)).2.1.trans (inv.others c member)

/-! ## What is on the queue -/

theorem LiveHead.head_not_mem (inv : LiveHead h arena head rest) : head ∉ rest :=
  (List.nodup_cons.mp inv.ring.nodup).1

theorem LiveHead.availChunks_eq (inv : LiveHead h arena head rest) : arena.availChunks = head :=
  inv.ring.first_eq

theorem LiveHead.availList_eq (inv : LiveHead h arena head rest) :
    h.availList arena.availChunks = head :: rest :=
  inv.ring.walk_blocks inv.isChunk

/-- A descriptor that is new is not on the queue. -/
theorem LiveHead.not_mem (inv : LiveHead h arena head rest)
    (fresh : ∀ b ∈ h.blocks, b.addr ≠ c) : c ∉ head :: rest := fun member =>
  fresh _ (inv.isChunk c member) rfl

/-! ## New chunks -/

theorem ChunkCreated.added {chunktype : ChunkType} {live : Bool} {addr : Nat}
    (created : ChunkCreated h h' arena arena' chunktype live c addr) :
    ChunkAdded h h' c ⟨chunktype, live, false⟩ := by
  obtain ⟨blocks, fresh, nonnull⟩ := chunkTaken_objects created.pool
  refine ⟨blocks, fresh, nonnull, ?_, ?_⟩
  · rw [created.chunks, Function.update_self]
    rfl
  · intro d other
    rw [created.chunks, Function.update_of_ne other]

theorem ChunkAllocated.added {chunktype : ChunkType} {addr : Nat}
    (allocated : ChunkAllocated h h' arena arena' chunktype c addr) :
    ChunkAdded h h' c ⟨chunktype, true, false⟩ := by
  obtain ⟨blocks, fresh, nonnull⟩ := chunkTaken_objects allocated.pool
  obtain ⟨garbage, chunks, _⟩ := allocated.chunks
  refine ⟨blocks, fresh, nonnull, ?_, ?_⟩
  · rw [chunks, Function.update_self]
    rfl
  · intro d other
    rw [chunks, Function.update_of_ne other]

theorem ChunkAdded.live_eq {marks : Marks} (added : ChunkAdded h h' c marks) {d : Nat}
    (other : d ≠ c) : (h'.chunks d).live = (h.chunks d).live :=
  (Chunk.marks_eq (added.others d other)).2.1

/-- A new head is in place of the old one, which is retired. -/
structure HeadReplaced (h h' : Heap) (head c : Nat) (rest : List Nat) : Prop where
  old : ∀ b ∈ h.blocks, b ∈ h'.blocks
  fresh : ∀ b ∈ h.blocks, b.addr ≠ c
  marks : (h'.chunks c).marks = ⟨.log, true, false⟩
  retired : (h'.chunks head).marks = { (h.chunks head).marks with live := false }
  others : ∀ d, d ≠ c → d ≠ head → (h'.chunks d).marks = (h.chunks d).marks
  links : SameLinks h h' (c :: head :: rest)

/-- `arena_malloc_large` appends to the head, or retires it and puts a new one before it. -/
theorem LiveHead.mallocLarge {size ptr threadid ret : Nat} (inv : LiveHead h arena head rest)
    (allocated : arenaMallocLarge h arena size ptr threadid = .ok (ret, h', arena')) :
    (LiveHead h' arena' head rest ∧ SameQueue h h') ∨
      ∃ c, LiveHead h' arena' c (head :: rest) ∧ HeadReplaced h h' head c rest := by
  obtain ⟨region, w, c, h₁, new, chosen, placed, _⟩ := arenaRegionAlloc_effect allocated
  have first : SameQueue h { h with toWorld := w } := .newBlock new
  have start : LiveHead { h with toWorld := w } arena head rest := inv.of_same first rfl
  rcases regionChunk_effect chosen with ⟨rfl, rfl, _⟩ | ⟨_, _, addr, effect⟩
  · have same := first.trans placed.sameQueue
    exact .inl ⟨inv.of_same same rfl, same⟩
  · rw [start.availChunks_eq] at effect
    -- The head is retired before the new chunk is made.
    have added := effect.added
    have absent := start.not_mem added.fresh
    have headOld : head ≠ c := fun same => absent (same ▸ List.mem_cons_self)
    obtain ⟨_, link, first'⟩ := effect.log rfl
    have ring : IsQl (qrNew h.availLink c) arena.availChunks (head :: rest) :=
      inv.ring.congr fun x member => qrNew_other (by rintro rfl; exact absent member)
    have marks := placed.sameQueue.marks
    have retired : (h'.chunks head).marks = { (h.chunks head).marks with live := false } := by
      rw [marks head, added.others head headOld]
      simp [Heap.putChunk, Chunk.marks]
    have others : ∀ d, d ≠ c → d ≠ head → (h'.chunks d).marks = (h.chunks d).marks := by
      intro d other notHead
      rw [marks d, added.others d other]
      simp [Heap.putChunk, notHead]
    have new' : (h'.chunks c).marks = ⟨.log, true, false⟩ := (marks c).trans added.marks
    have old : ∀ b ∈ h.blocks, b ∈ h'.blocks := by
      intro b member
      rw [placed.world, added.blocks]
      exact List.mem_cons_of_mem _ (first.old b member)
    refine .inr ⟨c, ⟨?_, ?_, ?_, ?_⟩, old, ?_, new', retired, others, ?_⟩
    · rw [placed.availLink, link, first']
      exact ring.headInsert absent added.nonnull (isRing_qrNew _ _)
    · intro d member
      rcases List.mem_cons.mp member with rfl | inOld
      · rw [placed.world, added.blocks]
        exact List.mem_cons_self
      · exact old _ (inv.isChunk d inOld)
    · exact congrArg Marks.live new'
    · intro d member
      rcases List.mem_cons.mp member with rfl | inRest
      · exact congrArg Marks.live retired
      · have notHead : d ≠ head := by rintro rfl; exact inv.head_not_mem inRest
        have notNew : d ≠ c := by rintro rfl; exact absent member
        rw [(Chunk.marks_eq (others d notNew notHead)).2.1]
        exact inv.others d inRest
    · exact fun b member => added.fresh b (first.old b member)
    · intro x outside
      rw [List.mem_cons, not_or] at outside
      have inserted := ring.headInsert_other outside.2 outside.1
      have selfLinked : (qrNew h.availLink c).next x = h.availLink.next x ∧
          (qrNew h.availLink c).prev x = h.availLink.prev x := qrNew_other outside.1
      rw [placed.availLink, link]
      exact ⟨inserted.1.trans selfLinked.1, inserted.2.trans selfLinked.2⟩

/-- A descriptor of no queue, not live, is put at the tail. -/
theorem LiveHead.tailInsert (inv : LiveHead h arena head rest) (absent : c ∉ head :: rest)
    (nonnull : c ≠ 0) (isChunk : ⟨c, .chunk⟩ ∈ h.blocks) (retired : (h.chunks c).live = false) :
    LiveHead { h with availLink := (qlTailInsert h.availLink arena.availChunks c).1 }
        { arena with availChunks := (qlTailInsert h.availLink arena.availChunks c).2 } head
        (rest ++ [c]) ∧
      SameLinks h { h with availLink := (qlTailInsert h.availLink arena.availChunks c).1 }
        (c :: head :: rest) := by
  refine ⟨⟨?_, ?_, inv.live, ?_⟩, ?_⟩
  · exact inv.ring.tailInsert absent nonnull fun empty => absurd empty (List.cons_ne_nil _ _)
  · intro d member
    rw [← List.cons_append, List.mem_append, List.mem_singleton] at member
    rcases member with old | rfl
    · exact inv.isChunk d old
    · exact isChunk
  · intro d member
    rw [List.mem_append, List.mem_singleton] at member
    rcases member with old | rfl
    · exact inv.others d old
    · exact retired
  · intro x outside
    rw [List.mem_cons, not_or] at outside
    exact inv.ring.tailInsert_other outside.2 outside.1

/-- A new descriptor leaves the queue as it is until it is inserted. -/
theorem LiveHead.chunkAdded {marks : Marks} (inv : LiveHead h arena head rest)
    (added : ChunkAdded h h' c marks) (availLink : h'.availLink = h.availLink)
    (availChunks : arena'.availChunks = arena.availChunks) : LiveHead h' arena' head rest := by
  have absent := inv.not_mem added.fresh
  have other : ∀ d ∈ head :: rest, d ≠ c := by
    rintro d member rfl
    exact absent member
  refine ⟨?_, ?_, ?_, ?_⟩
  · rw [availLink, availChunks]
    exact inv.ring
  · intro d member
    rw [added.blocks]
    exact List.mem_cons_of_mem _ (inv.isChunk d member)
  · rw [added.live_eq (other head List.mem_cons_self)]
    exact inv.live
  · intro d member
    rw [added.live_eq (other d (List.mem_cons_of_mem _ member))]
    exact inv.others d member

/-- `gc_alloc_chunk` puts a new chunk last. -/
theorem LiveHead.gcAlloc (inv : LiveHead h arena head rest)
    (allocated : gcAllocChunk h arena = .ok (c, h', arena')) :
    LiveHead h' arena' head (rest ++ [c]) ∧ ChunkAdded h h' c ⟨.gc, false, false⟩ ∧
      SameLinks h h' (c :: head :: rest) := by
  obtain ⟨addr, h₁, arena₁, created, _, rfl, rfl⟩ := gcAllocChunk_effect allocated
  have added := created.added
  have kept : LiveHead h₁ arena₁ head rest :=
    inv.chunkAdded added created.availLink (by rw [created.others])
  have isChunk : (⟨c, .chunk⟩ : Block) ∈ h₁.blocks := by
    rw [added.blocks]
    exact List.mem_cons_self
  have inserted := kept.tailInsert (inv.not_mem added.fresh) added.nonnull isChunk
    (congrArg Marks.live added.marks)
  have sameFirst : arena₁.availChunks = arena.availChunks := by rw [created.others]
  rw [created.availLink, sameFirst] at inserted
  refine ⟨inserted.1, ⟨added.blocks, added.fresh, added.nonnull, added.marks, added.others⟩, ?_⟩
  intro x outside
  have same := inserted.2 x outside
  rw [created.availLink] at same
  exact same

/-! ## Removal -/

/-- `ql_remove` of a chunk behind the head. -/
theorem LiveHead.remove (inv : LiveHead h arena head rest) (member : c ∈ rest) :
    LiveHead { h with availLink := (qlRemove h.availLink arena.availChunks c).1 }
        { arena with availChunks := (qlRemove h.availLink arena.availChunks c).2 } head
        (rest.erase c) := by
  have notHead : head ≠ c := by rintro rfl; exact inv.head_not_mem member
  have inQueue : c ∈ head :: rest := List.mem_cons_of_mem _ member
  have left : (head :: rest).erase c = head :: rest.erase c := by simp [notHead]
  have removed := inv.ring.remove inQueue
  rw [left] at removed
  refine ⟨removed, ?_, inv.live, fun d inRest => inv.others d (List.mem_of_mem_erase inRest)⟩
  intro d inLeft
  rw [← left] at inLeft
  exact inv.isChunk d (List.mem_of_mem_erase inLeft)

end Lsmalloc
