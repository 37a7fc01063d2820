import Lsmalloc.Gc.LiveHead

/-!
# What a step does to `avail_chunks`

The threads that work on `avail_chunks` at one time hold pointers to its chunks, and to
chunks that others have taken off it. `QueueMoved` says what a step of one thread leaves of
what the others rely on: it inserts a chunk, removes one, claims one, or is quiet.
-/

namespace Lsmalloc

/-- The chunk a step inserts at the tail, takes off the queue, or sets `gcing` of. -/
inductive QueueChange
  | quiet
  | insert (c : Nat)
  | remove (c : Nat)
  | claim (c : Nat)
deriving DecidableEq, Repr

/-- A descriptor that is on the queue, or was and is linked to itself. -/
structure Anchored (h : Heap) (queue : List Nat) (c : Nat) : Prop where
  isChunk : ⟨c, .chunk⟩ ∈ h.blocks
  place : c ∈ queue ∨ h.availLink.IsRing [c]

/-- One step of a thread on a queue with a live head. -/
structure QueueMoved (h h' : Heap) (arena' : Arena) (change : QueueChange) (head : Nat)
    (rest : List Nat) (head' : Nat) (rest' : List Nat) : Prop where
  queue : LiveHead h' arena' head' rest'
  old : ∀ b ∈ h.blocks, b ∈ h'.blocks
  chunktype : ∀ c, ⟨c, .chunk⟩ ∈ h.blocks → (h'.chunks c).chunktype = (h.chunks c).chunktype
  retired : ∀ c, ⟨c, .chunk⟩ ∈ h.blocks → (h.chunks c).live = false → (h'.chunks c).live = false
  gcing : ∀ c, ⟨c, .chunk⟩ ∈ h.blocks → change ≠ .claim c →
    (h'.chunks c).gcing = (h.chunks c).gcing
  claimed : ∀ c, change = .claim c → (h'.chunks c).gcing = true
  stays : ∀ c ∈ head :: rest, change ≠ .remove c → c ∈ head' :: rest'
  removed : ∀ c, change = .remove c → c ∉ head' :: rest' ∧ h'.availLink.IsRing [c]
  off : ∀ c, ⟨c, .chunk⟩ ∈ h.blocks → c ∉ head :: rest → change ≠ .insert c →
    c ∉ head' :: rest'
  self : ∀ c, ⟨c, .chunk⟩ ∈ h.blocks → c ∉ head :: rest → change ≠ .insert c →
    h.availLink.IsRing [c] → h'.availLink.IsRing [c]
  inserted : ∀ c, change = .insert c → c ∈ rest'

variable {h h' : Heap} {arena arena' : Arena} {change : QueueChange} {head head' c : Nat}
  {rest rest' : List Nat}

/-! ## What the others rely on -/

/-- A pointer that is on the queue or linked to itself stays so. -/
theorem QueueMoved.anchored (moved : QueueMoved h h' arena' change head rest head' rest')
    (anchored : Anchored h (head :: rest) c) : Anchored h' (head' :: rest') c := by
  refine ⟨moved.old _ anchored.isChunk, ?_⟩
  by_cases member : c ∈ head :: rest
  · by_cases taken : change = .remove c
    · exact .inr (moved.removed c taken).2
    · exact .inl (moved.stays c member taken)
  · have self := anchored.place.resolve_left member
    by_cases put : change = .insert c
    · exact .inl (List.mem_cons_of_mem _ (moved.inserted c put))
    · exact .inr (moved.self c anchored.isChunk member put self)

/-- A claim is never taken back. -/
theorem QueueMoved.gcing_mono (moved : QueueMoved h h' arena' change head rest head' rest')
    (isChunk : ⟨c, .chunk⟩ ∈ h.blocks) (gcing : (h.chunks c).gcing = true) :
    (h'.chunks c).gcing = true := by
  by_cases taken : change = .claim c
  · exact moved.claimed c taken
  · rw [moved.gcing c isChunk taken, gcing]

/-! ## The steps -/

/-- A step that leaves the queue and the marks alone is quiet. -/
theorem SameQueue.moved (same : SameQueue h h') (queue : LiveHead h' arena' head rest) :
    QueueMoved h h' arena' .quiet head rest head rest := by
  have marks : ∀ c, (h'.chunks c).chunktype = (h.chunks c).chunktype ∧
      (h'.chunks c).live = (h.chunks c).live ∧ (h'.chunks c).gcing = (h.chunks c).gcing :=
    fun c => Chunk.marks_eq (same.marks c)
  constructor
  case queue => exact queue
  case old => exact same.old
  case chunktype => exact fun c _ => (marks c).1
  case retired => exact fun c _ retired => (marks c).2.1.trans retired
  case gcing => exact fun c _ _ => (marks c).2.2
  case stays => exact fun c member _ => member
  case off => exact fun c _ outside _ => outside
  case self =>
    intro c _ _ _ self
    rw [same.availLink]
    exact self
  all_goals intro c impossible; cases impossible

/-- A new descriptor that is not yet on the queue. -/
theorem LiveHead.moved_of_added {marks : Marks} (inv : LiveHead h arena head rest)
    (added : ChunkAdded h h' c marks) (availLink : h'.availLink = h.availLink)
    (availChunks : arena'.availChunks = arena.availChunks) :
    QueueMoved h h' arena' .quiet head rest head rest := by
  have others : ∀ d, ⟨d, .chunk⟩ ∈ h.blocks → (h'.chunks d).marks = (h.chunks d).marks := by
    intro d isChunk
    apply added.others
    rintro rfl
    exact added.fresh _ isChunk rfl
  constructor
  case queue => exact inv.chunkAdded added availLink availChunks
  case old =>
    intro b member
    rw [added.blocks]
    exact List.mem_cons_of_mem _ member
  case chunktype => exact fun d isChunk => (Chunk.marks_eq (others d isChunk)).1
  case retired =>
    exact fun d isChunk retired => (Chunk.marks_eq (others d isChunk)).2.1.trans retired
  case gcing => exact fun d isChunk _ => (Chunk.marks_eq (others d isChunk)).2.2
  case stays => exact fun d member _ => member
  case off => exact fun d _ outside _ => outside
  case self =>
    intro d _ _ _ self
    rw [availLink]
    exact self
  all_goals intro d impossible; cases impossible

/-- `ql_tail_insert` of a descriptor that is on no queue and not live. -/
theorem LiveHead.moved_insert (inv : LiveHead h arena head rest) (absent : c ∉ head :: rest)
    (nonnull : c ≠ 0) (isChunk : ⟨c, .chunk⟩ ∈ h.blocks) (retired : (h.chunks c).live = false) :
    QueueMoved h { h with availLink := (qlTailInsert h.availLink arena.availChunks c).1 }
      { arena with availChunks := (qlTailInsert h.availLink arena.availChunks c).2 }
      (.insert c) head rest head (rest ++ [c]) := by
  obtain ⟨queue, links⟩ := inv.tailInsert absent nonnull isChunk retired
  constructor
  case queue => exact queue
  case old => exact fun b member => member
  case chunktype => exact fun _ _ => rfl
  case retired => exact fun _ _ retired => retired
  case gcing => exact fun _ _ _ => rfl
  case stays =>
    intro d member _
    rw [← List.cons_append]
    exact List.mem_append_left _ member
  case off =>
    intro d _ outside other
    rw [← List.cons_append, List.mem_append, List.mem_singleton]
    rintro (inOld | rfl)
    · exact outside inOld
    · exact other rfl
  case self =>
    intro d _ outside other self
    have notNew : d ∉ c :: head :: rest := by
      rw [List.mem_cons]
      rintro (rfl | inOld)
      · exact other rfl
      · exact outside inOld
    exact self.congr fun x member => List.mem_singleton.mp member ▸ links d notNew
  case inserted =>
    rintro d same
    cases same
    simp
  all_goals intro d impossible; cases impossible

/-- The store `chunk->gcing = true`. -/
theorem LiveHead.moved_claim (inv : LiveHead h arena head rest) (c : Nat) :
    QueueMoved h (h.putChunk c { h.chunks c with gcing := true }) arena (.claim c) head rest head
      rest := by
  have chunktype : ∀ d, ((h.putChunk c { h.chunks c with gcing := true }).chunks d).chunktype =
      (h.chunks d).chunktype := by
    intro d
    simp only [Heap.putChunk, Function.update_apply]
    split <;> simp_all
  have live : ∀ d, ((h.putChunk c { h.chunks c with gcing := true }).chunks d).live =
      (h.chunks d).live := by
    intro d
    simp only [Heap.putChunk, Function.update_apply]
    split <;> simp_all
  constructor
  case queue =>
    exact ⟨inv.ring, inv.isChunk, (live head).trans inv.live,
      fun d member => (live d).trans (inv.others d member)⟩
  case old => exact fun b member => member
  case chunktype => exact fun d _ => chunktype d
  case retired => exact fun d _ retired => (live d).trans retired
  case gcing =>
    intro d _ other
    have notSelf : d ≠ c := by
      rintro rfl
      exact other rfl
    simp [Heap.putChunk, notSelf]
  case claimed =>
    rintro d same
    cases same
    simp [Heap.putChunk]
  case stays => exact fun d member _ => member
  case off => exact fun d _ outside _ => outside
  case self => exact fun d _ _ _ self => self
  all_goals intro d impossible; cases impossible

/-- `ql_remove` of a chunk that is not live, on the queue or taken off it before. -/
theorem LiveHead.moved_remove (inv : LiveHead h arena head rest)
    (anchored : Anchored h (head :: rest) c) (retired : (h.chunks c).live = false) :
    QueueMoved h { h with availLink := (qlRemove h.availLink arena.availChunks c).1 }
      { arena with availChunks := (qlRemove h.availLink arena.availChunks c).2 }
      (.remove c) head rest head (rest.erase c) := by
  have notHead : head ≠ c := by
    rintro rfl
    rw [inv.live] at retired
    cases retired
  have removal : qlRemove h.availLink arena.availChunks c =
      (qrRemove h.availLink c, arena.availChunks) := by
    simp [qlRemove, inv.availChunks_eq, notHead]
  have queue : LiveHead { h with availLink := (qlRemove h.availLink arena.availChunks c).1 }
      { arena with availChunks := (qlRemove h.availLink arena.availChunks c).2 } head
      (rest.erase c) := by
    by_cases member : c ∈ rest
    · exact inv.remove member
    · have outside : c ∉ head :: rest := by simp [member, notHead.symm]
      rw [List.erase_of_not_mem member, removal,
        qrRemove_self (anchored.place.resolve_left outside)]
      exact inv
  have gone : c ∉ head :: rest.erase c := by
    rw [List.mem_cons, not_or]
    exact ⟨notHead.symm, (List.nodup_cons.mp inv.ring.nodup).2.not_mem_erase⟩
  constructor
  case queue => exact queue
  case old => exact fun b member => member
  case chunktype => exact fun _ _ => rfl
  case retired => exact fun _ _ retired => retired
  case gcing => exact fun _ _ _ => rfl
  case stays =>
    intro d member other
    have notSelf : d ≠ c := by
      rintro rfl
      exact other rfl
    rcases List.mem_cons.mp member with rfl | behind
    · exact List.mem_cons_self
    · exact List.mem_cons_of_mem _ ((List.mem_erase_of_ne notSelf).mpr behind)
  case removed =>
    rintro d same
    cases same
    refine ⟨gone, ?_⟩
    rw [removal]
    exact isRing_qrRemove_self _ _
  case off =>
    intro d _ outside _ inLeft
    rw [List.mem_cons, not_or] at outside
    rcases List.mem_cons.mp inLeft with rfl | left
    · exact outside.1 rfl
    · exact outside.2 (List.mem_of_mem_erase left)
  case self =>
    intro d _ outside _ self
    rcases anchored.place with member | selfLinked
    · exact self.congr fun x isSelf => List.mem_singleton.mp isSelf ▸
        inv.ring.remove_other member outside
    · rw [removal, qrRemove_self selfLinked]
      exact self
  all_goals intro d impossible; cases impossible

/-- `arena_malloc_large` may put a new head before the old one. -/
theorem LiveHead.moved_mallocLarge {size ptr threadid ret : Nat} (inv : LiveHead h arena head rest)
    (allocated : arenaMallocLarge h arena size ptr threadid = .ok (ret, h', arena')) :
    ∃ head' rest', QueueMoved h h' arena' .quiet head rest head' rest' := by
  rcases inv.mallocLarge allocated with ⟨queue, same⟩ | ⟨c, queue, replaced⟩
  · exact ⟨head, rest, same.moved queue⟩
  · have notNew : ∀ d, ⟨d, .chunk⟩ ∈ h.blocks → d ≠ c := by
      rintro d isChunk rfl
      exact replaced.fresh _ isChunk rfl
    have marks : ∀ d, ⟨d, .chunk⟩ ∈ h.blocks →
        (h'.chunks d).chunktype = (h.chunks d).chunktype ∧
        ((h.chunks d).live = false → (h'.chunks d).live = false) ∧
        (h'.chunks d).gcing = (h.chunks d).gcing := by
      intro d isChunk
      by_cases atHead : d = head
      · obtain ⟨chunktype, live, gcing⟩ :
            (h'.chunks head).chunktype = (h.chunks head).chunktype ∧
              (h'.chunks head).live = false ∧ (h'.chunks head).gcing = (h.chunks head).gcing := by
          simpa only [Chunk.marks, Marks.mk.injEq] using replaced.retired
        rw [atHead]
        exact ⟨chunktype, fun _ => live, gcing⟩
      · obtain ⟨chunktype, live, gcing⟩ :=
          Chunk.marks_eq (replaced.others d (notNew d isChunk) atHead)
        exact ⟨chunktype, live.trans, gcing⟩
    refine ⟨c, head :: rest, ?_⟩
    have outside : ∀ d, ⟨d, .chunk⟩ ∈ h.blocks → d ∉ head :: rest → d ∉ c :: head :: rest := by
      intro d isChunk absent
      rw [List.mem_cons, not_or]
      exact ⟨notNew d isChunk, absent⟩
    constructor
    case queue => exact queue
    case old => exact replaced.old
    case chunktype => exact fun d isChunk => (marks d isChunk).1
    case retired => exact fun d isChunk => (marks d isChunk).2.1
    case gcing => exact fun d isChunk _ => (marks d isChunk).2.2
    case stays => exact fun d member _ => List.mem_cons_of_mem _ member
    case off => exact fun d isChunk absent _ => outside d isChunk absent
    case self =>
      intro d isChunk absent _ self
      exact self.congr fun x isSelf => List.mem_singleton.mp isSelf ▸
        replaced.links d (outside d isChunk absent)
    all_goals intro d impossible; cases impossible

end Lsmalloc
