import Lsmalloc.Arena.Run
import Lsmalloc.Gc.LiveHead

/-!
# The shape of `avail_chunks`

Log chunks are inserted at the head of `avail_chunks`, GC chunks at its tail, and log
chunks that are not live are taken out of the middle, by the arena and by both collectors.
In any order of these calls the queue reads as a live log chunk, the retired log chunks,
and the GC chunks, for as long as the headers that are stored go to PMEM
(`shapeRun_hasShape`).
-/

namespace Lsmalloc

/-- The calls that change `avail_chunks`. -/
inductive ShapeOp
  /-- `arena_malloc_large(arena, size, ptr)` by the thread `threadid`. -/
  | mallocLarge (size ptr threadid : Nat)
  /-- `gc_alloc_chunk`. -/
  | gcAllocChunk
  /-- `arena_chunk_dalloc` of a retired log chunk. -/
  | chunkDalloc (chunk : Nat)
  /-- `chunk_do_slowgc` of a retired log chunk into a GC chunk, run to its end. -/
  | slowgc (fuel chunk gcChunk : Nat)
  /-- The `ql_remove` that ends `chunk_do_slowgc`, apart from the migrations before it. -/
  | unlink (chunk : Nat)
deriving DecidableEq, Repr

/-- A log chunk on `avail_chunks` that is not live. -/
def ArenaState.IsRetired (s : ArenaState) (c : Nat) : Prop :=
  c ∈ s.heap.availList s.arena.availChunks ∧ (s.heap.chunks c).chunktype = .log ∧
    (s.heap.chunks c).live = false

instance (s : ArenaState) (c : Nat) : Decidable (s.IsRetired c) := by
  unfold ArenaState.IsRetired
  infer_instance

/-- One call. -/
def ArenaState.shapeStep (s : ArenaState) : ShapeOp → Except Fault ArenaState
  | .mallocLarge size ptr threadid => do
      let (_, heap, arena) ← arenaMallocLarge s.heap s.arena size ptr threadid
      .ok ⟨heap, arena⟩
  | .gcAllocChunk => do
      let (_, heap, arena) ← Lsmalloc.gcAllocChunk s.heap s.arena
      .ok ⟨heap, arena⟩
  | .chunkDalloc chunk =>
      if s.IsRetired chunk then do
        let (heap, arena) ← arenaChunkDalloc s.heap s.arena chunk
        .ok ⟨heap, arena⟩
      else .error .contract
  | .slowgc fuel chunk gcChunk =>
      if s.IsRetired chunk then do
        let (heap, arena) ← chunkDoSlowgc fuel s.heap s.arena chunk gcChunk
        .ok ⟨heap, arena⟩
      else .error .contract
  | .unlink chunk =>
      if s.IsRetired chunk then do
        let (first, heap) ← s.heap.availRemove s.arena.availChunks chunk
        .ok ⟨heap, { s.arena with availChunks := first }⟩
      else .error .contract

/-- An arena with its first log chunk, and the calls in order. -/
def shapeRun (h : Heap) (arena : Arena) (ind : Nat) (ops : List ShapeOp) :
    Except Fault ArenaState := do
  let s ← arenaBoot h arena ind
  Execution.run ArenaState.shapeStep s.toArenaState ops

/-- The queue is a live log chunk, retired log chunks and GC chunks, in this order. -/
structure ArenaState.Shaped (s : ArenaState) (head : Nat) (retired gcs : List Nat) : Prop where
  ring : IsQl s.heap.availLink s.arena.availChunks (head :: (retired ++ gcs))
  reads : s.heap.availList s.arena.availChunks = head :: (retired ++ gcs)
  first : (s.heap.chunks head).chunktype = .log ∧ (s.heap.chunks head).live = true
  middle : ∀ c ∈ retired, (s.heap.chunks c).chunktype = .log ∧ (s.heap.chunks c).live = false
  last : ∀ c ∈ gcs, (s.heap.chunks c).chunktype = .gc ∧ (s.heap.chunks c).live = false

/-! ## The invariant -/

/-- The head is the live chunk, and log chunks come before GC chunks. -/
structure Shape (h : Heap) (arena : Arena) (head : Nat) (retired gcs : List Nat) : Prop where
  queue : LiveHead h arena head (retired ++ gcs)
  logs : ∀ c ∈ head :: retired, (h.chunks c).chunktype = .log
  gcs : ∀ c ∈ gcs, (h.chunks c).chunktype = .gc

variable {h h' : Heap} {arena arena' : Arena} {head c : Nat} {retired gcs : List Nat}

/-- The invariant gives the claimed shape. -/
theorem Shape.shaped {s : ArenaState} (shape : Shape s.heap s.arena head retired gcs) :
    s.Shaped head retired gcs := by
  have others := shape.queue.others
  refine ⟨shape.queue.ring, shape.queue.availList_eq,
    ⟨shape.logs head List.mem_cons_self, shape.queue.live⟩, ?_, ?_⟩
  · intro c member
    exact ⟨shape.logs c (List.mem_cons_of_mem _ member), others c (List.mem_append_left _ member)⟩
  · intro c member
    exact ⟨shape.gcs c member, others c (List.mem_append_right _ member)⟩

/-- The retired chunks are the log chunks behind the head. -/
theorem Shape.retired_eq (shape : Shape h arena head retired gcs) :
    retired = (h.availList arena.availChunks).tail.filter fun c => (h.chunks c).chunktype = .log := by
  have logs : retired.filter (fun c => (h.chunks c).chunktype = .log) = retired :=
    List.filter_eq_self.mpr fun c member => by simp [shape.logs c (List.mem_cons_of_mem _ member)]
  have none : gcs.filter (fun c => (h.chunks c).chunktype = .log) = [] :=
    List.filter_eq_nil_iff.mpr fun c member => by simp [shape.gcs c member]
  rw [shape.queue.availList_eq, List.tail_cons, List.filter_append, logs, none, List.append_nil]

/-- A retired log chunk is one of the chunks between the head and the GC chunks. -/
theorem Shape.mem_retired {s : ArenaState} (shape : Shape s.heap s.arena head retired gcs)
    (isRetired : s.IsRetired c) : c ∈ retired := by
  obtain ⟨listed, log, notLive⟩ := isRetired
  rw [shape.queue.availList_eq, List.mem_cons, List.mem_append] at listed
  rcases listed with rfl | inRetired | inGcs
  · rw [shape.queue.live] at notLive
    cases notLive
  · exact inRetired
  · rw [shape.gcs c inGcs] at log
    cases log

/-! ## The steps -/

theorem SameQueue.chunktype (same : SameQueue h h') (c : Nat) :
    (h'.chunks c).chunktype = (h.chunks c).chunktype :=
  (Chunk.marks_eq (same.marks c)).1

theorem Shape.of_same (shape : Shape h arena head retired gcs) (same : SameQueue h h')
    (availChunks : arena'.availChunks = arena.availChunks) :
    Shape h' arena' head retired gcs where
  queue := shape.queue.of_same same availChunks
  logs c member := (same.chunktype c).trans (shape.logs c member)
  gcs c member := (same.chunktype c).trans (shape.gcs c member)

/-- `arena_malloc_large` keeps the shape; a chunk it adds is the new head. -/
theorem Shape.mallocLarge {size ptr threadid ret : Nat} (shape : Shape h arena head retired gcs)
    (allocated : arenaMallocLarge h arena size ptr threadid = .ok (ret, h', arena')) :
    ∃ head' retired', Shape h' arena' head' retired' gcs := by
  rcases shape.queue.mallocLarge allocated with ⟨queue, same⟩ | ⟨c, queue, replaced⟩
  · exact ⟨head, retired, queue, fun c member => (same.chunktype c).trans (shape.logs c member),
      fun c member => (same.chunktype c).trans (shape.gcs c member)⟩
  · have kept : ∀ d ∈ head :: (retired ++ gcs),
        (h'.chunks d).chunktype = (h.chunks d).chunktype := by
      intro d member
      have notNew : d ≠ c := by
        rintro rfl
        exact shape.queue.not_mem replaced.fresh member
      by_cases isHead : d = head
      · subst isHead
        exact congrArg Marks.chunktype replaced.retired
      · exact congrArg Marks.chunktype (replaced.others d notNew isHead)
    refine ⟨c, head :: retired, queue, ?_, ?_⟩
    · intro d member
      rcases List.mem_cons.mp member with rfl | inLogs
      · exact congrArg Marks.chunktype replaced.marks
      · rw [kept d (by simpa using List.mem_append_left gcs inLogs)]
        exact shape.logs d inLogs
    · intro d member
      rw [kept d (List.mem_cons_of_mem _ (List.mem_append_right _ member))]
      exact shape.gcs d member

/-- `gc_alloc_chunk` adds a GC chunk behind the others. -/
theorem Shape.gcAlloc (shape : Shape h arena head retired gcs)
    (allocated : gcAllocChunk h arena = .ok (c, h', arena')) :
    Shape h' arena' head retired (gcs ++ [c]) := by
  obtain ⟨queue, added, _⟩ := shape.queue.gcAlloc allocated
  have absent := shape.queue.not_mem added.fresh
  have kept : ∀ d ∈ head :: (retired ++ gcs),
      (h'.chunks d).chunktype = (h.chunks d).chunktype := by
    intro d member
    exact congrArg Marks.chunktype (added.others d (by rintro rfl; exact absent member))
  refine ⟨by rwa [← List.append_assoc], ?_, ?_⟩
  · intro d member
    rw [kept d (by simpa using List.mem_append_left gcs member)]
    exact shape.logs d member
  · intro d member
    rw [List.mem_append, List.mem_singleton] at member
    rcases member with old | rfl
    · rw [kept d (List.mem_cons_of_mem _ (List.mem_append_right _ old))]
      exact shape.gcs d old
    · exact congrArg Marks.chunktype added.marks

/-- Taking a retired log chunk off the queue leaves the order of the others. -/
theorem Shape.remove (shape : Shape h arena head retired gcs) (member : c ∈ retired) :
    Shape { h with availLink := (qlRemove h.availLink arena.availChunks c).1 }
      { arena with availChunks := (qlRemove h.availLink arena.availChunks c).2 } head
      (retired.erase c) gcs where
  queue := by
    have removed := shape.queue.remove (List.mem_append_left gcs member)
    rwa [List.erase_append_left _ member] at removed
  logs d inLogs := by
    refine shape.logs d ?_
    rcases List.mem_cons.mp inLogs with rfl | inRest
    · exact List.mem_cons_self
    · exact List.mem_cons_of_mem _ (List.mem_of_mem_erase inRest)
  gcs := shape.gcs

/-- A round of the evacuation keeps the shape, and adds GC chunks at most. -/
theorem Shape.evacuateRegion {e e' : Evacuation} {region : Nat}
    (shape : Shape e.heap e.arena head retired gcs)
    (evacuated : evacuateRegion e region = .ok e') :
    ∃ gcs', Shape e'.heap e'.arena head retired gcs' := by
  rcases evacuateRegion_effect evacuated with
    ⟨_, rfl⟩ | ⟨_, gcChunk, h₁, arena₁, new, chosen, migrated, same, _, _⟩
  · exact ⟨gcs, shape⟩
  · have moved : SameQueue h₁ e'.heap := .migrate migrated
    rcases chosen with ⟨rfl, rfl, _⟩ | allocated
    · exact ⟨gcs, shape.of_same moved (by rw [same])⟩
    · exact ⟨_, (shape.gcAlloc allocated).of_same moved (by rw [same])⟩

/-- `chunk_do_slowgc` takes the chunk off the queue, and adds GC chunks at most. -/
theorem Shape.chunkDoSlowgc {fuel gcChunk : Nat} (shape : Shape h arena head retired gcs)
    (member : c ∈ retired)
    (collected : chunkDoSlowgc fuel h arena c gcChunk = .ok (h', arena')) :
    ∃ gcs', Shape h' arena' head (retired.erase c) gcs' := by
  obtain ⟨chunk, _, collected⟩ := Execution.bind_eq_ok.mp collected
  split at collected
  · obtain ⟨_, _, rfl, rfl⟩ := arenaChunkDalloc_effect collected
    have removed := shape.remove member
    exact ⟨gcs, removed.of_same (SameQueue.refl _) rfl⟩
  · obtain ⟨e, evacuated, collected⟩ := Execution.bind_eq_ok.mp collected
    cases collected
    obtain ⟨e₁, looped, heap, arena, _⟩ := evacuate_effect evacuated
    have preserved : ∀ (e : Evacuation) region e',
        (∃ gcs', Shape e.heap e.arena head retired gcs') →
        Lsmalloc.evacuateRegion e region = .ok e' →
        ∃ gcs', Shape e'.heap e'.arena head retired gcs' :=
      fun _ _ _ ⟨_, before⟩ round => before.evacuateRegion round
    obtain ⟨gcs', kept⟩ := evacuateFrom_invariant preserved ⟨gcs, shape⟩ looped
    rw [heap, arena]
    exact ⟨gcs', kept.remove member⟩

/-! ## The run -/

/-- The invariant of a run. -/
def ArenaState.HasShape (s : ArenaState) : Prop :=
  ∃ head retired gcs, Shape s.heap s.arena head retired gcs

/-- A new arena has one chunk, which is live and not claimed. -/
theorem arenaBoot_shape {ind : Nat} {s : ArenaRun} (booted : arenaBoot h arena ind = .ok s) :
    ∃ c, Shape s.heap s.arena c [] [] ∧ (s.heap.chunks c).gcing = false := by
  obtain ⟨c, chunks, _⟩ := arenaBoot_chunks booted
  obtain ⟨⟨h₁, arena₁⟩, _, booted⟩ := Execution.bind_eq_ok.mp booted
  obtain ⟨⟨d, h₂, arena₂⟩, allocated, booted⟩ := Execution.bind_eq_ok.mp booted
  cases booted
  obtain ⟨addr, effect⟩ := arenaChunkAlloc_effect allocated
  have added := effect.added
  have isChunk : ⟨c, .chunk⟩ ∈ h₂.blocks := ((chunks.out.new c).mp (by simp)).1
  have first : arena₂.availChunks = d := by
    rw [(effect.log rfl).2.2]
    rfl
  have same : d = c := first.symm.trans chunks.logRing.first_eq
  subst same
  refine ⟨d, ⟨⟨chunks.logRing, ?_, congrArg Marks.live added.marks, by simp⟩, ?_, by simp⟩,
    congrArg Marks.gcing added.marks⟩
  · simpa using isChunk
  · intro e member
    obtain rfl := List.mem_singleton.mp member
    exact congrArg Marks.chunktype added.marks

/-- Every call keeps the shape. -/
theorem ArenaState.hasShape_step {s s' : ArenaState} {op : ShapeOp} (inv : s.HasShape)
    (stepped : s.shapeStep op = .ok s') : s'.HasShape := by
  obtain ⟨head, retired, gcs, shape⟩ := inv
  cases op with
  | mallocLarge size ptr threadid =>
      obtain ⟨⟨ret, heap, arena⟩, allocated, stepped⟩ := Execution.bind_eq_ok.mp stepped
      cases stepped
      obtain ⟨head', retired', kept⟩ := shape.mallocLarge allocated
      exact ⟨head', retired', gcs, kept⟩
  | gcAllocChunk =>
      obtain ⟨⟨c, heap, arena⟩, allocated, stepped⟩ := Execution.bind_eq_ok.mp stepped
      cases stepped
      exact ⟨head, retired, gcs ++ [c], shape.gcAlloc allocated⟩
  | chunkDalloc chunk =>
      simp only [ArenaState.shapeStep] at stepped
      split at stepped
      · rename_i isRetired
        obtain ⟨⟨heap, arena⟩, freed, stepped⟩ := Execution.bind_eq_ok.mp stepped
        cases stepped
        obtain ⟨_, _, rfl, rfl⟩ := arenaChunkDalloc_effect freed
        have removed := shape.remove (shape.mem_retired isRetired)
        exact ⟨head, _, gcs, removed.of_same (SameQueue.refl _) rfl⟩
      · cases stepped
  | slowgc fuel chunk gcChunk =>
      simp only [ArenaState.shapeStep] at stepped
      split at stepped
      · rename_i isRetired
        obtain ⟨⟨heap, arena⟩, collected, stepped⟩ := Execution.bind_eq_ok.mp stepped
        cases stepped
        obtain ⟨gcs', kept⟩ := shape.chunkDoSlowgc (shape.mem_retired isRetired) collected
        exact ⟨head, _, gcs', kept⟩
      · cases stepped
  | unlink chunk =>
      simp only [ArenaState.shapeStep] at stepped
      split at stepped
      · rename_i isRetired
        obtain ⟨⟨first, heap⟩, removed, stepped⟩ := Execution.bind_eq_ok.mp stepped
        cases stepped
        obtain ⟨_, rfl, rfl⟩ := availRemove_eq_ok.mp removed
        exact ⟨head, _, gcs, shape.remove (shape.mem_retired isRetired)⟩
      · cases stepped

/-- Every run keeps log chunks before GC chunks, and the head live. -/
theorem shapeRun_hasShape {h : Heap} {arena : Arena} {ind : Nat} {ops : List ShapeOp}
    {s : ArenaState} (reached : shapeRun h arena ind ops = .ok s) : s.HasShape := by
  obtain ⟨booted, boot, ran⟩ := Execution.bind_eq_ok.mp reached
  have kept : ∀ (s : ArenaState) op s', s.HasShape → s.shapeStep op = .ok s' → s'.HasShape :=
    fun _ _ _ inv stepped => ArenaState.hasShape_step inv stepped
  obtain ⟨c, shape, _⟩ := arenaBoot_shape boot
  exact Execution.run_kept kept ⟨c, [], [], shape⟩ ran

end Lsmalloc
