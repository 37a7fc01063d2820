import Lsmalloc.Gc.Shape
import Lsmalloc.Gc.Workers

/-!
# Workers do not share a chunk

Whatever the threads do and in whatever order, a worker's cursor is never the live head:
it is behind the head, or has been taken off and is linked to itself. A chunk is passed to
`chunk_do_slowgc` by the worker that set its `gcing` flag, which nothing clears, so it is
passed once, and not while it is live (`slowgc_exclusive`).
-/

namespace Lsmalloc

/-! ## What a worker's place says -/

/-- The variable `chunk` of `do_slowgc`. -/
def SlowgcPc.cursor? : SlowgcPc → Option Nat
  | .looking c _ | .claiming c _ | .claimed c _ | .removing c | .freeing c | .evacuating c _
  | .unlinking c | .finishing c _ => some c
  | _ => none

/-- The chunk that `gc_alloc_chunk` has made and not yet inserted. -/
def SlowgcPc.pending? : SlowgcPc → Option Nat
  | .inserting c | .evacuating _ (.linking c _) => some c
  | _ => none

/-- The chunk the worker has claimed and not yet finished. -/
def SlowgcPc.owned? : SlowgcPc → Option Nat
  | .claimed c _ | .removing c | .freeing c | .evacuating c _ | .unlinking c => some c
  | _ => none

/-- The variable `chunk` of `fastgc_scheduler`. -/
def FastgcPc.cursor? : FastgcPc → Option Nat
  | .testing c | .removing c | .freeing c | .advancing c => some c
  | _ => none

/-- The chunk that passed the reclaim test of `fastgc_scheduler`. -/
def FastgcPc.selected? : FastgcPc → Option Nat
  | .removing c | .freeing c => some c
  | _ => none

/-- A chunk that is not live, on the queue or taken off it. -/
structure Behind (h : Heap) (queue : List Nat) (c : Nat) : Prop extends Anchored h queue c where
  retired : (h.chunks c).live = false

/-- A new chunk that is not yet on the queue. -/
structure Pending (h : Heap) (queue : List Nat) (c : Nat) : Prop where
  isChunk : ⟨c, .chunk⟩ ∈ h.blocks
  nonnull : c ≠ 0
  retired : (h.chunks c).live = false
  unclaimed : (h.chunks c).gcing = false
  outside : c ∉ queue

/-- What every step of every thread keeps. -/
structure GcOk (s : GcRun) (head : Nat) (rest : List Nat) : Prop where
  queue : LiveHead s.heap s.arena head rest
  cursor : ∀ i c, (s.pc i).cursor? = some c → c = 0 ∨ Behind s.heap (head :: rest) c
  pending : ∀ i c, (s.pc i).pending? = some c → Pending s.heap (head :: rest) c
  pendings : ∀ i j c, (s.pc i).pending? = some c → (s.pc j).pending? = some c → i = j
  apart : ∀ i j c, (s.pc i).pending? = some c → (s.pc j).cursor? ≠ some c
  owned : ∀ i c, (s.pc i).owned? = some c → c ≠ 0 ∧ (s.heap.chunks c).gcing = true
  owners : ∀ i j c, (s.pc i).owned? = some c → (s.pc j).owned? = some c → i = j
  passed : ∀ call ∈ s.passed, ⟨call.chunk, .chunk⟩ ∈ s.heap.blocks ∧
    (s.heap.chunks call.chunk).gcing = true ∧ call.live = false
  once : (s.passed.map SlowgcCall.chunk).Nodup
  unpassed : ∀ i c g, s.pc i = .claimed c g → c ∉ s.passed.map SlowgcCall.chunk
  sweep : ∀ c, s.sweep.cursor? = some c → Anchored s.heap (head :: rest) c
  sweepApart : ∀ i c, (s.pc i).pending? = some c → s.sweep.cursor? ≠ some c
  selected : ∀ c, s.sweep.selected? = some c → (s.heap.chunks c).live = false

/-- Where a step takes a worker, and what it changes of the queue. -/
inductive SlowgcEdge (h h' : Heap) (rest' : List Nat) : QueueChange → SlowgcPc → SlowgcPc → Prop
  | create {c} (added : ChunkAdded h h' c ⟨.gc, false, false⟩) (outside : c ∉ rest') :
      SlowgcEdge h h' rest' .quiet .start (.inserting c)
  | insert {c} : SlowgcEdge h h' rest' (.insert c) (.inserting c) (.entering c)
  | leave {g} : SlowgcEdge h h' rest' .quiet (.entering g) .returned
  | enter {c g} (behind : c ∈ rest') : SlowgcEdge h h' rest' .quiet (.entering g) (.looking c g)
  | stop {c g} (gc : (h.chunks c).chunktype = .gc) :
      SlowgcEdge h h' rest' .quiet (.looking c g) .returned
  | look {c g} : SlowgcEdge h h' rest' .quiet (.looking c g) (.claiming c g)
  | skip {c d g} (next : d = 0 ∨ d = c ∨ d ∈ rest') :
      SlowgcEdge h h' rest' .quiet (.claiming c g) (.looking d g)
  | claim {c g} (nonnull : c ≠ 0) (unclaimed : (h.chunks c).gcing = false) :
      SlowgcEdge h h' rest' (.claim c) (.claiming c g) (.claimed c g)
  | reclaim {c g} : SlowgcEdge h h' rest' .quiet (.claimed c g) (.removing c)
  | evacuate {c g} : SlowgcEdge h h' rest' .quiet (.claimed c g) (.evacuating c (.opening g))
  | remove {c} : SlowgcEdge h h' rest' (.remove c) (.removing c) (.freeing c)
  | free {c} : SlowgcEdge h h' rest' .quiet (.freeing c) (.finishing c 0)
  | open {c g r} : SlowgcEdge h h' rest' .quiet (.evacuating c (.opening g))
      (.evacuating c (.visiting g r))
  | visit {c g r pc} (settled : (SlowgcPc.evacuating c pc).pending? = none) :
      SlowgcEdge h h' rest' .quiet (.evacuating c (.visiting g r)) (.evacuating c pc)
  | grow {c d r} (added : ChunkAdded h h' d ⟨.gc, false, false⟩) (outside : d ∉ rest') :
      SlowgcEdge h h' rest' .quiet (.evacuating c (.growing r)) (.evacuating c (.linking d r))
  | link {c d r} : SlowgcEdge h h' rest' (.insert d) (.evacuating c (.linking d r))
      (.evacuating c (.migrating d r))
  | migrate {c g r r'} : SlowgcEdge h h' rest' .quiet (.evacuating c (.migrating g r))
      (.evacuating c (.visiting g r'))
  | empty {c g} : SlowgcEdge h h' rest' .quiet (.evacuating c (.visiting g 0)) (.unlinking c)
  | unlink {c u} : SlowgcEdge h h' rest' (.remove c) (.unlinking c) (.finishing c u)
  | finish {c g} : SlowgcEdge h h' rest' (.remove c) (.finishing c g) (.looking c g)

/-- Where a step takes `fastgc_scheduler`, and what it changes of the queue. -/
inductive FastgcEdge (h : Heap) (queue' : List Nat) : QueueChange → FastgcPc → FastgcPc → Prop
  | enter {c} (listed : c ∈ queue') : FastgcEdge h queue' .quiet .start (.testing c)
  | select {c} (reclaimed : reclaimTest (h.chunks c) = true) :
      FastgcEdge h queue' .quiet (.testing c) (.removing c)
  | pass {c} : FastgcEdge h queue' .quiet (.testing c) (.advancing c)
  | remove {c} : FastgcEdge h queue' (.remove c) (.removing c) (.freeing c)
  | free {c} : FastgcEdge h queue' .quiet (.freeing c) (.advancing c)
  | advance {c d} (next : d = c ∨ d ∈ queue') :
      FastgcEdge h queue' .quiet (.advancing c) (.testing d)
  | stop {c} : FastgcEdge h queue' .quiet (.advancing c) .done

/-- The calls of `chunk_do_slowgc` after a step of the worker from a place. -/
def GcRun.passedBy (s : GcRun) (i : Nat) : SlowgcPc → List SlowgcCall
  | .claimed c _ => ⟨i, c, (s.heap.chunks c).live⟩ :: s.passed
  | _ => s.passed

/-- The chunks given to `pmempool_free` after a step of a worker from a place. -/
def GcRun.freedBy (s : GcRun) : SlowgcPc → List Nat
  | .freeing c => c :: s.freed
  | _ => s.freed

/-- The holder of `gc_lock` after a step of the worker from one place to another: the
`continue` of `do_slowgc` leaves the lock taken. -/
def GcRun.gcLockBy (s : GcRun) (i : Nat) : SlowgcPc → SlowgcPc → Option Nat
  | .claiming _ _, .looking _ _ => some i
  | _, _ => s.gcLock

/-- What a step of a worker does beside the queue. -/
structure SlowgcMoved (s : GcRun) (i : Nat) (s' : GcRun) : Prop where
  others : ∀ j, j ≠ i → s'.pc j = s.pc j
  sweep : s'.sweep = s.sweep
  swept : s'.swept = s.swept
  passed : s'.passed = s.passedBy i (s.pc i)
  freed : s'.freed = s.freedBy (s.pc i)
  gcLock : s'.gcLock = s.gcLockBy i (s.pc i) (s'.pc i)

/-- What `fastgc_scheduler` has unlinked and freed after a step from a place. -/
def GcRun.sweptBy (s : GcRun) : FastgcPc → List (Nat × Bool)
  | .removing c | .freeing c => (c, (s.heap.chunks c).gcing) :: s.swept
  | _ => s.swept

/-- The chunks given to `pmempool_free` after a step of `fastgc_scheduler` from a place. -/
def GcRun.sweepFreedBy (s : GcRun) : FastgcPc → List Nat
  | .freeing c => c :: s.freed
  | _ => s.freed

/-- What a step of `fastgc_scheduler` does beside the queue. -/
structure FastgcMoved (s s' : GcRun) : Prop where
  pc : s'.pc = s.pc
  passed : s'.passed = s.passed
  swept : s'.swept = s.sweptBy s.sweep
  freed : s'.freed = s.sweepFreedBy s.sweep

variable {s s' : GcRun} {i head undefined : Nat} {rest : List Nat}

/-- `ql_next` of a cursor is `NULL`, behind the head, or a chunk that is linked to itself. -/
theorem LiveHead.qlNext_eq {h : Heap} {arena : Arena} {c : Nat} (inv : LiveHead h arena head rest)
    (anchored : Anchored h (head :: rest) c) :
    qlNext h.availLink arena.availChunks c = 0 ∨ qlNext h.availLink arena.availChunks c = c ∨
      qlNext h.availLink arena.availChunks c ∈ rest := by
  by_cases member : c ∈ head :: rest
  · rcases inv.ring.qlNext_mem member with last | behind
    · exact .inl last
    · exact .inr (.inr behind)
  · exact .inr (.inl (inv.ring.qlNext_self member (anchored.place.resolve_left member)))

/-! ## What a step of a worker does -/

@[simp] theorem GcRun.goto_pc_self (s : GcRun) (i : Nat) (pc : SlowgcPc) :
    (s.goto i pc).pc i = pc := by
  simp [GcRun.goto]

/-- A worker goes on from a place: one edge, one change of the queue, and what it has done is on
record. -/
def GcRun.GoesOn (s : GcRun) (i : Nat) (place : SlowgcPc) (s' : GcRun) (head : Nat)
    (rest : List Nat) : Prop :=
  ∃ change rest', QueueMoved s.heap s'.heap s'.arena change head rest head rest' ∧
    SlowgcEdge s.heap s'.heap rest' change place (s'.pc i) ∧ SlowgcMoved s i s'

theorem GcRun.goto_moved {h : Heap} {arena : Arena} {place pc : SlowgcPc} {change : QueueChange}
    {rest' : List Nat} (here : s.pc i = place)
    (moved : QueueMoved s.heap h arena change head rest head rest')
    (edge : SlowgcEdge s.heap h rest' change place pc)
    (same : s' = GcRun.goto { s with
      heap := h
      arena := arena
      passed := s.passedBy i place
      freed := s.freedBy place
      gcLock := s.gcLockBy i place pc } i pc) :
    s.GoesOn i place s' head rest := by
  subst same
  refine ⟨change, rest', moved, ?_, ?_⟩
  · rw [GcRun.goto_pc_self]
    exact edge
  · constructor
    case others =>
      intro j other
      simp [GcRun.goto, other]
    case gcLock => rw [here, GcRun.goto_pc_self]; rfl
    all_goals first | rfl | rw [here]; rfl

/-- `gc_alloc_chunk` has made a chunk. -/
theorem LiveHead.moved_create {h h' : Heap} {arena arena' : Arena} {c : Nat}
    (inv : LiveHead h arena head rest)
    (created : chunkCreate h arena .gc false = .ok (c, h', arena')) :
    QueueMoved h h' arena' .quiet head rest head rest ∧
      ChunkAdded h h' c ⟨.gc, false, false⟩ ∧ c ∉ rest := by
  obtain ⟨addr, made⟩ := chunkCreate_effect created
  have added := made.added
  exact ⟨inv.moved_of_added added made.availLink (by rw [made.others]), added,
    fun member => inv.not_mem added.fresh (List.mem_cons_of_mem _ member)⟩

/-- A worker in the loop of `chunk_do_slowgc`. -/
theorem GcOk.evacuationStep {chunk : Nat} {pc : EvacuationPc} (ok : GcOk s head rest)
    (place : s.pc i = .evacuating chunk pc) (stepped : s.evacuationStep i chunk pc = .ok s') :
    s.GoesOn i (.evacuating chunk pc) s' head rest := by
  have quiet : ∀ {h : Heap}, SameQueue s.heap h →
      QueueMoved s.heap h s.arena .quiet head rest head rest :=
    fun same => same.moved (ok.queue.of_same same rfl)
  cases pc with
  | opening gcChunk =>
      obtain ⟨c, _, stepped⟩ := Execution.bind_eq_ok.mp stepped
      cases stepped
      exact GcRun.goto_moved place (quiet (.refl _)) .open rfl
  | visiting gcChunk region =>
      simp only [GcRun.evacuationStep] at stepped
      split at stepped
      · rename_i ended
        cases stepped
        subst ended
        exact GcRun.goto_moved place (quiet (.refl _)) .empty rfl
      · obtain ⟨r, _, stepped⟩ := Execution.bind_eq_ok.mp stepped
        split at stepped
        · obtain ⟨gc, _, stepped⟩ := Execution.bind_eq_ok.mp stepped
          cases stepped
          refine GcRun.goto_moved place (quiet (.refl _)) (.visit ?_) rfl
          split <;> rfl
        · obtain ⟨next, _, stepped⟩ := Execution.bind_eq_ok.mp stepped
          cases stepped
          exact GcRun.goto_moved place (quiet (.refl _)) (.visit rfl) rfl
  | growing region =>
      obtain ⟨⟨gcChunk, h, arena⟩, created, stepped⟩ := Execution.bind_eq_ok.mp stepped
      cases stepped
      obtain ⟨moved, added, outside⟩ := ok.queue.moved_create created
      exact GcRun.goto_moved place moved (.grow added outside) rfl
  | linking gcChunk region =>
      obtain ⟨⟨first, h⟩, inserted, stepped⟩ := Execution.bind_eq_ok.mp stepped
      obtain ⟨_, rfl, rfl⟩ := availTailInsert_eq_ok.mp inserted
      cases stepped
      have new := ok.pending i gcChunk (by rw [place]; rfl)
      have moved := ok.queue.moved_insert new.outside new.nonnull new.isChunk new.retired
      exact GcRun.goto_moved place moved .link rfl
  | migrating gcChunk region =>
      obtain ⟨⟨new, h⟩, migrated, stepped⟩ := Execution.bind_eq_ok.mp stepped
      obtain ⟨next, _, stepped⟩ := Execution.bind_eq_ok.mp stepped
      cases stepped
      exact GcRun.goto_moved place (quiet (.migrate migrated)) .migrate rfl

/-- The queue is as it was. -/
theorem GcOk.quiet {arena : Arena} (ok : GcOk s head rest)
    (same : arena.availChunks = s.arena.availChunks) :
    QueueMoved s.heap s.heap arena .quiet head rest head rest :=
  (SameQueue.refl _).moved (ok.queue.of_same (.refl _) same)

theorem GcOk.behind {c : Nat} (ok : GcOk s head rest) (here : (s.pc i).cursor? = some c)
    (nonnull : c ≠ 0) : Behind s.heap (head :: rest) c :=
  (ok.cursor i c here).resolve_left nonnull

section Places

variable {chunk gcChunk : Nat}

theorem GcOk.step_start (ok : GcOk s head rest) (place : s.pc i = .start)
    (stepped : s.slowgcStep i undefined = .ok s') : s.GoesOn i .start s' head rest := by
  simp only [GcRun.slowgcStep, place] at stepped
  obtain ⟨⟨gcChunk, h, arena⟩, created, stepped⟩ := Execution.bind_eq_ok.mp stepped
  cases stepped
  obtain ⟨moved, added, outside⟩ := ok.queue.moved_create created
  exact GcRun.goto_moved place moved (.create added outside) rfl

theorem GcOk.step_inserting (ok : GcOk s head rest) (place : s.pc i = .inserting gcChunk)
    (stepped : s.slowgcStep i undefined = .ok s') :
    s.GoesOn i (.inserting gcChunk) s' head rest := by
  simp only [GcRun.slowgcStep, place] at stepped
  obtain ⟨⟨first, h⟩, inserted, stepped⟩ := Execution.bind_eq_ok.mp stepped
  obtain ⟨_, rfl, rfl⟩ := availTailInsert_eq_ok.mp inserted
  cases stepped
  have new := ok.pending i gcChunk (by rw [place]; rfl)
  have moved := ok.queue.moved_insert new.outside new.nonnull new.isChunk new.retired
  exact GcRun.goto_moved place moved .insert rfl

/-- The head is live, so the worker starts behind it. -/
theorem GcOk.step_entering (ok : GcOk s head rest) (place : s.pc i = .entering gcChunk)
    (stepped : s.slowgcStep i undefined = .ok s') :
    s.GoesOn i (.entering gcChunk) s' head rest := by
  simp only [GcRun.slowgcStep, place] at stepped
  split at stepped
  · have present : head ≠ 0 := ok.queue.ring.nonnull head List.mem_cons_self
    rw [ok.queue.availChunks_eq, if_neg present] at stepped
    obtain ⟨c, read, stepped⟩ := Execution.bind_eq_ok.mp stepped
    obtain ⟨_, rfl⟩ := getChunk_eq_ok.mp read
    rw [if_pos ok.queue.live] at stepped
    cases stepped
    have behind := ok.queue.ring.qlNext_mem (x := head) List.mem_cons_self
    rw [ok.queue.availChunks_eq] at behind
    refine GcRun.goto_moved place (ok.quiet rfl) ?_ rfl
    split
    · exact .leave
    · rename_i nonnull
      exact .enter (behind.resolve_left nonnull)
  · cases stepped

theorem GcOk.step_looking (ok : GcOk s head rest) (place : s.pc i = .looking chunk gcChunk)
    (stepped : s.slowgcStep i undefined = .ok s') :
    s.GoesOn i (.looking chunk gcChunk) s' head rest := by
  simp only [GcRun.slowgcStep, place] at stepped
  obtain ⟨c, read, stepped⟩ := Execution.bind_eq_ok.mp stepped
  obtain ⟨_, rfl⟩ := getChunk_eq_ok.mp read
  cases stepped
  refine GcRun.goto_moved place (ok.quiet rfl) ?_ rfl
  split
  · rename_i gc
    exact .stop gc
  · exact .look

/-- A chunk that another worker has is passed over. -/
theorem GcOk.step_claiming (ok : GcOk s head rest) (place : s.pc i = .claiming chunk gcChunk)
    (stepped : s.slowgcStep i undefined = .ok s') :
    s.GoesOn i (.claiming chunk gcChunk) s' head rest := by
  simp only [GcRun.slowgcStep, place] at stepped
  split at stepped
  · obtain ⟨c, read, stepped⟩ := Execution.bind_eq_ok.mp stepped
    obtain ⟨⟨nonnull, _⟩, rfl⟩ := getChunk_eq_ok.mp read
    have behind := ok.behind (i := i) (c := chunk) (by rw [place]; rfl) nonnull
    split at stepped
    · cases stepped
      have next := ok.queue.qlNext_eq behind.toAnchored
      exact GcRun.goto_moved place (ok.quiet rfl) (.skip next) rfl
    · rename_i unclaimed
      cases stepped
      have free : (s.heap.chunks chunk).gcing = false := by simpa using unclaimed
      exact GcRun.goto_moved place (ok.queue.moved_claim chunk) (.claim nonnull free) rfl
  · cases stepped

theorem GcOk.step_claimed (ok : GcOk s head rest) (place : s.pc i = .claimed chunk gcChunk)
    (stepped : s.slowgcStep i undefined = .ok s') :
    s.GoesOn i (.claimed chunk gcChunk) s' head rest := by
  simp only [GcRun.slowgcStep, place] at stepped
  obtain ⟨c, read, stepped⟩ := Execution.bind_eq_ok.mp stepped
  obtain ⟨_, rfl⟩ := getChunk_eq_ok.mp read
  cases stepped
  refine GcRun.goto_moved place (ok.quiet rfl) ?_ rfl
  split
  · exact .reclaim
  · exact .evacuate

theorem GcOk.step_removing (ok : GcOk s head rest) (place : s.pc i = .removing chunk)
    (stepped : s.slowgcStep i undefined = .ok s') :
    s.GoesOn i (.removing chunk) s' head rest := by
  simp only [GcRun.slowgcStep, place] at stepped
  obtain ⟨⟨first, h⟩, removed, stepped⟩ := Execution.bind_eq_ok.mp stepped
  obtain ⟨_, rfl, rfl⟩ := availRemove_eq_ok.mp removed
  cases stepped
  have nonnull : chunk ≠ 0 := (ok.owned i chunk (by rw [place]; rfl)).1
  have behind := ok.behind (i := i) (c := chunk) (by rw [place]; rfl) nonnull
  have moved := ok.queue.moved_remove behind.toAnchored behind.retired
  exact GcRun.goto_moved place moved .remove rfl

theorem GcOk.step_freeing (ok : GcOk s head rest) (place : s.pc i = .freeing chunk)
    (stepped : s.slowgcStep i undefined = .ok s') :
    s.GoesOn i (.freeing chunk) s' head rest := by
  simp only [GcRun.slowgcStep, place] at stepped
  cases stepped
  have given : QueueMoved s.heap s.heap { s.arena with pool := pmempoolFree s.arena.pool chunk }
      .quiet head rest head rest := ok.quiet rfl
  exact GcRun.goto_moved place given .free rfl

theorem GcOk.step_unlinking (ok : GcOk s head rest) (place : s.pc i = .unlinking chunk)
    (stepped : s.slowgcStep i undefined = .ok s') :
    s.GoesOn i (.unlinking chunk) s' head rest := by
  simp only [GcRun.slowgcStep, place] at stepped
  obtain ⟨⟨first, h⟩, removed, stepped⟩ := Execution.bind_eq_ok.mp stepped
  obtain ⟨_, rfl, rfl⟩ := availRemove_eq_ok.mp removed
  cases stepped
  have nonnull : chunk ≠ 0 := (ok.owned i chunk (by rw [place]; rfl)).1
  have behind := ok.behind (i := i) (c := chunk) (by rw [place]; rfl) nonnull
  have moved := ok.queue.moved_remove behind.toAnchored behind.retired
  exact GcRun.goto_moved place moved .unlink rfl

/-- The chunk is unlinked once more, and the loop goes on with what it is linked to: itself. -/
theorem GcOk.step_finishing (ok : GcOk s head rest) (place : s.pc i = .finishing chunk gcChunk)
    (stepped : s.slowgcStep i undefined = .ok s') :
    s.GoesOn i (.finishing chunk gcChunk) s' head rest := by
  simp only [GcRun.slowgcStep, place] at stepped
  split at stepped
  · obtain ⟨⟨first, h⟩, removed, stepped⟩ := Execution.bind_eq_ok.mp stepped
    obtain ⟨nodes, rfl, rfl⟩ := availRemove_eq_ok.mp removed
    cases stepped
    have nonnull : chunk ≠ 0 := (nodes chunk (mem_qlRemoveNodes _ _ _)).1
    have behind := ok.behind (i := i) (c := chunk) (by rw [place]; rfl) nonnull
    have moved := ok.queue.moved_remove behind.toAnchored behind.retired
    obtain ⟨outside, self⟩ := moved.removed chunk rfl
    refine GcRun.goto_moved place moved ?_ rfl
    rw [moved.queue.ring.qlNext_self outside self]
    exact .finish
  · cases stepped

end Places

/-- What a step of a worker does, from whatever place. -/
theorem GcOk.slowgcStep (ok : GcOk s head rest) (stepped : s.slowgcStep i undefined = .ok s') :
    s.GoesOn i (s.pc i) s' head rest := by
  cases place : s.pc i with
  | start => exact ok.step_start place stepped
  | inserting gcChunk => exact ok.step_inserting place stepped
  | entering gcChunk => exact ok.step_entering place stepped
  | looking chunk gcChunk => exact ok.step_looking place stepped
  | claiming chunk gcChunk => exact ok.step_claiming place stepped
  | claimed chunk gcChunk => exact ok.step_claimed place stepped
  | removing chunk => exact ok.step_removing place stepped
  | freeing chunk => exact ok.step_freeing place stepped
  | evacuating chunk pc =>
      simp only [GcRun.slowgcStep, place] at stepped
      exact ok.evacuationStep place stepped
  | unlinking chunk => exact ok.step_unlinking place stepped
  | finishing chunk gcChunk => exact ok.step_finishing place stepped
  | returned =>
      simp only [GcRun.slowgcStep, place] at stepped
      cases stepped

/-! ## What an edge says of the worker's place -/

section Edge

variable {h h' : Heap} {change : QueueChange} {pc pc' : SlowgcPc} {c : Nat} {rest' : List Nat}

theorem SlowgcPc.cursor_of_owned (owned : pc.owned? = some c) : pc.cursor? = some c := by
  cases pc <;> simp_all [SlowgcPc.owned?, SlowgcPc.cursor?]

theorem SlowgcEdge.cursor (edge : SlowgcEdge h h' rest' change pc pc')
    (here : pc'.cursor? = some c) : c = 0 ∨ pc.cursor? = some c ∨ c ∈ rest' := by
  cases edge <;> simp_all [SlowgcPc.cursor?]
  all_goals tauto

theorem SlowgcEdge.pending (edge : SlowgcEdge h h' rest' change pc pc')
    (here : pc'.pending? = some c) : ChunkAdded h h' c ⟨.gc, false, false⟩ ∧ c ∉ rest' := by
  cases edge <;> simp_all [SlowgcPc.pending?]

theorem SlowgcEdge.inserted (edge : SlowgcEdge h h' rest' change pc pc')
    (put : change = .insert c) : pc.pending? = some c := by
  cases edge <;> simp_all [SlowgcPc.pending?]

theorem SlowgcEdge.claimed (edge : SlowgcEdge h h' rest' change pc pc')
    (taken : change = .claim c) : c ≠ 0 ∧ pc.cursor? = some c ∧ (h.chunks c).gcing = false := by
  cases edge <;> simp_all [SlowgcPc.cursor?]

theorem SlowgcEdge.owned (edge : SlowgcEdge h h' rest' change pc pc')
    (here : pc'.owned? = some c) : pc.owned? = some c ∨ change = .claim c := by
  cases edge <;> simp_all [SlowgcPc.owned?]

theorem SlowgcEdge.claims {g : Nat} (edge : SlowgcEdge h h' rest' change pc (.claimed c g)) :
    change = .claim c ∧ pc = .claiming c g := by
  cases edge with
  | claim nonnull unclaimed => exact ⟨rfl, rfl⟩

theorem FastgcPc.cursor_of_selected {pc : FastgcPc} (selected : pc.selected? = some c) :
    pc.cursor? = some c := by
  cases pc <;> simp_all [FastgcPc.selected?, FastgcPc.cursor?]

theorem FastgcEdge.cursor {pc pc' : FastgcPc} {queue' : List Nat}
    (edge : FastgcEdge h queue' change pc pc') (here : pc'.cursor? = some c) :
    pc.cursor? = some c ∨ c ∈ queue' := by
  cases edge <;> simp_all [FastgcPc.cursor?]
  tauto

theorem FastgcEdge.selected {pc pc' : FastgcPc} {queue' : List Nat}
    (edge : FastgcEdge h queue' change pc pc') (here : pc'.selected? = some c) :
    pc.cursor? = some c ∧ (reclaimTest (h.chunks c) = true ∨ pc.selected? = some c) := by
  cases edge <;> simp_all [FastgcPc.cursor?, FastgcPc.selected?]

/-- The sweep inserts nothing and claims nothing. -/
theorem FastgcEdge.keeps {pc pc' : FastgcPc} {queue' : List Nat}
    (edge : FastgcEdge h queue' change pc pc') : change ≠ .insert c ∧ change ≠ .claim c := by
  cases edge <;> simp

end Edge

/-- A chunk that passes the reclaim test is not live. -/
theorem live_of_reclaimTest {c : Chunk} (reclaimed : reclaimTest c = true) : c.live = false := by
  simp only [reclaimTest, Bool.and_eq_true, decide_eq_true_eq] at reclaimed
  exact reclaimed.1.1

/-- The call of `chunk_do_slowgc` is the one step that passes a chunk. -/
theorem SlowgcMoved.passed_eq (log : SlowgcMoved s i s') :
    (s'.passed = s.passed ∧ ∀ c g, s.pc i ≠ .claimed c g) ∨
      ∃ c g, s.pc i = .claimed c g ∧
        s'.passed = ⟨i, c, (s.heap.chunks c).live⟩ :: s.passed := by
  have logged := log.passed
  unfold GcRun.passedBy at logged
  split at logged
  · rename_i c g place
    exact .inr ⟨c, g, place, logged⟩
  · rename_i notCalled
    exact .inl ⟨logged, notCalled⟩

/-! ## Steps keep the invariant -/

/-- A cursor stays behind the head. -/
theorem QueueMoved.behind {h h' : Heap} {arena' : Arena} {change : QueueChange} {c head' : Nat}
    {rest' : List Nat} (moved : QueueMoved h h' arena' change head rest head' rest')
    (behind : Behind h (head :: rest) c) : Behind h' (head' :: rest') c where
  toAnchored := moved.anchored behind.toAnchored
  retired := moved.retired c behind.isChunk behind.retired

/-- A new chunk that no one inserts or claims stays as it is. -/
theorem QueueMoved.pending {h h' : Heap} {arena' : Arena} {change : QueueChange} {c head' : Nat}
    {rest' : List Nat} (moved : QueueMoved h h' arena' change head rest head' rest')
    (new : Pending h (head :: rest) c) (kept : change ≠ .insert c) (free : change ≠ .claim c) :
    Pending h' (head' :: rest') c where
  isChunk := moved.old _ new.isChunk
  nonnull := new.nonnull
  retired := moved.retired c new.isChunk new.retired
  unclaimed := (moved.gcing c new.isChunk free).trans new.unclaimed
  outside := moved.off c new.isChunk new.outside kept

/-- A cursor that is not `NULL` points at a descriptor. -/
theorem GcOk.isChunk (ok : GcOk s head rest) {c : Nat} (here : (s.pc i).cursor? = some c)
    (nonnull : c ≠ 0) : ⟨c, .chunk⟩ ∈ s.heap.blocks :=
  ((ok.cursor i c here).resolve_left nonnull).isChunk

/-! ### The worker that moves, and the others -/

section Worker

variable {change : QueueChange} {rest' : List Nat} {j k c : Nat}

/-- A chunk that is new is none there was. -/
theorem SlowgcEdge.fresh {h h' : Heap} {pc pc' : SlowgcPc} {d : Nat}
    (edge : SlowgcEdge h h' rest' change pc pc') (here : pc'.pending? = some c)
    (old : ⟨d, .chunk⟩ ∈ h.blocks) : d ≠ c := by
  rintro rfl
  exact (edge.pending here).1.fresh _ old rfl

/-- The chunk a step makes waits for its insertion. -/
theorem SlowgcEdge.isPending {h h' : Heap} {arena : Arena} {pc pc' : SlowgcPc}
    (edge : SlowgcEdge h h' rest' change pc pc') (queue : LiveHead h arena head rest)
    (here : pc'.pending? = some c) : Pending h' (head :: rest') c := by
  obtain ⟨added, outside⟩ := edge.pending here
  obtain ⟨_, retired, unclaimed⟩ : (h'.chunks c).chunktype = .gc ∧
      (h'.chunks c).live = false ∧ (h'.chunks c).gcing = false := by
    simpa only [Chunk.marks, Marks.mk.injEq] using added.marks
  refine ⟨by rw [added.blocks]; exact List.mem_cons_self, added.nonnull, retired, unclaimed, ?_⟩
  rw [List.mem_cons, not_or]
  exact ⟨(edge.fresh here (queue.isChunk head List.mem_cons_self)).symm, outside⟩

theorem GcOk.cursor_of_edge (ok : GcOk s head rest)
    (moved : QueueMoved s.heap s'.heap s'.arena change head rest head rest')
    (edge : SlowgcEdge s.heap s'.heap rest' change (s.pc i) (s'.pc i))
    (log : SlowgcMoved s i s') (here : (s'.pc j).cursor? = some c) :
    c = 0 ∨ Behind s'.heap (head :: rest') c := by
  by_cases self : j = i
  · subst self
    rcases edge.cursor here with null | old | member
    · exact .inl null
    · exact (ok.cursor j c old).imp_right moved.behind
    · have inQueue : c ∈ head :: rest' := List.mem_cons_of_mem _ member
      exact .inr ⟨⟨moved.queue.isChunk c inQueue, .inl inQueue⟩, moved.queue.others c member⟩
  · rw [log.others j self] at here
    exact (ok.cursor j c here).imp_right moved.behind

theorem GcOk.pending_of_edge (ok : GcOk s head rest)
    (moved : QueueMoved s.heap s'.heap s'.arena change head rest head rest')
    (edge : SlowgcEdge s.heap s'.heap rest' change (s.pc i) (s'.pc i))
    (log : SlowgcMoved s i s') (here : (s'.pc j).pending? = some c) :
    Pending s'.heap (head :: rest') c := by
  by_cases self : j = i
  · subst self
    exact edge.isPending ok.queue here
  · rw [log.others j self] at here
    apply moved.pending (ok.pending j c here)
    · exact fun put => self (ok.pendings j i c here (edge.inserted put))
    · exact fun taken => ok.apart j i c here (edge.claimed taken).2.1

theorem GcOk.pendings_of_edge (ok : GcOk s head rest)
    (edge : SlowgcEdge s.heap s'.heap rest' change (s.pc i) (s'.pc i))
    (log : SlowgcMoved s i s') (first : (s'.pc j).pending? = some c)
    (second : (s'.pc k).pending? = some c) : j = k := by
  by_cases self : j = i <;> by_cases self' : k = i
  · rw [self, self']
  · rw [log.others k self'] at second
    exact absurd rfl (edge.fresh (self ▸ first) (ok.pending k c second).isChunk)
  · rw [log.others j self] at first
    exact absurd rfl (edge.fresh (self' ▸ second) (ok.pending j c first).isChunk)
  · rw [log.others j self] at first
    rw [log.others k self'] at second
    exact ok.pendings j k c first second

theorem GcOk.apart_of_edge (ok : GcOk s head rest)
    (moved : QueueMoved s.heap s'.heap s'.arena change head rest head rest')
    (edge : SlowgcEdge s.heap s'.heap rest' change (s.pc i) (s'.pc i))
    (log : SlowgcMoved s i s') (here : (s'.pc j).pending? = some c) :
    (s'.pc k).cursor? ≠ some c := by
  intro follows
  have new := ok.pending_of_edge moved edge log here
  have old : (s.pc k).cursor? = some c := by
    by_cases self : k = i
    · subst self
      rcases edge.cursor follows with null | old | member
      · exact absurd null new.nonnull
      · exact old
      · exact absurd (List.mem_cons_of_mem _ member) new.outside
    · rwa [log.others k self] at follows
  by_cases self : j = i
  · exact edge.fresh (self ▸ here) (ok.isChunk old new.nonnull) rfl
  · rw [log.others j self] at here
    exact ok.apart j k c here old

theorem GcOk.owned_of_edge (ok : GcOk s head rest)
    (moved : QueueMoved s.heap s'.heap s'.arena change head rest head rest')
    (edge : SlowgcEdge s.heap s'.heap rest' change (s.pc i) (s'.pc i))
    (log : SlowgcMoved s i s') (here : (s'.pc j).owned? = some c) :
    c ≠ 0 ∧ (s'.heap.chunks c).gcing = true := by
  have kept : (s.pc j).owned? = some c → c ≠ 0 ∧ (s'.heap.chunks c).gcing = true := by
    intro before
    obtain ⟨nonnull, gcing⟩ := ok.owned j c before
    exact ⟨nonnull,
      moved.gcing_mono (ok.isChunk (SlowgcPc.cursor_of_owned before) nonnull) gcing⟩
  by_cases self : j = i
  · subst self
    rcases edge.owned here with before | taken
    · exact kept before
    · exact ⟨(edge.claimed taken).1, moved.claimed c taken⟩
  · rw [log.others j self] at here
    exact kept here

/-- What a claim takes no one has. -/
theorem GcOk.unowned_of_claim {pc pc' : SlowgcPc} {h' : Heap} (ok : GcOk s head rest)
    (edge : SlowgcEdge s.heap h' rest' change pc pc') (taken : change = .claim c) :
    (s.pc j).owned? ≠ some c := by
  intro here
  have gcing := (ok.owned j c here).2
  rw [(edge.claimed taken).2.2] at gcing
  cases gcing

theorem GcOk.owners_of_edge (ok : GcOk s head rest)
    (edge : SlowgcEdge s.heap s'.heap rest' change (s.pc i) (s'.pc i))
    (log : SlowgcMoved s i s') (first : (s'.pc j).owned? = some c)
    (second : (s'.pc k).owned? = some c) : j = k := by
  by_cases self : j = i <;> by_cases self' : k = i
  · rw [self, self']
  · rw [log.others k self'] at second
    subst self
    rcases edge.owned first with before | taken
    · exact ok.owners j k c before second
    · exact absurd second (ok.unowned_of_claim edge taken)
  · rw [log.others j self] at first
    subst self'
    rcases edge.owned second with before | taken
    · exact ok.owners j k c first before
    · exact absurd first (ok.unowned_of_claim edge taken)
  · rw [log.others j self] at first
    rw [log.others k self'] at second
    exact ok.owners j k c first second

/-! ### What has been passed -/

theorem GcOk.passed_of_edge (ok : GcOk s head rest)
    (moved : QueueMoved s.heap s'.heap s'.arena change head rest head rest')
    (log : SlowgcMoved s i s') : ∀ call ∈ s'.passed, ⟨call.chunk, .chunk⟩ ∈ s'.heap.blocks ∧
      (s'.heap.chunks call.chunk).gcing = true ∧ call.live = false := by
  have kept : ∀ call ∈ s.passed, ⟨call.chunk, .chunk⟩ ∈ s'.heap.blocks ∧
      (s'.heap.chunks call.chunk).gcing = true ∧ call.live = false := by
    intro call member
    obtain ⟨isChunk, gcing, retired⟩ := ok.passed call member
    exact ⟨moved.old _ isChunk, moved.gcing_mono isChunk gcing, retired⟩
  rcases log.passed_eq with ⟨same, _⟩ | ⟨c, g, place, logged⟩
  · rw [same]
    exact kept
  · rw [logged]
    have here : (s.pc i).owned? = some c := by rw [place]; rfl
    obtain ⟨nonnull, gcing⟩ := ok.owned i c here
    have behind := (ok.cursor i c (SlowgcPc.cursor_of_owned here)).resolve_left nonnull
    exact List.forall_mem_cons.mpr ⟨⟨moved.old _ behind.isChunk,
      moved.gcing_mono behind.isChunk gcing, behind.retired⟩, kept⟩

theorem GcOk.once_of_moved (ok : GcOk s head rest) (log : SlowgcMoved s i s') :
    (s'.passed.map SlowgcCall.chunk).Nodup := by
  rcases log.passed_eq with ⟨same, _⟩ | ⟨c, g, place, logged⟩
  · rw [same]
    exact ok.once
  · rw [logged, List.map_cons, List.nodup_cons]
    exact ⟨ok.unpassed i c g place, ok.once⟩

/-- A chunk has not been passed when its worker comes to pass it. -/
theorem GcOk.unpassed_of_edge {g : Nat} (ok : GcOk s head rest)
    (edge : SlowgcEdge s.heap s'.heap rest' change (s.pc i) (s'.pc i))
    (log : SlowgcMoved s i s') (place : s'.pc j = .claimed c g) :
    c ∉ s'.passed.map SlowgcCall.chunk := by
  rcases log.passed_eq with ⟨same, _⟩ | ⟨d, g', calls, logged⟩
  · rw [same]
    by_cases self : j = i
    · -- The chunk has just been claimed, and what was passed was claimed before.
      subst self
      rw [place] at edge
      intro member
      obtain ⟨call, isPassed, rfl⟩ := List.mem_map.mp member
      have gcing := (ok.passed call isPassed).2.1
      rw [(edge.claimed edge.claims.1).2.2] at gcing
      cases gcing
    · rw [log.others j self] at place
      exact ok.unpassed j c g place
  · have other : j ≠ i := by
      rintro rfl
      rw [place, calls] at edge
      cases edge
    rw [log.others j other] at place
    rw [logged, List.map_cons, List.mem_cons, not_or]
    refine ⟨?_, ok.unpassed j c g place⟩
    rintro rfl
    exact other (ok.owners j i c (by rw [place]; rfl) (by rw [calls]; rfl))

/-- A step of a worker. -/
theorem GcOk.of_edge (ok : GcOk s head rest)
    (moved : QueueMoved s.heap s'.heap s'.arena change head rest head rest')
    (edge : SlowgcEdge s.heap s'.heap rest' change (s.pc i) (s'.pc i))
    (log : SlowgcMoved s i s') : GcOk s' head rest' where
  queue := moved.queue
  cursor _ _ := ok.cursor_of_edge moved edge log
  pending _ _ := ok.pending_of_edge moved edge log
  pendings _ _ _ := ok.pendings_of_edge edge log
  apart _ _ _ := ok.apart_of_edge moved edge log
  owned _ _ := ok.owned_of_edge moved edge log
  owners _ _ _ := ok.owners_of_edge edge log
  passed := ok.passed_of_edge moved log
  once := ok.once_of_moved log
  unpassed _ _ _ := ok.unpassed_of_edge edge log
  sweep := by
    intro c here
    rw [log.sweep] at here
    exact moved.anchored (ok.sweep c here)
  sweepApart := by
    intro j c here follows
    rw [log.sweep] at follows
    by_cases self : j = i
    · exact edge.fresh (self ▸ here) (ok.sweep c follows).isChunk rfl
    · rw [log.others j self] at here
      exact ok.sweepApart j c here follows
  selected := by
    intro c here
    rw [log.sweep] at here
    have isChunk := (ok.sweep c (FastgcPc.cursor_of_selected here)).isChunk
    exact moved.retired c isChunk (ok.selected c here)

end Worker

/-! ## The other threads -/

/-- `fastgc_scheduler` goes on from its place, and what it has done is on record. -/
theorem FastgcMoved.of_place {place : FastgcPc} (here : s.sweep = place) (pc : s'.pc = s.pc)
    (passed : s'.passed = s.passed) (swept : s'.swept = s.sweptBy place)
    (freed : s'.freed = s.sweepFreedBy place) : FastgcMoved s s' where
  pc := pc
  passed := passed
  swept := by
    rw [here]
    exact swept
  freed := by
    rw [here]
    exact freed

/-- A step of `fastgc_scheduler`: one edge, one change of the queue. -/
theorem GcOk.fastgcStep (ok : GcOk s head rest) (stepped : s.fastgcStep = .ok s') :
    ∃ change rest', QueueMoved s.heap s'.heap s'.arena change head rest head rest' ∧
      FastgcEdge s.heap (head :: rest') change s.sweep s'.sweep ∧ FastgcMoved s s' := by
  have quiet : ∀ {arena : Arena}, arena.availChunks = s.arena.availChunks →
      QueueMoved s.heap s.heap arena .quiet head rest head rest :=
    fun same => (SameQueue.refl _).moved (ok.queue.of_same (.refl _) same)
  cases place : s.sweep with
  | start =>
      simp only [GcRun.fastgcStep, place] at stepped
      cases stepped
      refine ⟨.quiet, rest, quiet rfl, ?_, .of_place place rfl rfl rfl rfl⟩
      have present : head ≠ 0 := ok.queue.ring.nonnull head List.mem_cons_self
      rw [ok.queue.availChunks_eq, FastgcPc.at, if_neg present]
      exact .enter List.mem_cons_self
  | testing chunk =>
      simp only [GcRun.fastgcStep, place] at stepped
      obtain ⟨c, read, stepped⟩ := Execution.bind_eq_ok.mp stepped
      obtain ⟨_, rfl⟩ := getChunk_eq_ok.mp read
      cases stepped
      refine ⟨.quiet, rest, quiet rfl, ?_, .of_place place rfl rfl rfl rfl⟩
      simp only
      split
      · rename_i reclaimed
        exact .select reclaimed
      · exact .pass
  | removing chunk =>
      simp only [GcRun.fastgcStep, place] at stepped
      obtain ⟨⟨first, h⟩, removed, stepped⟩ := Execution.bind_eq_ok.mp stepped
      obtain ⟨_, rfl, rfl⟩ := availRemove_eq_ok.mp removed
      cases stepped
      have anchored := ok.sweep chunk (by rw [place]; rfl)
      have retired := ok.selected chunk (by rw [place]; rfl)
      exact ⟨.remove chunk, rest.erase chunk, ok.queue.moved_remove anchored retired, .remove,
        .of_place place rfl rfl rfl rfl⟩
  | freeing chunk =>
      simp only [GcRun.fastgcStep, place] at stepped
      cases stepped
      exact ⟨.quiet, rest, quiet rfl, .free, .of_place place rfl rfl rfl rfl⟩
  | advancing chunk =>
      simp only [GcRun.fastgcStep, place] at stepped
      obtain ⟨_, _, stepped⟩ := Execution.bind_eq_ok.mp stepped
      cases stepped
      refine ⟨.quiet, rest, quiet rfl, ?_, .of_place place rfl rfl rfl rfl⟩
      have next : s.heap.availLink.next chunk = chunk ∨
          s.heap.availLink.next chunk ∈ head :: rest := by
        have anchored := ok.sweep chunk (by rw [place]; rfl)
        have ring := ok.queue.ring.ring (List.cons_ne_nil head rest)
        rcases anchored.place with member | self
        · exact .inr (ring.next_mem member)
        · exact .inl (Links.isRing_singleton.mp self).1
      simp only [FastgcPc.at]
      by_cases last : s.heap.availLink.next chunk = s.arena.availChunks
      · rw [if_neg (not_not.mpr last), if_pos rfl]
        exact .stop
      · rw [if_pos last]
        split
        · exact .stop
        · exact .advance next
  | done =>
      simp only [GcRun.fastgcStep, place] at stepped
      cases stepped

/-- A step that moves no worker. -/
theorem GcOk.of_moved {change : QueueChange} {head' : Nat} {rest' : List Nat}
    (ok : GcOk s head rest)
    (moved : QueueMoved s.heap s'.heap s'.arena change head rest head' rest')
    (kept : ∀ c, change ≠ .insert c) (free : ∀ c, change ≠ .claim c) (pc : s'.pc = s.pc)
    (passed : s'.passed = s.passed)
    (sweep : ∀ c, s'.sweep.cursor? = some c → s.sweep.cursor? = some c ∨ c ∈ head' :: rest')
    (selected : ∀ c, s'.sweep.selected? = some c → (s'.heap.chunks c).live = false) :
    GcOk s' head' rest' := by
  have pending : ∀ i c, (s.pc i).pending? = some c → Pending s'.heap (head' :: rest') c :=
    fun i c here => moved.pending (ok.pending i c here) (kept c) (free c)
  constructor
  case queue => exact moved.queue
  case once =>
    rw [passed]
    exact ok.once
  case passed =>
    intro call member
    rw [passed] at member
    obtain ⟨isChunk, gcing, retired⟩ := ok.passed call member
    exact ⟨moved.old _ isChunk, moved.gcing_mono isChunk gcing, retired⟩
  case sweep =>
    intro c here
    rcases sweep c here with old | member
    · exact moved.anchored (ok.sweep c old)
    · exact ⟨moved.queue.isChunk c member, .inl member⟩
  case selected => exact selected
  all_goals rw [pc]
  case cursor => exact fun i c here => (ok.cursor i c here).imp_right moved.behind
  case pending => exact pending
  case pendings => exact ok.pendings
  case apart => exact ok.apart
  case owned =>
    intro i c here
    obtain ⟨nonnull, gcing⟩ := ok.owned i c here
    exact ⟨nonnull, moved.gcing_mono (ok.isChunk (SlowgcPc.cursor_of_owned here) nonnull) gcing⟩
  case owners => exact ok.owners
  case unpassed =>
    rw [passed]
    exact ok.unpassed
  case sweepApart =>
    intro i c here follows
    rcases sweep c follows with old | member
    · exact ok.sweepApart i c here old
    · exact (pending i c here).outside member

/-- A step of `fastgc_scheduler`. -/
theorem GcOk.of_sweep {change : QueueChange} {rest' : List Nat} (ok : GcOk s head rest)
    (moved : QueueMoved s.heap s'.heap s'.arena change head rest head rest')
    (edge : FastgcEdge s.heap (head :: rest') change s.sweep s'.sweep)
    (log : FastgcMoved s s') : GcOk s' head rest' := by
  apply ok.of_moved moved (fun _ => edge.keeps.1) (fun _ => edge.keeps.2) log.pc log.passed
    (fun _ => edge.cursor)
  intro c here
  obtain ⟨follows, reclaimed | before⟩ := edge.selected here
  · exact moved.retired c (ok.sweep c follows).isChunk (live_of_reclaimTest reclaimed)
  · exact moved.retired c (ok.sweep c follows).isChunk (ok.selected c before)

/-- `arena_malloc_large` of a user. -/
theorem GcOk.mallocLarge {size ptr threadid : Nat} (ok : GcOk s head rest)
    (stepped : s.step (.mallocLarge size ptr threadid) = .ok s') :
    ∃ head' rest', QueueMoved s.heap s'.heap s'.arena .quiet head rest head' rest' ∧
      s' = { s with heap := s'.heap, arena := s'.arena } ∧ GcOk s' head' rest' := by
  simp only [GcRun.step] at stepped
  split at stepped
  · obtain ⟨⟨ret, h, arena⟩, allocated, stepped⟩ := Execution.bind_eq_ok.mp stepped
    cases stepped
    obtain ⟨head', rest', moved⟩ := ok.queue.moved_mallocLarge allocated
    refine ⟨head', rest', moved, rfl, ?_⟩
    refine ok.of_moved moved nofun nofun rfl rfl (fun _ here => .inl here) ?_
    intro c here
    have isChunk := (ok.sweep c (FastgcPc.cursor_of_selected here)).isChunk
    exact moved.retired c isChunk (ok.selected c here)
  · cases stepped

/-- A step of any thread. -/
theorem GcOk.step {op : GcThreadOp} (ok : GcOk s head rest) (stepped : s.step op = .ok s') :
    ∃ head' rest', GcOk s' head' rest' := by
  cases op with
  | mallocLarge size ptr threadid =>
      obtain ⟨head', rest', _, _, kept⟩ := ok.mallocLarge stepped
      exact ⟨head', rest', kept⟩
  | slowgc worker undefined =>
      obtain ⟨change, rest', moved, edge, log⟩ := ok.slowgcStep stepped
      exact ⟨head, rest', ok.of_edge moved edge log⟩
  | fastgc =>
      obtain ⟨change, rest', moved, edge, log⟩ := ok.fastgcStep stepped
      exact ⟨head, rest', ok.of_sweep moved edge log⟩

/-- Before the collectors start. -/
theorem GcOk.idle {h : Heap} {arena : Arena} (queue : LiveHead h arena head rest) :
    GcOk (.idle h arena) head rest := by
  constructor
  case queue => exact queue
  all_goals simp [GcRun.idle, SlowgcPc.cursor?, SlowgcPc.pending?, SlowgcPc.owned?,
    FastgcPc.cursor?, FastgcPc.selected?]

/-- Every state of every run keeps it. -/
theorem gcRun_ok {h : Heap} {arena : Arena} {ops : List GcThreadOp}
    (queue : LiveHead h arena head rest)
    (reached : Execution.run GcRun.step (.idle h arena) ops = .ok s) :
    ∃ head rest, GcOk s head rest := by
  have kept : ∀ (s : GcRun) op s', (∃ head rest, GcOk s head rest) → s.step op = .ok s' →
      ∃ head rest, GcOk s' head rest := fun _ _ _ ⟨_, _, ok⟩ stepped => ok.step stepped
  exact Execution.run_kept kept ⟨head, rest, GcOk.idle queue⟩ reached

/-- **Evacuation is exclusive.** In every state that any number of workers, users of the arena
and a sweep of the fast collector reach, no chunk has been passed to `chunk_do_slowgc` twice,
and none while it was live. A run is cut where the pool hands out a descriptor that was given back
to it, as the header that is then stored lies in no mapping. -/
theorem slowgc_exclusive {h : Heap} {arena : Arena} {ops : List GcThreadOp}
    (queue : LiveHead h arena head rest)
    (reached : Execution.run GcRun.step (.idle h arena) ops = .ok s) :
    (s.passed.map SlowgcCall.chunk).Nodup ∧ ∀ call ∈ s.passed, call.live = false := by
  obtain ⟨_, _, ok⟩ := gcRun_ok queue reached
  exact ⟨ok.once, fun call member => (ok.passed call member).2.2⟩

/-- An arena as `shapeRun` leaves it, and then its collectors. -/
def collectorRun (h : Heap) (arena : Arena) (ind : Nat) (ops : List ShapeOp)
    (threads : List GcThreadOp) : Except Fault GcRun := do
  let s ← shapeRun h arena ind ops
  Execution.run GcRun.step (.idle s.heap s.arena) threads

theorem collectorRun_eq_ok {h : Heap} {arena : Arena} {ind : Nat} {ops : List ShapeOp}
    {threads : List GcThreadOp} (ran : collectorRun h arena ind ops threads = .ok s) :
    ∃ (a : ArenaState) (head : Nat) (retired gcs : List Nat),
      Shape a.heap a.arena head retired gcs ∧
      Execution.run GcRun.step (.idle a.heap a.arena) threads = .ok s := by
  obtain ⟨a, made, reached⟩ := Execution.bind_eq_ok.mp ran
  obtain ⟨head, retired, gcs, shape⟩ := shapeRun_hasShape made
  exact ⟨a, head, retired, gcs, shape, reached⟩

/-- Two workers evacuate a chunk each; a user retires the head between them. -/
def GcThreadOp.twoWorkers : List GcThreadOp :=
  List.replicate 10 (.slowgc 0 0) ++ .mallocLarge 4194280 0 0 :: List.replicate 10 (.slowgc 1 0)

theorem slowgc_exclusive_of_twoWorkers :
    ∃ (a : ArenaState) (head : Nat) (rest : List Nat) (s : GcRun),
      LiveHead a.heap a.arena head rest ∧
      Execution.run GcRun.step (.idle a.heap a.arena) GcThreadOp.twoWorkers = .ok s ∧
      (s.passed.map SlowgcCall.chunk).Nodup ∧ ∀ call ∈ s.passed, call.live = false := by
  obtain ⟨s, ran⟩ : ∃ s, collectorRun
      (.fresh [chunksize] [1024, 2048, 3072, 4096, 5120, 6144, 7168, 8192, 9216, 10240]) .zeroed 0
      [.mallocLarge 240 0 0, .mallocLarge 4194280 0 0, .mallocLarge 4194280 0 0]
      GcThreadOp.twoWorkers = .ok s := Execution.exists_eq_ok (by decide +kernel)
  obtain ⟨a, head, retired, gcs, shape, reached⟩ := collectorRun_eq_ok ran
  exact ⟨a, head, _, s, shape.queue, reached, slowgc_exclusive shape.queue reached⟩

end Lsmalloc
