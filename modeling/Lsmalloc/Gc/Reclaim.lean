import Lsmalloc.Gc.Exclusive

/-!
# Two collectors on one queue

`do_slowgc` claims a chunk under `gc_lock` and passes over one that is claimed.
`fastgc_scheduler` takes no lock, claims nothing and does not look at `gcing`, and it takes
its next chunk from the one it has just unlinked. A run in which each collector selects a
chunk only while the chunk is on `avail_chunks` and the other has not selected it frees no
chunk twice (`collectors_disjoint`).
-/

namespace Lsmalloc

open Execution

/-- No chunk was given to `pmempool_free` twice, and `fastgc_scheduler` unlinked and freed
none that was claimed. -/
structure GcRun.Disjoint (s : GcRun) : Prop where
  once : s.freed.Nodup
  unclaimed : ∀ c gcing, (c, gcing) ∈ s.swept → gcing = false

/-- When the step selects a chunk (a worker claims it, or it passes the test of
`fastgc_scheduler`), the chunk is on `avail_chunks` and the other collector has not selected
it. -/
def GcRun.Separate (s : GcRun) : GcThreadOp → Prop
  | .mallocLarge _ _ _ => True
  | .slowgc worker _ =>
      match s.pc worker with
      | .claiming c _ => (s.heap.chunks c).gcing = false →
          c ∈ s.heap.availList s.arena.availChunks ∧ s.sweep.selected? ≠ some c
      | _ => True
  | .fastgc =>
      match s.sweep with
      | .testing c => reclaimTest (s.heap.chunks c) = true →
          c ∈ s.heap.availList s.arena.availChunks ∧ (s.heap.chunks c).gcing = false
      | _ => True

instance (s : GcRun) (op : GcThreadOp) : Decidable (s.Separate op) := by
  unfold GcRun.Separate
  split
  · infer_instance
  · split <;> infer_instance
  · split <;> infer_instance

/-- What separate steps keep: what is freed is off the queue, and a chunk that is selected
is selected by one collector and not yet freed. -/
structure ReclaimOk (s : GcRun) (head : Nat) (rest : List Nat) : Prop where
  ok : GcOk s head rest
  freed : ∀ c ∈ s.freed, ⟨c, .chunk⟩ ∈ s.heap.blocks ∧ c ∉ head :: rest
  apart : ∀ i c, (s.pc i).pending? = some c → c ∉ s.freed
  once : s.freed.Nodup
  owned : ∀ i c, (s.pc i).owned? = some c → c ∉ s.freed
  unlinked : ∀ i c, s.pc i = .freeing c → c ∉ head :: rest
  swept : ∀ c gcing, (c, gcing) ∈ s.swept → gcing = false
  selected : ∀ c, s.sweep.selected? = some c → (s.heap.chunks c).gcing = false ∧ c ∉ s.freed
  sweepUnlinked : ∀ c, s.sweep = .freeing c → c ∉ head :: rest

variable {s s' : GcRun} {i head undefined : Nat} {rest : List Nat}

theorem ReclaimOk.disjoint (inv : ReclaimOk s head rest) : s.Disjoint := ⟨inv.once, inv.swept⟩

/-- Before the collectors start. -/
theorem ReclaimOk.idle {h : Heap} {arena : Arena} (queue : LiveHead h arena head rest) :
    ReclaimOk (.idle h arena) head rest := by
  constructor
  case ok => exact .idle queue
  all_goals simp [GcRun.idle, SlowgcPc.pending?, SlowgcPc.owned?, FastgcPc.selected?]

/-- A worker frees the chunk it is at, or nothing. -/
theorem SlowgcMoved.freed_logged (log : SlowgcMoved s i s') :
    Logged (fun c => s.pc i = .freeing c) s.freed s'.freed := by
  have logged := log.freed
  unfold GcRun.freedBy at logged
  split at logged
  · rename_i c place
    exact .inr ⟨c, place, logged⟩
  · exact .inl logged

/-- `fastgc_scheduler` frees the chunk it is at, or nothing. -/
theorem FastgcMoved.freed_logged (log : FastgcMoved s s') :
    Logged (fun c => s.sweep = .freeing c) s.freed s'.freed := by
  have logged := log.freed
  unfold GcRun.sweepFreedBy at logged
  split at logged
  · rename_i c place
    exact .inr ⟨c, place, logged⟩
  · exact .inl logged

/-- What `fastgc_scheduler` unlinks or frees passed its test. -/
theorem FastgcMoved.swept_logged (log : FastgcMoved s s') :
    Logged (fun e => s.sweep.selected? = some e.1 ∧ e.2 = (s.heap.chunks e.1).gcing)
      s.swept s'.swept := by
  have logged := log.swept
  unfold GcRun.sweptBy at logged
  split at logged
  · rename_i c place
    exact .inr ⟨_, ⟨by rw [place]; rfl, rfl⟩, logged⟩
  · rename_i c place
    exact .inr ⟨_, ⟨by rw [place]; rfl, rfl⟩, logged⟩
  · exact .inl logged

/-- A chunk that is being freed has been unlinked. -/
theorem SlowgcEdge.unlinked {h h' : Heap} {rest' : List Nat} {change : QueueChange} {c : Nat}
    {pc : SlowgcPc} (edge : SlowgcEdge h h' rest' change pc (.freeing c)) :
    change = .remove c := by
  cases edge with
  | remove => rfl

theorem FastgcEdge.unlinked {h : Heap} {queue' : List Nat} {change : QueueChange} {c : Nat}
    {pc : FastgcPc} (edge : FastgcEdge h queue' change pc (.freeing c)) :
    change = .remove c := by
  cases edge with
  | remove => rfl

/-- A separate claim is of a chunk on the queue that the sweep has not selected. -/
theorem GcRun.Separate.claim {change : QueueChange} {pc' : SlowgcPc} {h' : Heap}
    {rest' : List Nat} {c : Nat} (separate : s.Separate (.slowgc i undefined))
    (queue : LiveHead s.heap s.arena head rest)
    (edge : SlowgcEdge s.heap h' rest' change (s.pc i) pc') (taken : change = .claim c) :
    c ∈ head :: rest ∧ s.sweep.selected? ≠ some c := by
  obtain ⟨g, place⟩ : ∃ g, s.pc i = .claiming c g := by
    subst taken
    generalize s.pc i = pc at edge
    cases edge with
    | claim => exact ⟨_, rfl⟩
  simp only [GcRun.Separate, place, queue.availList_eq] at separate
  exact separate (edge.claimed taken).2.2

/-- A separate selection is of a chunk on the queue that is not claimed. -/
theorem GcRun.Separate.select {c : Nat} (separate : s.Separate .fastgc)
    (queue : LiveHead s.heap s.arena head rest) (place : s.sweep = .testing c)
    (reclaimed : reclaimTest (s.heap.chunks c) = true) :
    c ∈ head :: rest ∧ (s.heap.chunks c).gcing = false := by
  simp only [GcRun.Separate, place, queue.availList_eq] at separate
  exact separate reclaimed

/-- A chunk is selected by the test, or was before. -/
theorem FastgcEdge.tested {h : Heap} {queue' : List Nat} {change : QueueChange} {c : Nat}
    {pc pc' : FastgcPc} (edge : FastgcEdge h queue' change pc pc')
    (here : pc'.selected? = some c) :
    (pc = .testing c ∧ reclaimTest (h.chunks c) = true) ∨ pc = .removing c := by
  cases edge <;> simp_all [FastgcPc.selected?]

/-! ## What is off the queue stays off -/

section Off

variable {h' : Heap} {arena' : Arena} {change : QueueChange} {head' c : Nat} {rest' : List Nat}

theorem ReclaimOk.freed_off (inv : ReclaimOk s head rest)
    (moved : QueueMoved s.heap h' arena' change head rest head' rest') (freed : c ∈ s.freed)
    (kept : change ≠ .insert c) : ⟨c, .chunk⟩ ∈ h'.blocks ∧ c ∉ head' :: rest' := by
  obtain ⟨isChunk, outside⟩ := inv.freed c freed
  exact ⟨moved.old _ isChunk, moved.off c isChunk outside kept⟩

theorem ReclaimOk.unlinked_off (inv : ReclaimOk s head rest)
    (moved : QueueMoved s.heap h' arena' change head rest head' rest') (place : s.pc i = .freeing c)
    (kept : change ≠ .insert c) : c ∉ head' :: rest' := by
  have here : (s.pc i).owned? = some c := by rw [place]; rfl
  have isChunk := inv.ok.isChunk (SlowgcPc.cursor_of_owned here) (inv.ok.owned i c here).1
  exact moved.off c isChunk (inv.unlinked i c place) kept

theorem ReclaimOk.sweepUnlinked_off (inv : ReclaimOk s head rest)
    (moved : QueueMoved s.heap h' arena' change head rest head' rest') (place : s.sweep = .freeing c)
    (kept : change ≠ .insert c) : c ∉ head' :: rest' := by
  have here : s.sweep.cursor? = some c := by rw [place]; rfl
  exact moved.off c (inv.ok.sweep c here).isChunk (inv.sweepUnlinked c place) kept

end Off

/-! ## Steps keep what is freed apart -/

/-- A step of a worker. -/
theorem ReclaimOk.slowgc (inv : ReclaimOk s head rest)
    (separate : s.Separate (.slowgc i undefined))
    (stepped : s.slowgcStep i undefined = .ok s') : ∃ rest', ReclaimOk s' head rest' := by
  obtain ⟨change, rest', moved, edge, log⟩ := inv.ok.slowgcStep stepped
  have ok := inv.ok
  have nonnull : ∀ {j c}, (s.pc j).owned? = some c → ⟨c, .chunk⟩ ∈ s.heap.blocks :=
    fun here => ok.isChunk (SlowgcPc.cursor_of_owned here) (ok.owned _ _ here).1
  -- What is freed in this step was freed before, or is the chunk this worker owns.
  have freed : ∀ c ∈ s'.freed, c ∈ s.freed ∨ s.pc i = .freeing c :=
    fun _ member => log.freed_logged.mem member
  have owns : ∀ {c}, s.pc i = .freeing c → (s.pc i).owned? = some c := by
    intro c place
    rw [place]
    rfl
  refine ⟨rest', ?_⟩
  constructor
  case ok => exact ok.of_edge moved edge log
  case freed =>
    intro c member
    rcases freed c member with before | place
    · exact inv.freed_off moved before fun put => inv.apart i c (edge.inserted put) before
    · refine ⟨moved.old _ (nonnull (owns place)), inv.unlinked_off moved place fun put => ?_⟩
      exact ok.apart i i c (edge.inserted put) (SlowgcPc.cursor_of_owned (owns place))
  case apart =>
    intro j c here member
    have isChunk : ⟨c, .chunk⟩ ∈ s.heap.blocks := by
      rcases freed c member with before | place
      · exact (inv.freed c before).1
      · exact nonnull (owns place)
    by_cases self : j = i
    · subst self
      exact edge.fresh here isChunk rfl
    · rw [log.others j self] at here
      rcases freed c member with before | place
      · exact inv.apart j c here before
      · exact ok.apart j i c here (SlowgcPc.cursor_of_owned (owns place))
  case once => exact log.freed_logged.nodup (fun c place => inv.owned i c (owns place)) inv.once
  case owned =>
    intro j c here member
    by_cases self : j = i
    · subst self
      rcases freed c member with before | place
      · rcases edge.owned here with old | taken
        · exact inv.owned j c old before
        · exact (inv.freed c before).2 (separate.claim ok.queue edge taken).1
      · -- The worker has let go of what it has just freed.
        rw [place] at edge
        generalize s'.pc j = pc' at edge here
        cases edge with
        | free => cases here
    · rw [log.others j self] at here
      rcases freed c member with before | place
      · exact inv.owned j c here before
      · exact self (ok.owners j i c here (owns place))
  case unlinked =>
    intro j c place
    by_cases self : j = i
    · subst self
      rw [place] at edge
      exact (moved.removed c edge.unlinked).1
    · rw [log.others j self] at place
      have here : (s.pc j).cursor? = some c := by rw [place]; rfl
      exact inv.unlinked_off moved place fun put => ok.apart i j c (edge.inserted put) here
  case swept =>
    rw [log.swept]
    exact inv.swept
  case selected =>
    intro c here
    rw [log.sweep] at here
    obtain ⟨unclaimed, unfreed⟩ := inv.selected c here
    have isChunk := (ok.sweep c (FastgcPc.cursor_of_selected here)).isChunk
    refine ⟨(moved.gcing c isChunk fun taken => ?_).trans unclaimed, fun member => ?_⟩
    · exact (separate.claim ok.queue edge taken).2 here
    · rcases freed c member with before | place
      · exact unfreed before
      · have claimed := (ok.owned i c (owns place)).2
        rw [unclaimed] at claimed
        cases claimed
  case sweepUnlinked =>
    intro c place
    rw [log.sweep] at place
    have here : s.sweep.cursor? = some c := by rw [place]; rfl
    exact inv.sweepUnlinked_off moved place fun put => ok.sweepApart i c (edge.inserted put) here

/-- A step of `fastgc_scheduler`. -/
theorem ReclaimOk.fastgc (inv : ReclaimOk s head rest) (separate : s.Separate .fastgc)
    (stepped : s.fastgcStep = .ok s') : ∃ rest', ReclaimOk s' head rest' := by
  obtain ⟨change, rest', moved, edge, log⟩ := inv.ok.fastgcStep stepped
  have ok := inv.ok
  have freed : ∀ c ∈ s'.freed, c ∈ s.freed ∨ s.sweep = .freeing c :=
    fun _ member => log.freed_logged.mem member
  have selects : ∀ {c}, s.sweep = .freeing c → s.sweep.selected? = some c := by
    intro c place
    rw [place]
    rfl
  have isChunk : ∀ {c}, s.sweep.selected? = some c → ⟨c, .chunk⟩ ∈ s.heap.blocks :=
    fun here => (ok.sweep _ (FastgcPc.cursor_of_selected here)).isChunk
  refine ⟨rest', ?_⟩
  constructor
  case ok => exact ok.of_sweep moved edge log
  case freed =>
    intro c member
    rcases freed c member with before | place
    · exact inv.freed_off moved before edge.keeps.1
    · exact ⟨moved.old _ (isChunk (selects place)),
        inv.sweepUnlinked_off moved place edge.keeps.1⟩
  case apart =>
    rw [log.pc]
    intro j c here member
    rcases freed c member with before | place
    · exact inv.apart j c here before
    · exact ok.sweepApart j c here (FastgcPc.cursor_of_selected (selects place))
  case once =>
    exact log.freed_logged.nodup (fun c place => (inv.selected c (selects place)).2) inv.once
  case owned =>
    rw [log.pc]
    intro j c here member
    rcases freed c member with before | place
    · exact inv.owned j c here before
    · have claimed := (ok.owned j c here).2
      rw [(inv.selected c (selects place)).1] at claimed
      cases claimed
  case unlinked =>
    rw [log.pc]
    exact fun j c place => inv.unlinked_off moved place edge.keeps.1
  case swept =>
    intro c gcing member
    rcases log.swept_logged.mem member with before | ⟨here, claimed⟩
    · exact inv.swept c gcing before
    · exact claimed.trans (inv.selected c here).1
  case selected =>
    intro c here
    have before : (s.heap.chunks c).gcing = false ∧ c ∉ s.freed := by
      rcases edge.tested here with ⟨place, reclaimed⟩ | place
      · obtain ⟨listed, unclaimed⟩ := separate.select ok.queue place reclaimed
        exact ⟨unclaimed, fun member => (inv.freed c member).2 listed⟩
      · exact inv.selected c (by rw [place]; rfl)
    refine ⟨?_, fun member => ?_⟩
    · have old := (ok.sweep c (edge.selected here).1).isChunk
      exact (moved.gcing c old edge.keeps.2).trans before.1
    · rcases freed c member with old | place
      · exact before.2 old
      · rcases edge.tested here with ⟨place', _⟩ | place' <;> rw [place] at place' <;> cases place'
  case sweepUnlinked =>
    intro c place
    rw [place] at edge
    exact (moved.removed c edge.unlinked).1

/-- `arena_malloc_large` of a user. -/
theorem ReclaimOk.mallocLarge {size ptr threadid : Nat} (inv : ReclaimOk s head rest)
    (stepped : s.step (.mallocLarge size ptr threadid) = .ok s') :
    ∃ head' rest', ReclaimOk s' head' rest' := by
  obtain ⟨head', rest', moved, same, ok⟩ := inv.ok.mallocLarge stepped
  have pc : s'.pc = s.pc := by rw [same]
  have sweep : s'.sweep = s.sweep := by rw [same]
  have freed : s'.freed = s.freed := by rw [same]
  have swept : s'.swept = s.swept := by rw [same]
  refine ⟨head', rest', ?_⟩
  constructor
  case ok => exact ok
  case swept =>
    rw [swept]
    exact inv.swept
  all_goals simp only [pc, sweep, freed]
  case freed => exact fun c member => inv.freed_off moved member nofun
  case apart => exact inv.apart
  case once => exact inv.once
  case owned => exact inv.owned
  case unlinked => exact fun j c place => inv.unlinked_off moved place nofun
  case selected =>
    intro c here
    obtain ⟨unclaimed, unfreed⟩ := inv.selected c here
    have old := (inv.ok.sweep c (FastgcPc.cursor_of_selected here)).isChunk
    exact ⟨(moved.gcing c old nofun).trans unclaimed, unfreed⟩
  case sweepUnlinked => exact fun c place => inv.sweepUnlinked_off moved place nofun

/-- Separate steps keep the collectors disjoint. -/
theorem ReclaimOk.step {op : GcThreadOp} (inv : ReclaimOk s head rest) (separate : s.Separate op)
    (stepped : s.step op = .ok s') : ∃ head' rest', ReclaimOk s' head' rest' := by
  cases op with
  | mallocLarge size ptr threadid => exact inv.mallocLarge stepped
  | slowgc worker undefined => exact ⟨head, inv.slowgc separate stepped⟩
  | fastgc => exact ⟨head, inv.fastgc separate stepped⟩

/-- **The two collectors are disjoint** as long as neither selects a chunk that is off
`avail_chunks` or that the other has selected. A run is cut where the pool hands out a descriptor
that was given back to it. -/
theorem collectors_disjoint {h : Heap} {arena : Arena} {ops : List GcThreadOp}
    (queue : LiveHead h arena head rest)
    (separate : Meets GcRun.step GcRun.Separate (.idle h arena) ops)
    (reached : run GcRun.step (.idle h arena) ops = .ok s) : s.Disjoint := by
  have kept : ∀ (s : GcRun) op s', (∃ head rest, ReclaimOk s head rest) → s.Separate op →
      s.step op = .ok s' → ∃ head rest, ReclaimOk s' head rest :=
    fun _ _ _ ⟨_, _, inv⟩ separate stepped => inv.step separate stepped
  obtain ⟨_, _, inv⟩ := run_invariant_of_meets kept ⟨head, rest, .idle queue⟩ separate reached
  exact inv.disjoint

/-- The sweep gives one chunk back, and then a worker evacuates another. -/
def GcThreadOp.oneEach : List GcThreadOp :=
  List.replicate 8 .fastgc ++ List.replicate 10 (.slowgc 0 0)

theorem collectors_disjoint_of_oneEach :
    ∃ (a : ArenaState) (head : Nat) (rest : List Nat) (s : GcRun),
      LiveHead a.heap a.arena head rest ∧
      Meets GcRun.step GcRun.Separate (.idle a.heap a.arena) GcThreadOp.oneEach ∧
      run GcRun.step (.idle a.heap a.arena) GcThreadOp.oneEach = .ok s ∧ s.Disjoint := by
  obtain ⟨a, made, separate⟩ : ∃ a, shapeRun
      (.fresh [chunksize] [1024, 2048, 3072, 4096, 5120, 6144, 7168]) .zeroed 0
      [.mallocLarge 144 0 0, .mallocLarge 4194280 0 0, .mallocLarge 4194280 0 0] = .ok a ∧
      Meets GcRun.step GcRun.Separate (.idle a.heap a.arena) GcThreadOp.oneEach ∧
      (run GcRun.step (.idle a.heap a.arena) GcThreadOp.oneEach).isOk :=
    exists_eq_ok_and (by decide +kernel)
  obtain ⟨head, retired, gcs, shape⟩ := shapeRun_hasShape made
  obtain ⟨s, reached⟩ := exists_eq_ok separate.2
  exact ⟨a, head, _, s, shape.queue, separate.1, reached,
    collectors_disjoint shape.queue separate.1 reached⟩

/-- A worker claims a chunk between the test of the sweep and its `ql_remove`. -/
def GcThreadOp.raced : List GcThreadOp :=
  List.replicate 4 .fastgc ++ List.replicate 5 (.slowgc 0 0) ++ List.replicate 2 .fastgc ++
    List.replicate 3 (.slowgc 0 0)

/-- The sweep comes back to the chunk it has unlinked and gives it back again; and it gives
back a chunk that a worker claims behind its test, as the worker does then. -/
theorem not_collectors_disjoint :
    (∃ s, collectorRun (.fresh [chunksize] [1024, 2048, 3072, 4096]) .zeroed 0
        [.mallocLarge 144 0 0, .mallocLarge 4194280 0 0] (List.replicate 10 .fastgc) = .ok s ∧
      s.freed = [1024, 1024] ∧ ¬ s.Disjoint) ∧
    ∃ s, collectorRun (.fresh [chunksize] [1024, 2048, 3072, 4096, 5120]) .zeroed 0
        [.mallocLarge 144 0 0, .mallocLarge 4194280 0 0]
        GcThreadOp.raced = .ok s ∧
      s.swept = [(1024, true), (1024, true)] ∧ s.freed = [1024, 1024] ∧ ¬ s.Disjoint := by
  constructor
  · obtain ⟨s, reached, freed⟩ : ∃ s,
        collectorRun (.fresh [chunksize] [1024, 2048, 3072, 4096]) .zeroed 0
          [.mallocLarge 144 0 0, .mallocLarge 4194280 0 0] (List.replicate 10 .fastgc) = .ok s ∧
        s.freed = [1024, 1024] := exists_eq_ok_and (by decide +kernel)
    refine ⟨s, reached, freed, fun disjoint => ?_⟩
    have once := disjoint.once
    rw [freed] at once
    simp at once
  · obtain ⟨s, reached, swept, freed⟩ : ∃ s,
        collectorRun (.fresh [chunksize] [1024, 2048, 3072, 4096, 5120]) .zeroed 0
          [.mallocLarge 144 0 0, .mallocLarge 4194280 0 0]
          GcThreadOp.raced = .ok s ∧
        s.swept = [(1024, true), (1024, true)] ∧ s.freed = [1024, 1024] :=
      exists_eq_ok_and (by decide +kernel)
    refine ⟨s, reached, swept, freed, fun disjoint => ?_⟩
    have unclaimed := disjoint.unclaimed 1024 true (by rw [swept]; simp)
    cases unclaimed

end Lsmalloc
