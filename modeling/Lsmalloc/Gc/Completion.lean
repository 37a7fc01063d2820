import Lsmalloc.Gc.Exclusive

/-!
# A worker that runs alone

`do_slowgc` takes its next chunk from the chunk it has just taken off `avail_chunks`, which is
linked to itself, and finds it claimed; and for a chunk that is claimed it goes on with
`gc_lock` taken. So once a worker has a retired log chunk at hand it never returns with the
lock free: a run is clean exactly when there is no such chunk (`slowgc_completes_iff`).
-/

namespace Lsmalloc

open Execution

/-- The steps of worker `0`, each with what it takes for an undefined value. -/
def alone (undefined : List Nat) : List GcThreadOp := undefined.map (.slowgc 0)

/-- Worker `0` has returned with both locks free, after it passed every chunk of the list that
was not claimed, once. -/
structure GcRun.Completed (s : GcRun) (h : Heap) (retired : List Nat) : Prop where
  returned : s.pc 0 = .returned
  once : ∀ c ∈ retired, (h.chunks c).gcing = false →
    (s.passed.map SlowgcCall.chunk).count c = 1
  lock : s.lock = none
  gcLock : s.gcLock = none

/-- Worker `0`, running alone, returns after some number of steps: none of them follows `NULL`
or waits for a lock. -/
def GcRun.Completes (s : GcRun) (retired : List Nat) : Prop :=
  ∃ steps, ∀ undefined : List Nat, undefined.length = steps →
    ∃ s', run GcRun.step s (alone undefined) = .ok s' ∧ s'.Completed s.heap retired

variable {s s' : GcRun} {h h' : Heap} {arena arena' : Arena} {head c d g u v : Nat}
  {rest retired gcs : List Nat}

/-! ## The steps before the loop -/

/-- The first two steps are `gc_alloc_chunk`. -/
theorem GcRun.idle_gcAlloc (h : Heap) (arena : Arena) (u v : Nat) :
    run GcRun.step (.idle h arena) (alone [u, v]) =
      gcAllocChunk h arena >>= fun made =>
        .ok ((GcRun.idle made.2.1 made.2.2).goto 0 (.entering made.1)) := by
  simp only [alone, List.map_cons, List.map_nil, run, GcRun.step, gcAllocChunk]
  cases created : chunkCreate h arena .gc false with
  | error fault => simp [GcRun.slowgcStep, GcRun.idle, created, bind, Except.bind]
  | ok made =>
      obtain ⟨c, h₁, arena₁⟩ := made
      cases inserted : h₁.availTailInsert arena₁.availChunks c with
      | error fault =>
          simp [GcRun.slowgcStep, GcRun.idle, GcRun.goto, created, inserted, bind, Except.bind]
      | ok made =>
          simp [GcRun.slowgcStep, GcRun.idle, GcRun.goto, created, inserted, bind, Except.bind]

/-- The third finds the chunk behind the live head. -/
theorem GcRun.idle_enters (queue : LiveHead h arena head (d :: rest)) (g u : Nat) :
    ((GcRun.idle h arena).goto 0 (.entering g)).step (.slowgc 0 u) =
      .ok ((GcRun.idle h arena).goto 0 (.looking d g)) := by
  have present : head ≠ 0 := queue.ring.nonnull head List.mem_cons_self
  have present' : d ≠ 0 := queue.ring.nonnull d (by simp)
  have read : h.getChunk head = .ok (h.chunks head) :=
    getChunk_eq_ok.mpr ⟨⟨present, queue.isChunk head List.mem_cons_self⟩, rfl⟩
  have second := queue.ring.qlNext_head
  rw [queue.availChunks_eq] at second
  simp [GcRun.step, GcRun.slowgcStep, GcRun.idle, GcRun.goto, queue.availChunks_eq, present, read,
    queue.live, second, present', bind, Except.bind]

/-- At a GC chunk the worker returns. -/
theorem GcRun.idle_stops (queue : LiveHead h arena head (d :: rest))
    (gc : (h.chunks d).chunktype = .gc) (g u : Nat) :
    ((GcRun.idle h arena).goto 0 (.looking d g)).step (.slowgc 0 u) =
      .ok ((GcRun.idle h arena).goto 0 .returned) := by
  have present : d ≠ 0 := queue.ring.nonnull d (by simp)
  have read : h.getChunk d = .ok (h.chunks d) :=
    getChunk_eq_ok.mpr ⟨⟨present, queue.isChunk d (by simp)⟩, rfl⟩
  simp [GcRun.step, GcRun.slowgcStep, GcRun.idle, GcRun.goto, read, gc, bind, Except.bind]

/-! ## A worker with a log chunk at hand -/

/-- Worker `0` holds `gc_lock` and has no chunk in hand, or its cursor is at a log chunk; and it
has passed no other chunk. -/
structure Trapped (s : GcRun) (c : Nat) : Prop where
  ok : ∃ head rest, GcOk s head rest
  isChunk : ⟨c, .chunk⟩ ∈ s.heap.blocks
  log : (s.heap.chunks c).chunktype = .log
  held : s.gcLock = some 0 ∨ (s.pc 0).cursor? = some c
  waits : s.gcLock = some 0 → (s.pc 0).owned? = none
  only : ∀ call ∈ s.passed, call.chunk = c

/-- From a log chunk the worker comes back to it, or goes on to another with `gc_lock` taken. -/
theorem SlowgcEdge.of_log {change : QueueChange} {pc pc' : SlowgcPc} {rest' : List Nat}
    (edge : SlowgcEdge h h' rest' change pc pc') (here : pc.cursor? = some c)
    (log : (h.chunks c).chunktype = .log) :
    pc'.cursor? = some c ∨ ∃ d g, pc = .claiming c g ∧ pc' = .looking d g := by
  cases edge with
  | stop gc =>
      cases here
      rw [log] at gc
      cases gc
  | skip next =>
      cases here
      exact .inr ⟨_, _, rfl, rfl⟩
  | create | insert | leave | enter => cases here
  | _ => exact .inl here

/-- A chunk is claimed with `gc_lock` free. -/
theorem SlowgcEdge.unlocked {change : QueueChange} {pc' : SlowgcPc} {rest' : List Nat} {i : Nat}
    (edge : SlowgcEdge s.heap h' rest' change (s.pc i) pc') (taken : change = .claim d)
    (stepped : s.step (.slowgc i u) = .ok s') : s.gcLock = none := by
  obtain ⟨g, place⟩ : ∃ g, s.pc i = .claiming d g := by
    subst taken
    generalize s.pc i = pc at edge
    cases edge with
    | claim => exact ⟨_, rfl⟩
  by_contra locked
  simp [GcRun.step, GcRun.slowgcStep, place, locked] at stepped

theorem Trapped.step (trapped : Trapped s c) (stepped : s.step (.slowgc 0 u) = .ok s') :
    Trapped s' c := by
  obtain ⟨⟨head, rest, ok⟩, isChunk, log, held, waits, only⟩ := trapped
  obtain ⟨change, rest', moved, edge, beside⟩ := ok.slowgcStep stepped
  constructor
  case ok => exact ok.step stepped
  case isChunk => exact moved.old _ isChunk
  case log => exact (moved.chunktype c isChunk).trans log
  case held =>
    rw [beside.gcLock]
    rcases held with locked | here
    · left
      unfold GcRun.gcLockBy
      split
      · rfl
      · exact locked
    · rcases edge.of_log here log with again | ⟨d, g, place, place'⟩
      · exact .inr again
      · left
        rw [place, place']
        rfl
  case waits =>
    intro locked
    rw [beside.gcLock] at locked
    unfold GcRun.gcLockBy at locked
    split at locked
    · rename_i looks
      rw [looks]
      rfl
    · cases hand : (s'.pc 0).owned? with
      | none => rfl
      | some d =>
          rcases edge.owned hand with before | taken
          · rw [waits locked] at before
            cases before
          · rw [edge.unlocked taken stepped] at locked
            cases locked
  case only =>
    rcases beside.passed_eq with ⟨same, _⟩ | ⟨d, g, place, logged⟩
    · rw [same]
      exact only
    · rw [logged]
      refine List.forall_mem_cons.mpr ⟨?_, only⟩
      rcases held with locked | here
      · have hand := waits locked
        rw [place] at hand
        cases hand
      · rw [place] at here
        exact Option.some.inj here

/-- It stays so for as long as the worker runs alone. -/
theorem Trapped.run {undefined : List Nat} (trapped : Trapped s c)
    (ran : Execution.run GcRun.step s (alone undefined) = .ok s') : Trapped s' c := by
  have kept : ∀ s op s', Trapped s c → (∃ u, op = .slowgc 0 u) → GcRun.step s op = .ok s' →
      Trapped s' c := by
    rintro s op s' here ⟨u, rfl⟩ stepped
    exact here.step stepped
  apply run_invariant kept trapped ?_ ran
  intro op member
  obtain ⟨u, _, rfl⟩ := List.mem_map.mp member
  exact ⟨u, rfl⟩

/-- The worker does not return with `gc_lock` free. -/
theorem Trapped.not_completed (trapped : Trapped s c) : ¬ s.Completed h retired := by
  intro completed
  rcases trapped.held with locked | here
  · rw [completed.gcLock] at locked
    cases locked
  · rw [completed.returned] at here
    cases here

/-- With a retired log chunk on the queue the worker is before its loop, or trapped at the first
one. -/
theorem GcRun.idle_trapped {r : Nat} {more undefined : List Nat}
    (shape : Shape h arena head (r :: more) gcs)
    (ran : run GcRun.step (.idle h arena) (alone undefined) = .ok s) :
    (s.pc 0 ≠ .returned ∧ s.passed = []) ∨ Trapped s r := by
  match undefined with
  | [] =>
      cases ran
      exact .inl ⟨nofun, rfl⟩
  | [u] =>
      obtain ⟨s₁, stepped, ended⟩ := run_cons_eq_ok.mp ran
      cases ended
      obtain ⟨made, _, stepped⟩ := bind_eq_ok.mp stepped
      cases stepped
      refine .inl ⟨?_, rfl⟩
      rw [GcRun.goto_pc_self]
      nofun
  | u :: v :: undefined =>
      have split : alone (u :: v :: undefined) = alone [u, v] ++ alone undefined := rfl
      rw [split] at ran
      obtain ⟨s₂, first, rested⟩ := run_append_eq_ok.mp ran
      have ok₂ := gcRun_ok shape.queue first
      rw [GcRun.idle_gcAlloc] at first
      obtain ⟨⟨c, h₂, arena₂⟩, allocated, first⟩ := bind_eq_ok.mp first
      cases first
      have shape₂ := shape.gcAlloc allocated
      have isChunk : ⟨r, .chunk⟩ ∈ h₂.blocks := shape₂.queue.isChunk r (by simp)
      have log : (h₂.chunks r).chunktype = .log := shape₂.logs r (by simp)
      cases undefined with
      | nil =>
          cases rested
          refine .inl ⟨?_, rfl⟩
          rw [GcRun.goto_pc_self]
          nofun
      | cons w undefined =>
          obtain ⟨s₃, entered, rested⟩ := run_cons_eq_ok.mp rested
          obtain ⟨head₂, rest₂, ok₂⟩ := ok₂
          have ok₃ := ok₂.step entered
          rw [GcRun.idle_enters shape₂.queue] at entered
          cases entered
          have trapped : Trapped ((GcRun.idle h₂ arena₂).goto 0 (.looking r c)) r := by
            refine ⟨ok₃, isChunk, log, .inr ?_, nofun, nofun⟩
            rw [GcRun.goto_pc_self]
            rfl
          exact .inr (trapped.run rested)

/-- With a retired log chunk on the queue no run of the worker completes. -/
theorem not_completed_of_retired {r : Nat} {more : List Nat} {undefined : List Nat}
    (shape : Shape h arena head (r :: more) gcs)
    (ran : run GcRun.step (.idle h arena) (alone undefined) = .ok s) :
    ¬ s.Completed h (r :: more) := by
  rcases GcRun.idle_trapped shape ran with ⟨before, _⟩ | trapped
  · exact fun completed => before completed.returned
  · exact trapped.not_completed

/-! ## The condition -/

/-- With no retired log chunk the first chunk behind the head is a GC chunk, once the worker's
own is there. -/
theorem Shape.gc_first (shape : Shape h arena head [] gcs)
    (allocated : gcAllocChunk h arena = .ok (c, h', arena')) :
    ∃ d tail, LiveHead h' arena' head (d :: tail) ∧ (h'.chunks d).chunktype = .gc := by
  have shape' := shape.gcAlloc allocated
  have queue := shape'.queue
  obtain ⟨d, tail, behind⟩ : ∃ d tail, gcs ++ [c] = d :: tail := by
    cases gcs with
    | nil => exact ⟨c, [], rfl⟩
    | cons d tail => exact ⟨d, tail ++ [c], rfl⟩
  rw [List.nil_append, behind] at queue
  refine ⟨d, tail, queue, shape'.gcs d ?_⟩
  rw [behind]
  exact List.mem_cons_self

/-- With no retired log chunk the worker returns at the first GC chunk. -/
theorem GcRun.idle_completes (shape : Shape h arena head [] gcs)
    (allocated : gcAllocChunk h arena = .ok (c, h', arena')) :
    (GcRun.idle h arena).Completes [] := by
  obtain ⟨d, tail, queue, gc⟩ := shape.gc_first allocated
  refine ⟨4, fun undefined length => ?_⟩
  obtain ⟨u, v, w, x, rfl⟩ := List.length_eq_four.mp length
  refine ⟨(GcRun.idle h' arena').goto 0 .returned, ?_, GcRun.goto_pc_self _ _ _, by simp, rfl, rfl⟩
  have split : alone [u, v, w, x] = alone [u, v] ++ alone [w, x] := rfl
  rw [split, run_append_eq_ok]
  refine ⟨(GcRun.idle h' arena').goto 0 (.entering c), ?_, ?_⟩
  · rw [GcRun.idle_gcAlloc, allocated]
    rfl
  · refine run_cons_eq_ok.mpr ⟨_, GcRun.idle_enters queue c w, ?_⟩
    exact run_cons_eq_ok.mpr ⟨_, GcRun.idle_stops queue gc c x, rfl⟩

/-- Once its GC chunk is allocated, a worker that runs alone completes exactly when the queue
has no retired log chunk. With one it never does, whatever it takes for undefined values. -/
theorem slowgc_completes_iff {made : Nat × Heap × Arena} (shape : Shape h arena head retired gcs)
    (allocated : gcAllocChunk h arena = .ok made) :
    ((GcRun.idle h arena).Completes retired ↔ retired = []) ∧
      (retired ≠ [] → ∀ undefined s, run GcRun.step (.idle h arena) (alone undefined) = .ok s →
        ¬ s.Completed h retired) := by
  have never : retired ≠ [] → ∀ undefined s,
      run GcRun.step (.idle h arena) (alone undefined) = .ok s → ¬ s.Completed h retired := by
    intro nonempty undefined s ran
    obtain ⟨r, more, rfl⟩ := List.exists_cons_of_ne_nil nonempty
    exact not_completed_of_retired shape ran
  refine ⟨⟨?_, ?_⟩, never⟩
  · rintro ⟨steps, completes⟩
    obtain ⟨s, ran, completed⟩ := completes (List.replicate steps 0) List.length_replicate
    by_contra nonempty
    exact never nonempty _ s ran completed
  · rintro rfl
    exact GcRun.idle_completes shape allocated

/-- The arena is new, with two GC chunks behind its live chunk. -/
theorem slowgc_completes_iff_of_booted :
    ∃ (a : ArenaState) (made : Nat × Heap × Arena) (head : Nat) (retired gcs : List Nat),
      Shape a.heap a.arena head retired gcs ∧ retired = [] ∧ gcs.length = 2 ∧
      gcAllocChunk a.heap a.arena = .ok made ∧
      ((GcRun.idle a.heap a.arena).Completes retired ↔ retired = []) ∧
      (retired ≠ [] → ∀ undefined s,
        run GcRun.step (.idle a.heap a.arena) (alone undefined) = .ok s →
        ¬ s.Completed a.heap retired) := by
  obtain ⟨⟨a, made⟩, ran, logs, chunks⟩ : ∃ both : ArenaState × (Nat × Heap × Arena),
      (shapeRun (.fresh [chunksize] [1024, 2048, 3072, 4096]) .zeroed 0
        [.gcAllocChunk, .gcAllocChunk] >>= fun a =>
        gcAllocChunk a.heap a.arena >>= fun made => .ok (a, made)) = .ok both ∧
      ((both.1.heap.availList both.1.arena.availChunks).tail.filter fun c =>
        (both.1.heap.chunks c).chunktype = .log) = [] ∧
      (both.1.heap.availList both.1.arena.availChunks).length = 3 :=
    exists_eq_ok_and (by decide +kernel)
  obtain ⟨a', booted, ran⟩ := bind_eq_ok.mp ran
  obtain ⟨made', allocated, same⟩ := bind_eq_ok.mp ran
  cases same
  obtain ⟨head, retired, gcs, shape⟩ := shapeRun_hasShape booted
  obtain rfl : retired = [] := shape.retired_eq.trans logs
  have two : gcs.length = 2 := by
    rw [shape.queue.availList_eq] at chunks
    simpa using chunks
  exact ⟨a, made, head, [], gcs, shape, rfl, two, allocated, slowgc_completes_iff shape allocated⟩

/-- One chunk is retired. The worker evacuates it, comes back to it, and is about to lock
`gc_lock`, which it holds. -/
theorem not_slowgc_completes :
    ∃ (a : ArenaState) (s : GcRun) (head : Nat) (gcs : List Nat),
      Shape a.heap a.arena head [1024] gcs ∧
      run GcRun.step (.idle a.heap a.arena) (alone (List.replicate 14 0)) = .ok s ∧
      s.pc 0 = .claiming 1024 0 ∧ s.gcLock = some 0 ∧
      ¬ (GcRun.idle a.heap a.arena).Completes [1024] := by
  obtain ⟨⟨a, s⟩, ran, logs, place, locked⟩ : ∃ both : ArenaState × GcRun,
      (shapeRun (.fresh [chunksize] [1024, 2048, 3072, 4096, 5120]) .zeroed 0
        [.mallocLarge 240 0 0, .mallocLarge 4194280 0 0] >>= fun a =>
        run GcRun.step (.idle a.heap a.arena) (alone (List.replicate 14 0)) >>= fun s =>
        .ok (a, s)) = .ok both ∧
      ((both.1.heap.availList both.1.arena.availChunks).tail.filter fun c =>
        (both.1.heap.chunks c).chunktype = .log) = [1024] ∧
      both.2.pc 0 = .claiming 1024 0 ∧ both.2.gcLock = some 0 :=
    exists_eq_ok_and (by decide +kernel)
  obtain ⟨a', made, ran⟩ := bind_eq_ok.mp ran
  obtain ⟨s', reached, same⟩ := bind_eq_ok.mp ran
  cases same
  obtain ⟨head, retired, gcs, shape⟩ := shapeRun_hasShape made
  obtain rfl : retired = [1024] := shape.retired_eq.trans logs
  refine ⟨a, s, head, gcs, shape, reached, place, locked, ?_⟩
  rintro ⟨steps, completes⟩
  obtain ⟨s', ran', completed⟩ := completes (List.replicate steps 0) List.length_replicate
  exact not_completed_of_retired shape ran' completed

end Lsmalloc
