import Lsmalloc.Arena.Accounting
import Lsmalloc.Gc.Model

/-!
# The GC chunk a worker goes on with

`chunk_do_slowgc` keeps in `ret` the GC chunk that the next region should go to, and returns
it on neither of its ways out: it returns `NULL` for a chunk it has reclaimed, and falls off
its end after an evacuation. `do_slowgc` takes what it gets for its `gc_chunk`, so that is
right after no call (`slowgc_cursor_never`).
-/

namespace Lsmalloc

open Execution

/-- `chunk_do_slowgc` with its value. After an evacuation C defines none, and `undefined` is
the one the caller takes. -/
def chunkDoSlowgcValue (fuel undefined : Nat) (h : Heap) (arena : Arena) (chunk gcChunk : Nat) :
    Except Fault (Nat × Heap × Arena) := do
  let c ← h.getChunk chunk
  if reclaimTest c = true then do
    let (h, arena) ← chunkDoFastgc h arena chunk
    .ok (0, h, arena)
  else do
    let e ← evacuate fuel h arena chunk gcChunk
    .ok (undefined, e.heap, e.arena)

/-- A worker in the loop of `do_slowgc`, before its next call of `chunk_do_slowgc`. -/
structure SlowgcWorker where
  heap : Heap
  arena : Arena
  gcChunk : Nat

/-- A chunk that a worker passes to `chunk_do_slowgc`, and what it takes for the value of the
call where there is none. -/
structure SlowgcPass where
  chunk : Nat
  fuel : Nat
  undefined : Nat
deriving DecidableEq, Repr

/-- The chunk is claimed. -/
def SlowgcWorker.claim (s : SlowgcWorker) (chunk : Nat) : Heap :=
  s.heap.putChunk chunk { s.heap.chunks chunk with gcing := true }

/-- The body of the loop, from the claim of the chunk to its second `ql_remove`. -/
def SlowgcWorker.pass (s : SlowgcWorker) (call : SlowgcPass) : Except Fault SlowgcWorker := do
  let _ ← s.heap.getChunk call.chunk
  let (tmp, h, arena) ← chunkDoSlowgcValue call.fuel call.undefined (s.claim call.chunk) s.arena
    call.chunk s.gcChunk
  let gcChunk := if tmp ≠ s.gcChunk then tmp else s.gcChunk
  let (first, h) ← h.availRemove arena.availChunks call.chunk
  .ok ⟨h, { arena with availChunks := first }, gcChunk⟩

/-- The last chunk made between the two heaps, or the GC chunk there was if there is none. -/
def lastGcChunk (h h' : Heap) (gcChunk : Nat) : Nat :=
  ((h'.blocks.find? fun b => decide (b.object = .chunk ∧ b ∉ h.blocks)).map Block.addr).getD gcChunk

/-- A GC chunk of the arena. -/
structure IsGcChunk (h : Heap) (arena : Arena) (c : Nat) : Prop where
  nonnull : c ≠ 0
  isChunk : ⟨c, .chunk⟩ ∈ h.blocks
  chunktype : (h.chunks c).chunktype = .gc
  arena : (h.chunks c).arena = arena.ind

/-- Whatever the worker takes for the values that are not defined, each call for one of the
chunks leaves it with the right GC chunk. -/
def SlowgcWorker.CursorKept (s : SlowgcWorker) (chunks : List Nat) : Prop :=
  ∀ calls : List SlowgcPass, calls.map SlowgcPass.chunk = chunks →
    ∀ before call after s' s'', calls = before ++ call :: after →
      run SlowgcWorker.pass s before = .ok s' → s'.pass call = .ok s'' →
      s''.gcChunk = lastGcChunk s'.heap s''.heap s'.gcChunk ∧
        IsGcChunk s''.heap s''.arena s''.gcChunk

variable {h h' : Heap} {arena arena' : Arena} {c gcChunk : Nat} {s s' : SlowgcWorker}
  {call : SlowgcPass}

/-! ## What `ret` holds -/

theorem lastGcChunk_self (h : Heap) (gcChunk : Nat) (same : h'.blocks = h.blocks) :
    lastGcChunk h h' gcChunk = gcChunk := by
  have none : (h'.blocks.find? fun b => decide (b.object = .chunk ∧ b ∉ h.blocks)) = none := by
    rw [same, List.find?_eq_none]
    intro b member
    simp [member]
  rw [lastGcChunk, none]
  rfl

/-- An object that is no chunk does not count. -/
theorem lastGcChunk_region {region : Nat} {h₁ : Heap}
    (blocks : h'.blocks = ⟨region, .region⟩ :: h₁.blocks) :
    lastGcChunk h h' gcChunk = lastGcChunk h h₁ gcChunk := by
  simp [lastGcChunk, blocks]

/-- A new chunk is the last one. -/
theorem lastGcChunk_chunk {h₁ : Heap} (blocks : h'.blocks = ⟨c, .chunk⟩ :: h₁.blocks)
    (fresh : ⟨c, .chunk⟩ ∉ h.blocks) : lastGcChunk h h' gcChunk = c := by
  simp [lastGcChunk, blocks, fresh]

/-- At every round, the GC chunk of the loop is the last one it made. -/
structure CursorInv (h : Heap) (gcChunk : Nat) (e : Evacuation) : Prop where
  old : ∀ b ∈ h.blocks, b ∈ e.heap.blocks
  last : e.gcChunk = lastGcChunk h e.heap gcChunk
  isGcChunk : IsGcChunk e.heap e.arena e.gcChunk

/-- `gc_alloc_chunk` makes a GC chunk of its arena. -/
theorem gcAllocChunk_isGcChunk (allocated : gcAllocChunk h arena = .ok (c, h', arena')) :
    IsGcChunk h' arena' c ∧ h'.blocks = ⟨c, .chunk⟩ :: h.blocks ∧ (∀ b ∈ h.blocks, b.addr ≠ c) := by
  obtain ⟨addr, h₁, arena₁, created, _, rfl, rfl⟩ := gcAllocChunk_effect allocated
  obtain ⟨blocks, fresh, nonnull⟩ := chunkTaken_objects created.pool
  have self : h₁.chunks c = newChunk (h.chunks c) addr arena.ind .gc false := by
    rw [created.chunks, Function.update_self]
  refine ⟨⟨nonnull, ?_, ?_, ?_⟩, blocks, fresh⟩
  · change _ ∈ h₁.blocks
    rw [blocks]
    exact List.mem_cons_self
  · exact congrArg Chunk.chunktype self
  · change (h₁.chunks c).arena = arena₁.ind
    rw [self, created.others]
    rfl

/-- What a GC chunk is depends on its type and its arena. -/
theorem IsGcChunk.congr (isGcChunk : IsGcChunk h arena c)
    (blocks : ⟨c, .chunk⟩ ∈ h.blocks → ⟨c, .chunk⟩ ∈ h'.blocks)
    (same : (h'.chunks c).chunktype = (h.chunks c).chunktype ∧
      (h'.chunks c).arena = (h.chunks c).arena) (ind : arena'.ind = arena.ind) :
    IsGcChunk h' arena' c where
  nonnull := isGcChunk.nonnull
  isChunk := blocks isGcChunk.isChunk
  chunktype := same.1.trans isGcChunk.chunktype
  arena := (same.2.trans isGcChunk.arena).trans ind.symm

/-- A migration leaves a GC chunk what it is. -/
theorem IsGcChunk.migrate {oldregion region gc : Nat} (isGcChunk : IsGcChunk h arena c)
    (migrated : gcRegionMigration h gc oldregion = .ok (region, h')) : IsGcChunk h' arena c := by
  obtain ⟨w, new, placed⟩ := gcRegionMigration_effect migrated
  refine isGcChunk.congr ?_ ?_ rfl
  · intro isChunk
    rw [placed.world]
    change _ ∈ w.blocks
    rw [new.blocks]
    exact List.mem_cons_of_mem _ isChunk
  · rw [placed.chunks]
    by_cases here : c = gc <;> simp [here]

/-- A round keeps it. -/
theorem CursorInv.round {e e' : Evacuation} {region : Nat} (inv : CursorInv h gcChunk e)
    (evacuated : evacuateRegion e region = .ok e') : CursorInv h gcChunk e' := by
  rcases evacuateRegion_effect evacuated with
    ⟨_, rfl⟩ | ⟨_, gc, h₁, arena₁, new, chosen, migrated, sameArena, sameGc, _⟩
  · exact inv
  -- The GC chunk the region goes to, before the migration.
  have target : CursorInv h gcChunk ⟨h₁, arena₁, gc, e.migrated⟩ := by
    rcases chosen with ⟨rfl, rfl, rfl⟩ | allocated
    · exact ⟨inv.old, inv.last, inv.isGcChunk⟩
    · obtain ⟨isGcChunk, blocks, fresh⟩ := gcAllocChunk_isGcChunk allocated
      have notOld : (⟨gc, .chunk⟩ : Block) ∉ h.blocks := fun here => fresh _ (inv.old _ here) rfl
      refine ⟨?_, (lastGcChunk_chunk blocks notOld).symm, isGcChunk⟩
      intro b member
      change b ∈ h₁.blocks
      rw [blocks]
      exact List.mem_cons_of_mem _ (inv.old b member)
  obtain ⟨w, made, placed⟩ := gcRegionMigration_effect migrated
  have blocks : e'.heap.blocks = ⟨new, .region⟩ :: h₁.blocks := by
    rw [placed.world]
    exact made.blocks
  refine ⟨?_, ?_, ?_⟩
  · intro b member
    rw [blocks]
    exact List.mem_cons_of_mem _ (target.old b member)
  · rw [sameGc, lastGcChunk_region blocks]
    exact target.last
  · rw [sameGc, sameArena]
    exact target.isGcChunk.migrate migrated

/-- What an evacuation should return, and does hold in `ret`: the last GC chunk it made, or
the one it was given. -/
theorem evacuate_cursor {fuel : Nat} {e : Evacuation} (given : IsGcChunk h arena gcChunk)
    (evacuated : evacuate fuel h arena c gcChunk = .ok e) :
    e.gcChunk = lastGcChunk h e.heap gcChunk ∧ IsGcChunk e.heap e.arena e.gcChunk := by
  have start : CursorInv h gcChunk ⟨h, arena, gcChunk, []⟩ :=
    ⟨fun _ here => here, (lastGcChunk_self h gcChunk rfl).symm, given⟩
  obtain ⟨chunk, read, evacuated⟩ := bind_eq_ok.mp evacuated
  obtain ⟨e₁, looped, evacuated⟩ := bind_eq_ok.mp evacuated
  obtain ⟨⟨first, h₁⟩, removed, evacuated⟩ := bind_eq_ok.mp evacuated
  obtain ⟨_, rfl, rfl⟩ := availRemove_eq_ok.mp removed
  cases evacuated
  have inv := evacuateFrom_invariant (fun _ _ _ inv round => inv.round round) start looped
  exact ⟨inv.last, inv.isGcChunk.congr (fun here => here) ⟨rfl, rfl⟩ rfl⟩

/-! ## What the worker gets -/

/-- What a call that returns has done: a reclaim, with `NULL` for its value, or an evacuation,
with none. -/
theorem SlowgcWorker.pass_cases (passed : s.pass call = .ok s') :
    (reclaimTest (s.heap.chunks call.chunk) = true ∧ s'.gcChunk = 0 ∧
        s'.heap.blocks = s.heap.blocks) ∨
      (reclaimTest (s.heap.chunks call.chunk) = false ∧ s'.gcChunk = call.undefined ∧
        (∃ e, evacuate call.fuel (s.claim call.chunk) s.arena call.chunk s.gcChunk = .ok e ∧
          s'.heap.blocks = e.heap.blocks) ∧
        ∀ value, s.pass { call with undefined := value } = .ok { s' with gcChunk := value }) := by
  obtain ⟨_, read, passed⟩ := bind_eq_ok.mp passed
  obtain ⟨⟨tmp, h, arena⟩, returned, passed⟩ := bind_eq_ok.mp passed
  obtain ⟨⟨first, h₁⟩, removed, passed⟩ := bind_eq_ok.mp passed
  obtain ⟨chunk, reread, returned⟩ := bind_eq_ok.mp returned
  obtain ⟨present, rfl⟩ := getChunk_eq_ok.mp reread
  have claimed : reclaimTest ((s.claim call.chunk).chunks call.chunk) =
      reclaimTest (s.heap.chunks call.chunk) := by
    simp [SlowgcWorker.claim, Heap.putChunk, reclaimTest]
  have taken : ∀ value, (if value ≠ s.gcChunk then value else s.gcChunk) = value := by
    intro value
    by_cases same : value = s.gcChunk <;> simp [same]
  simp only [Except.ok.injEq] at passed
  subst passed
  obtain ⟨_, _, sameHeap⟩ := availRemove_eq_ok.mp removed
  simp only [taken]
  split at returned
  · rename_i test
    rw [claimed] at test
    obtain ⟨⟨h₂, arena₂⟩, freed, returned⟩ := bind_eq_ok.mp returned
    simp only [Except.ok.injEq, Prod.mk.injEq] at returned
    obtain ⟨rfl, rfl, rfl⟩ := returned
    obtain ⟨_, _, rfl, _⟩ := arenaChunkDalloc_effect freed
    refine .inl ⟨test, rfl, ?_⟩
    rw [← sameHeap]
    rfl
  · rename_i test
    obtain ⟨e, evacuated, returned⟩ := bind_eq_ok.mp returned
    simp only [Except.ok.injEq, Prod.mk.injEq] at returned
    obtain ⟨rfl, rfl, rfl⟩ := returned
    refine .inr ⟨by simpa [claimed] using test, rfl, ⟨e, evacuated, by rw [← sameHeap]⟩, ?_⟩
    intro value
    refine bind_eq_ok.mpr ⟨_, read, bind_eq_ok.mpr ⟨(value, e.heap, e.arena), ?_,
      bind_eq_ok.mpr ⟨_, removed, ?_⟩⟩⟩
    · refine bind_eq_ok.mpr ⟨_, reread, ?_⟩
      rw [if_neg test]
      exact bind_eq_ok.mpr ⟨e, evacuated, rfl⟩
    · simp only [taken]

/-- **No call leaves the worker with the right GC chunk.** After a chunk that was reclaimed the
worker has `NULL` for its GC chunk. After an evacuation it has what the missing value happens to
be, though `ret` held the right one. -/
theorem slowgc_cursor_never (given : IsGcChunk s.heap s.arena s.gcChunk)
    (returns : s.pass call = .ok s') (chunks : List Nat) :
    (s'.gcChunk = if reclaimTest (s.heap.chunks call.chunk) = true then 0 else call.undefined) ∧
      (reclaimTest (s.heap.chunks call.chunk) = false →
        ∃ e, evacuate call.fuel (s.claim call.chunk) s.arena call.chunk s.gcChunk = .ok e ∧
          e.gcChunk = lastGcChunk s.heap s'.heap s.gcChunk) ∧
      ¬ s.CursorKept (call.chunk :: chunks) := by
  -- One call for each chunk; what the later ones do does not matter.
  have refuted : ∀ first : SlowgcPass, first.chunk = call.chunk → ∀ s'',
      s.pass first = .ok s'' → s''.gcChunk ≠ lastGcChunk s.heap s''.heap s.gcChunk →
      ¬ s.CursorKept (call.chunk :: chunks) := by
    intro first sameChunk s'' passed wrong kept
    have calls := kept (first :: chunks.map fun c => ⟨c, 0, 0⟩)
      (by simp [sameChunk, Function.comp_def]) [] first _ s s'' rfl rfl passed
    exact wrong calls.1
  rcases SlowgcWorker.pass_cases returns with
    ⟨test, null, blocks⟩ | ⟨test, taken, ⟨e, evacuated, blocks⟩, others⟩
  · refine ⟨by rw [if_pos test]; exact null, fun passed => ?_, refuted call rfl s' returns ?_⟩
    · rw [test] at passed
      cases passed
    · rw [null, lastGcChunk_self _ _ blocks]
      exact given.nonnull.symm
  · have claimed : IsGcChunk (s.claim call.chunk) s.arena s.gcChunk := by
      refine given.congr (fun here => here) ?_ rfl
      by_cases here : s.gcChunk = call.chunk <;> simp [SlowgcWorker.claim, Heap.putChunk, here]
    have last : e.gcChunk = lastGcChunk s.heap s'.heap s.gcChunk := by
      rw [(evacuate_cursor claimed evacuated).1]
      simp only [lastGcChunk, blocks]
      rfl
    refine ⟨by rw [if_neg (by simp [test])]; exact taken, fun _ => ⟨e, evacuated, last⟩, ?_⟩
    let first : SlowgcPass :=
      { call with undefined := lastGcChunk s.heap s'.heap s.gcChunk + 1 }
    exact refuted first rfl _ (others first.undefined) (Nat.succ_ne_self _)

/-- Three log chunks: the first has a freed region, the second meets the reclaim test, and the
third is live. -/
def LogOp.threeChunks : List LogOp :=
  [.regionAlloc 4194288 0 0, .regionAlloc 152 0 0, .regionAlloc 4194288 0 0, .dallocLarge 1024 2048]

/-- A worker that evacuates the first of three chunks. -/
theorem slowgc_cursor_never_of_evacuation :
    ∃ s h arena s', logRun (.fresh [chunksize] [1024, 2048, 3072, 4096, 5120, 6144, 7168, 8192])
        .zeroed 0 LogOp.threeChunks = .ok s ∧
      gcAllocChunk s.heap s.arena = .ok (7168, h, arena) ∧
      SlowgcWorker.pass ⟨h, arena, 7168⟩ ⟨1024, 2, 5⟩ = .ok s' ∧ s'.gcChunk = 5 ∧
      ¬ SlowgcWorker.CursorKept ⟨h, arena, 7168⟩ [1024, 4096] := by
  obtain ⟨⟨s, ⟨gc, h, arena⟩, s'⟩, ran, rfl, passed⟩ :
      ∃ r : ArenaState × (Nat × Heap × Arena) × SlowgcWorker,
        (logRun (.fresh [chunksize] [1024, 2048, 3072, 4096, 5120, 6144, 7168, 8192]) .zeroed 0
            LogOp.threeChunks >>= fun s =>
          gcAllocChunk s.heap s.arena >>= fun made =>
          SlowgcWorker.pass ⟨made.2.1, made.2.2, made.1⟩ ⟨1024, 2, 5⟩ >>= fun s' =>
          .ok (s, made, s')) = .ok r ∧
        r.2.1.1 = 7168 ∧ reclaimTest (r.2.1.2.1.chunks 1024) = false :=
    exists_eq_ok_and (by decide +kernel)
  obtain ⟨_, reached, ran⟩ := bind_eq_ok.mp ran
  obtain ⟨_, allocated, ran⟩ := bind_eq_ok.mp ran
  obtain ⟨_, returned, ran⟩ := bind_eq_ok.mp ran
  cases ran
  have given := (gcAllocChunk_isGcChunk allocated).1
  obtain ⟨taken, _, never⟩ := slowgc_cursor_never given returned [4096]
  exact ⟨s, h, arena, s', reached, allocated, returned,
    taken.trans (if_neg (by simp [passed])), never⟩

/-- A worker that reclaims the second of three chunks has `NULL` for its GC chunk, and follows
it in the first. If it evacuates the first, it has whatever it takes for the missing value. -/
theorem not_slowgc_cursor :
    ∃ s h arena s' s'',
      logRun (.fresh [chunksize] [1024, 2048, 3072, 4096, 5120, 6144, 7168, 8192])
        .zeroed 0 LogOp.threeChunks = .ok s ∧
      gcAllocChunk s.heap s.arena = .ok (7168, h, arena) ∧ IsGcChunk h arena 7168 ∧
      SlowgcWorker.pass ⟨h, arena, 7168⟩ ⟨4096, 1, 0⟩ = .ok s' ∧ s'.gcChunk = 0 ∧
      s'.pass ⟨1024, 2, 0⟩ = .error .null ∧
      ¬ SlowgcWorker.CursorKept ⟨h, arena, 7168⟩ [4096, 1024] ∧
      SlowgcWorker.pass ⟨h, arena, 7168⟩ ⟨1024, 2, 5⟩ = .ok s'' ∧ s''.gcChunk = 5 ∧
      ¬ SlowgcWorker.CursorKept ⟨h, arena, 7168⟩ [1024] := by
  obtain ⟨⟨s, ⟨gc, h, arena⟩, s', s''⟩, ran, rfl, null, fault, taken, last⟩ :
      ∃ r : ArenaState × (Nat × Heap × Arena) × SlowgcWorker × SlowgcWorker,
        (logRun (.fresh [chunksize] [1024, 2048, 3072, 4096, 5120, 6144, 7168, 8192]) .zeroed 0
            LogOp.threeChunks >>= fun s =>
          gcAllocChunk s.heap s.arena >>= fun made =>
          SlowgcWorker.pass ⟨made.2.1, made.2.2, made.1⟩ ⟨4096, 1, 0⟩ >>= fun s' =>
          SlowgcWorker.pass ⟨made.2.1, made.2.2, made.1⟩ ⟨1024, 2, 5⟩ >>= fun s'' =>
          .ok (s, made, s', s'')) = .ok r ∧
        r.2.1.1 = 7168 ∧ r.2.2.1.gcChunk = 0 ∧
        (match r.2.2.1.pass ⟨1024, 2, 0⟩ with
          | .ok _ => false
          | .error cause => decide (cause = .null)) = true ∧
        r.2.2.2.gcChunk = 5 ∧ lastGcChunk r.2.1.2.1 r.2.2.2.heap 7168 = 7168 :=
    exists_eq_ok_and (by decide +kernel)
  obtain ⟨_, reached, ran⟩ := bind_eq_ok.mp ran
  obtain ⟨_, allocated, ran⟩ := bind_eq_ok.mp ran
  obtain ⟨_, reclaimed, ran⟩ := bind_eq_ok.mp ran
  obtain ⟨_, evacuated, ran⟩ := bind_eq_ok.mp ran
  cases ran
  refine ⟨s, h, arena, s', s'', reached, allocated, (gcAllocChunk_isGcChunk allocated).1, reclaimed,
    null, ?_, ?_, evacuated, taken, ?_⟩
  · cases outcome : s'.pass ⟨1024, 2, 0⟩ with
    | ok next => simp [outcome] at fault
    | error cause => simpa [outcome] using fault
  · intro kept
    have first := kept [⟨4096, 1, 0⟩, ⟨1024, 2, 0⟩] rfl [] _ _ _ s' rfl rfl reclaimed
    exact first.2.nonnull null
  · intro kept
    have first := kept [⟨1024, 2, 5⟩] rfl [] _ _ _ s'' rfl rfl evacuated
    have right : s''.gcChunk = 7168 := first.1.trans last
    rw [taken] at right
    cases right

end Lsmalloc
