import Lsmalloc.Arena.Chunks

/-!
# Runs of one arena

An arena is made by `arena_new`, is given a first log chunk, and then serves
`arena_malloc` requests and frees in any order. The run keeps the blocks it has
returned. As no request ever schedules a collection (`arenaRun_inv`), no
collector runs beside these calls.
-/

namespace Lsmalloc

/-- An arena and its memory. -/
structure ArenaState where
  heap : Heap
  arena : Arena

/-- A block `arena_malloc` returned: `size` bytes at `addr`, in a slab when it is small. -/
structure Payload where
  addr : Nat
  size : Nat
  small : Bool
deriving DecidableEq, Repr

/-- The bytes the user asked for. -/
def Payload.span (p : Payload) : Span := ⟨p.addr, p.size⟩

/-- The `pslab_t` in front of a small block. -/
def Payload.pslab (p : Payload) : Span := ⟨szSub p.addr sizeofPslab, sizeofPslab⟩

/-- An arena at work, with the blocks it has returned. -/
structure ArenaRun extends ArenaState where
  payloads : List Payload

/-- The calls made on an arena. -/
inductive ArenaOp
  /-- `arena_malloc(arena, size, false, ptr)` by the thread `threadid`. -/
  | malloc (size ptr threadid : Nat)
  /-- `arena_dalloc`, as `idalloct` calls it for a block that was returned. -/
  | dalloc (ptr : Nat)
  /-- `arena_dalloc_large` of a region of the chunk. -/
  | dallocLarge (chunk region : Nat)
  /-- `arena_dalloc_small` of the slab of a small block that was returned. -/
  | dallocSmall (ptr : Nat)
deriving DecidableEq, Repr

/-- One call. `imalloct` routes sizes from `1` to `arena_maxlarge` here, and `idalloct`
addresses that are not the base of a chunk. -/
def ArenaRun.step (s : ArenaRun) : ArenaOp → Except Fault ArenaRun
  | .malloc size ptr threadid =>
      if 1 ≤ size ∧ size ≤ arenaMaxlarge then do
        let (ret, heap, arena) ← arenaMalloc s.heap s.arena size ptr threadid
        .ok ⟨⟨heap, arena⟩, ⟨ret, size, decide (size < arenaMaxsmall)⟩ :: s.payloads⟩
      else .error .contract
  | .dalloc ptr =>
      if (∃ p ∈ s.payloads, p.addr = ptr) ∧ chunkAddr2base ptr ≠ ptr then do
        let heap ← arenaDalloc s.heap (chunkAddr2base ptr) ptr
        .ok { s with heap := heap }
      else .error .contract
  | .dallocLarge chunk region =>
      if (s.heap.regions region).chunk = chunk then do
        let heap ← arenaDallocLarge s.heap chunk region
        .ok { s with heap := heap }
      else .error .contract
  | .dallocSmall ptr =>
      if ∃ p ∈ s.payloads, p.addr = ptr ∧ p.small = true then do
        let heap ← arenaDallocSmall s.heap (szSub ptr sizeofPslab)
        .ok { s with heap := heap }
      else .error .contract

/-- `arena_new`, then the first log chunk. -/
def arenaBoot (h : Heap) (arena : Arena) (ind : Nat) : Except Fault ArenaRun := do
  let (h, arena) ← arenaNew h arena ind
  let (_, h, arena) ← arenaChunkAlloc h arena .log
  .ok ⟨⟨h, arena⟩, []⟩

/-- An arena from its making on. -/
def arenaRun (h : Heap) (arena : Arena) (ind : Nat) (ops : List ArenaOp) :
    Except Fault ArenaRun := do
  let s ← arenaBoot h arena ind
  Execution.run ArenaRun.step s ops

/-! ## Inversion -/

/-- A free of any kind frees a region or changes PMEM at most, and returns no block. -/
def ArenaRun.Freed (s s' : ArenaRun) : Prop :=
  s'.arena = s.arena ∧ s'.payloads = s.payloads ∧
    (PmemOnly s.heap s'.heap ∨ ∃ c region, RegionFreed s.heap s'.heap c region)

/-- A step is an `arena_malloc` of an admitted size, or a free. -/
theorem ArenaRun.step_cases {s s' : ArenaRun} {op : ArenaOp} (stepped : s.step op = .ok s') :
    (∃ size ptr threadid ret, op = .malloc size ptr threadid ∧ 1 ≤ size ∧ size ≤ arenaMaxlarge ∧
        arenaMalloc s.heap s.arena size ptr threadid = .ok (ret, s'.heap, s'.arena) ∧
        s'.payloads = ⟨ret, size, decide (size < arenaMaxsmall)⟩ :: s.payloads) ∨
      ((∀ size ptr threadid, op ≠ .malloc size ptr threadid) ∧ s.Freed s') := by
  cases op with
  | malloc size ptr threadid =>
      simp only [ArenaRun.step] at stepped
      split at stepped
      · rename_i admitted
        obtain ⟨⟨ret, heap, arena⟩, allocated, stepped⟩ := Execution.bind_eq_ok.mp stepped
        cases stepped
        exact .inl ⟨size, ptr, threadid, ret, rfl, admitted.1, admitted.2, allocated, rfl⟩
      · cases stepped
  | dalloc ptr =>
      simp only [ArenaRun.step] at stepped
      split at stepped
      · obtain ⟨heap, freed, stepped⟩ := Execution.bind_eq_ok.mp stepped
        cases stepped
        refine .inr ⟨nofun, rfl, rfl, ?_⟩
        rcases arenaDalloc_effect freed with only | ⟨region, effect⟩
        · exact .inl only
        · exact .inr ⟨_, region, effect⟩
      · cases stepped
  | dallocLarge chunk region =>
      simp only [ArenaRun.step] at stepped
      split at stepped
      · obtain ⟨heap, freed, stepped⟩ := Execution.bind_eq_ok.mp stepped
        cases stepped
        exact .inr ⟨nofun, rfl, rfl, .inr ⟨chunk, region, arenaDallocLarge_effect freed⟩⟩
      · cases stepped
  | dallocSmall ptr =>
      simp only [ArenaRun.step] at stepped
      split at stepped
      · obtain ⟨heap, freed, stepped⟩ := Execution.bind_eq_ok.mp stepped
        cases stepped
        exact .inr ⟨nofun, rfl, rfl, .inl (storePmem_pmemOnly freed)⟩
      · cases stepped

/-! ## The chunks along a run -/

theorem ArenaRun.Freed.sameChunks {s s' : ArenaRun} (freed : s.Freed s') :
    SameChunks s.heap s'.heap := by
  obtain ⟨_, _, only | ⟨c, region, effect⟩⟩ := freed
  · exact only.sameChunks
  · exact effect.sameChunks

theorem ArenaRun.Freed.tpool {s s' : ArenaRun} (freed : s.Freed s') :
    s'.heap.tpool = s.heap.tpool := by
  obtain ⟨_, _, only | ⟨c, region, effect⟩⟩ := freed
  · exact only.tpool
  · exact effect.tpool

/-- The queues are in order, and no collection has been scheduled since the start. -/
def ArenaRun.Inv (h₀ : Heap) (s : ArenaRun) : Prop :=
  (∃ logs slabs, ChunksOk h₀.toWorld s.heap s.arena logs slabs) ∧ s.heap.tpool = h₀.tpool

/-- `arena_new` leaves an arena without chunks, on a pool of its own. -/
theorem arenaNew_chunks {h h' : Heap} {arena arena' : Arena} {ind : Nat}
    (made : arenaNew h arena ind = .ok (h', arena')) :
    ChunksOk h.toWorld h' arena' [] [] ∧ h' = { h with toWorld := h'.toWorld } ∧
      h'.blocks = h.blocks ∧ arena'.ind = ind ∧ ∀ cls < classNum, arena'.availSregion cls = 0 := by
  obtain ⟨⟨w, pool⟩, created, made⟩ := Execution.bind_eq_ok.mp made
  simp only [Except.ok.injEq, Prod.mk.injEq] at made
  obtain ⟨rfl, rfl⟩ := made
  obtain ⟨base, grows, ok⟩ := PoolOk.create created
  have clear : Clear h.toWorld w [base] := by
    intro r nonempty mapped
    obtain ⟨still, apart⟩ := grows.keeps r nonempty mapped
    exact ⟨still, by simpa using apart⟩
  refine ⟨⟨⟨⟨_, _, ok, clear⟩, ?_, ?_, by simp⟩, isQl_nil _, isQl_nil _⟩, rfl, grows.blocks, rfl, ?_⟩
  · intro b member
    change b ∈ w.blocks
    rwa [grows.blocks]
  · intro c
    change c ∈ [] ↔ (⟨c, .chunk⟩ : Block) ∈ w.blocks ∧ _
    rw [grows.blocks]
    simp
  · intro cls inside
    simp [inside]

/-- A new arena has one chunk, on `avail_chunks`. -/
theorem arenaBoot_chunks {h : Heap} {arena : Arena} {ind : Nat} {s : ArenaRun}
    (booted : arenaBoot h arena ind = .ok s) :
    ∃ c, ChunksOk h.toWorld s.heap s.arena [c] [] ∧ s.heap.tpool = h.tpool := by
  obtain ⟨⟨h₁, arena₁⟩, made, booted⟩ := Execution.bind_eq_ok.mp booted
  obtain ⟨⟨c, h₂, arena₂⟩, allocated, booted⟩ := Execution.bind_eq_ok.mp booted
  cases booted
  obtain ⟨empty, same, _⟩ := arenaNew_chunks made
  obtain ⟨addr, effect⟩ := arenaChunkAlloc_effect allocated
  have one := empty.allocLog effect
  have tpool : h₁.tpool = h.tpool := by rw [same]
  exact ⟨c, one, (one.tpool effect).trans tpool⟩

theorem arenaBoot_inv {h : Heap} {arena : Arena} {ind : Nat} {s : ArenaRun}
    (booted : arenaBoot h arena ind = .ok s) : s.Inv h := by
  obtain ⟨c, chunks, tpool⟩ := arenaBoot_chunks booted
  exact ⟨⟨[c], [], chunks⟩, tpool⟩

/-- Every call keeps the queues in order and schedules nothing. -/
theorem ArenaRun.step_inv {h₀ : Heap} {s s' : ArenaRun} {op : ArenaOp} (inv : s.Inv h₀)
    (stepped : s.step op = .ok s') : s'.Inv h₀ := by
  obtain ⟨⟨logs, slabs, ok⟩, quiet⟩ := inv
  rcases ArenaRun.step_cases stepped with ⟨size, ptr, threadid, ret, _, _, _, allocated, _⟩ | ⟨_, freed⟩
  · obtain ⟨logs', slabs', kept, _, _, tpool⟩ := ok.arenaMalloc allocated
    exact ⟨⟨logs', slabs', kept⟩, tpool.trans quiet⟩
  · have arena := freed.1
    refine ⟨⟨logs, slabs, ?_⟩, freed.tpool.trans quiet⟩
    rw [arena]
    exact ok.of_same freed.sameChunks rfl rfl rfl

/-- Every state of a run has its queues in order, and the run schedules no collection. -/
theorem arenaRun_inv {h : Heap} {arena : Arena} {ind : Nat} {ops : List ArenaOp} {s : ArenaRun}
    (reached : arenaRun h arena ind ops = .ok s) : s.Inv h := by
  obtain ⟨booted, boot, ran⟩ := Execution.bind_eq_ok.mp reached
  have kept : ∀ (s : ArenaRun) op s', s.Inv h → s.step op = .ok s' → s'.Inv h :=
    fun _ _ _ inv stepped => ArenaRun.step_inv inv stepped
  exact Execution.run_kept kept (arenaBoot_inv boot) ran

end Lsmalloc
