import Lsmalloc.Process.Progress

/-!
# Runs of a process

From the state `malloc_init_hard` leaves, threads call `lsmalloc` for blocks of any size
and `lsfree` for blocks they have. A small request gets through and keeps every arena in
order. A large one makes `arena_region_alloc` read a chunk that is `NULL`, and a huge one
makes `huge_tree_insert` read a root that is `NULL`, so neither ever returns.
-/

namespace Lsmalloc

open Execution (Delivers FailsOnly delivers_ok delivers_error)

/-- A process with the bytes of the blocks that were returned and not freed. -/
structure ProcessRun extends Process where
  live : List Span

/-- The calls a program makes. -/
inductive ProcessOp
  | lsmalloc (thread size ptr node : Nat)
  | lsfree (ptr : Nat)
deriving DecidableEq, Repr

/-- One call. A program frees only blocks it has. -/
def ProcessRun.step (s : ProcessRun) : ProcessOp → Except Fault ProcessRun
  | .lsmalloc thread size ptr node => do
      let (ret, p) ← Lsmalloc.lsmalloc s.toProcess thread size ptr node
      .ok ⟨p, ⟨ret, requestSize size⟩ :: s.live⟩
  | .lsfree ptr =>
      if ∃ b ∈ s.live, b.start = ptr then do
        let p ← Lsmalloc.lsfree s.toProcess ptr
        .ok ⟨p, s.live.eraseP fun b => b.start = ptr⟩
      else .error .contract

/-- `malloc_init_hard`, then the calls in order. -/
def processRun (heap : Heap) (garbage : Nat → Arena) (nprocessors : Int) (ops : List ProcessOp) :
    Except Fault ProcessRun := do
  let p ← mallocInitHard (.loaded heap garbage nprocessors)
  Execution.run ProcessRun.step ⟨p, []⟩ ops

/-- A call that is not `lsmalloc` of `arena_maxsmall` bytes or more. -/
def ProcessOp.Small : ProcessOp → Prop
  | .lsmalloc _ size _ _ => size < arenaMaxsmall
  | .lsfree _ => True

instance : DecidablePred ProcessOp.Small
  | .lsmalloc _ size _ _ => inferInstanceAs (Decidable (size < arenaMaxsmall))
  | .lsfree _ => inferInstanceAs (Decidable True)

/-! ## The invariant -/

/-- An allocator that is initialised, its arenas without log chunks, and no tree of huge blocks. -/
structure Process.Ok (p : Process) : Prop where
  initialized : p.mallocInitialized = true
  hugeTree : p.hugeTree.tree = none
  first : ∃ arena, p.arenas 0 = some arena
  arenas : ∀ ind arena, p.arenas ind = some arena → SlabArena p.heap ind arena
  threads : ∀ thread ind, p.arenasTsd thread = some ind → ∃ arena, p.arenas ind = some arena

/-- The blocks in the chunks of a process stay there. -/
def Process.Keeps (p p' : Process) : Prop := ∀ q, InChunk p.heap q → InChunk p'.heap q

variable {p : Process} {heap : Heap} {arena : Arena} {ind thread size ptr node : Nat}

/-- One arena changes, and the others are kept. -/
theorem Process.Ok.putArena (ok : p.Ok) (slab : SlabArena heap ind arena)
    (others : Others ind p.heap heap) : { p.putArena ind arena with heap := heap }.Ok := by
  -- An index that had an arena still has one.
  have present : ∀ i, (∃ a, p.arenas i = some a) → ∃ a, (p.putArena ind arena).arenas i = some a := by
    rintro i ⟨a, here⟩
    by_cases same : i = ind
    · rw [same]
      exact ⟨arena, p.putArena_self ind arena⟩
    · rw [p.putArena_other arena same]
      exact ⟨a, here⟩
  refine ⟨ok.initialized, ok.hugeTree, present 0 ok.first, ?_, fun t i here =>
    present i (ok.threads t i here)⟩
  intro other a here
  change (p.putArena ind arena).arenas other = some a at here
  by_cases same : other = ind
  · subst same
    rw [p.putArena_self] at here
    cases here
    exact slab
  · rw [p.putArena_other arena same] at here
    exact (ok.arenas other a here).others same others

/-! ## Choosing an arena -/

/-- `arena_new` fails only as the environment makes it fail. -/
theorem arenaNew_failsOnly (h : Heap) (arena : Arena) (ind : Nat) :
    FailsOnly Fault.FromEnvironment (arenaNew h arena ind) :=
  (pmempoolCreateOne_failsOnly _ _).bind fun _ _ => Execution.failsOnly_ok _

/-- `arenas_extend` makes an arena without chunks. -/
theorem arenasExtend_delivers (p : Process) (ind : Nat) :
    Delivers Fault.FromEnvironment
      (fun p' => ∃ heap arena, SlabArena heap ind arena ∧ (∀ other, Others other p.heap heap) ∧
        p' = { p.putArena ind arena with heap := heap }) (arenasExtend p ind) := by
  refine ⟨(arenaNew_failsOnly _ _ _).bind fun _ _ => Execution.failsOnly_ok _, ?_⟩
  intro p' extended
  obtain ⟨⟨heap, arena⟩, made, extended⟩ := Execution.bind_eq_ok.mp extended
  cases extended
  obtain ⟨slab, others⟩ := arenaNew_slabArena made
  exact ⟨heap, arena, slab, others, rfl⟩

/-- What choosing an arena delivers: an arena that exists. -/
def Chosen (p : Process) (r : Nat × Process) : Prop :=
  r.2.Ok ∧ (∃ arena, r.2.arenas r.1 = some arena) ∧ p.Keeps r.2

/-- Giving a thread an arena that exists. -/
theorem Process.Ok.assignArena (ok : p.Ok) (present : ∃ arena, p.arenas ind = some arena) :
    Delivers Fault.FromEnvironment (Chosen p) (assignArena p thread ind) := by
  obtain ⟨arena, here⟩ := present
  rw [Lsmalloc.assignArena, Process.arena_eq_ok here]
  refine delivers_ok ?_
  have slab : SlabArena p.heap ind { arena with nthreads := (arena.nthreads + 1) % 2 ^ 32 } :=
    (ok.arenas ind arena here).of_fields rfl rfl rfl rfl rfl
  obtain ⟨initialized, hugeTree, first, arenas, threads⟩ := ok.putArena slab (.refl _ _)
  have now := p.putArena_self ind { arena with nthreads := (arena.nthreads + 1) % 2 ^ 32 }
  refine ⟨⟨initialized, hugeTree, first, arenas, ?_⟩, ⟨_, now⟩, fun _ inside => inside⟩
  intro t i assigned
  change Function.update p.arenasTsd thread (some ind) t = some i at assigned
  by_cases same : t = thread
  · rw [same, Function.update_self] at assigned
    cases assigned
    exact ⟨_, now⟩
  · rw [Function.update_of_ne same] at assigned
    exact threads t i assigned

/-- The loop of `choose_arena_hard` chooses an arena that exists. -/
theorem chooseRound_foldl (p : Process) (is : List Nat) (found : Nat × Nat)
    (present : ∃ arena, p.arenas found.1 = some arena) :
    ∃ arena, p.arenas (is.foldl (chooseRound p) found).1 = some arena := by
  induction is generalizing found with
  | nil => exact present
  | cons i is ih =>
      refine ih _ ?_
      unfold chooseRound
      cases here : p.arenas i with
      | none =>
          simp only
          split <;> exact present
      | some arena =>
          simp only
          split
          · exact ⟨arena, here⟩
          · exact present

/-- `choose_arena_hard` gives the thread an arena. -/
theorem Process.Ok.chooseArenaHard (ok : p.Ok) :
    Delivers Fault.FromEnvironment (Chosen p) (chooseArenaHard p thread) := by
  unfold Lsmalloc.chooseArenaHard
  split
  · obtain ⟨arena, first⟩ := ok.first
    have chosen := chooseRound_foldl p (List.range' 1 (p.narenasAuto - 1)) (0, p.narenasAuto)
      ⟨arena, first⟩
    rw [first]
    simp only
    split
    · exact ok.assignArena chosen
    · refine (arenasExtend_delivers p _).bind ?_
      rintro p' ⟨heap, arena, slab, others, rfl⟩
      have later := ok.putArena slab (others _)
      refine (later.assignArena ⟨arena, p.putArena_self _ arena⟩).mono (fun _ here => here) ?_
      rintro r ⟨kept, present, keeps⟩
      exact ⟨kept, present, fun q inside => keeps q ((others 0).inChunk inside)⟩
  · exact ok.assignArena ok.first

/-- `choose_arena`. -/
theorem Process.Ok.chooseArena (ok : p.Ok) :
    Delivers Fault.FromEnvironment (Chosen p) (chooseArena p thread) := by
  unfold Lsmalloc.chooseArena
  split
  · rename_i ind assigned
    exact delivers_ok ⟨ok, ok.threads thread ind assigned, fun _ inside => inside⟩
  · exact ok.chooseArenaHard

/-! ## Requests -/

/-- A small request gets through, to a block in a chunk. -/
theorem Process.Ok.threadMalloc_small (ok : p.Ok) (thread ptr : Nat) (nonempty : 1 ≤ size)
    (small : size < arenaMaxsmall) :
    Delivers Fault.FromEnvironment
      (fun r => r.2.Ok ∧ InChunk r.2.heap r.1 ∧ p.Keeps r.2) (threadMalloc p thread size ptr) := by
  refine ok.chooseArena.bind ?_
  rintro ⟨ind, p₁⟩ ⟨ok₁, ⟨arena, here⟩, keeps⟩
  simp only [Process.arena_eq_ok here]
  have slab := ok₁.arenas ind arena here
  have served : Delivers Fault.FromEnvironment
      (fun r : Nat × Heap × Arena => SlabArena r.2.1 ind r.2.2 ∧ Others ind p₁.heap r.2.1 ∧
        InChunk r.2.1 r.1) (arenaMalloc p₁.heap arena size ptr 0) := by
    rw [arenaMalloc, if_pos small]
    refine ⟨slab.arenaMallocSmall_failsOnly small, ?_⟩
    rintro ⟨ret, heap, arena'⟩ allocated
    exact slab.arenaMallocSmall nonempty small allocated
  refine served.bind ?_
  rintro ⟨ret, heap, arena'⟩ ⟨slab', others, inside⟩
  exact delivers_ok ⟨ok₁.putArena slab' others, inside, fun q before =>
    others.inChunk (keeps q before)⟩

/-- The faults of a run that the environment does not end. -/
def Fault.NullOrEnvironment (fault : Fault) : Prop := fault = .null ∨ fault.FromEnvironment

/-- A large request on an arena without log chunks reads a field of `NULL`. -/
theorem SlabArena.arenaRegionAlloc_fails {h : Heap} {threadid : Nat} (slab : SlabArena h ind arena) :
    Delivers Fault.NullOrEnvironment (fun _ => False)
      (arenaRegionAlloc h arena size ptr threadid) := by
  have reserved : Delivers Fault.NullOrEnvironment (fun _ => True) (malloc h.toWorld .region) :=
    ⟨fun fault failed => .inr (malloc_failsOnly _ _ fault failed), fun _ _ => trivial⟩
  refine reserved.bind ?_
  rintro ⟨region, w⟩ _
  have missing : arena.availChunks = 0 := slab.availChunks
  have stopped : regionChunk { h with toWorld := w } arena size = .error .null := by
    unfold regionChunk chunkLacks Heap.getChunk Heap.deref
    rw [missing]
    rfl
  simp only [stopped]
  exact delivers_error (.inl rfl)

/-- A request of `arena_maxsmall` bytes or more never returns. -/
theorem Process.Ok.imalloct_large (ok : p.Ok) (thread ptr node : Nat) (large : ¬ size < arenaMaxsmall) :
    Delivers Fault.NullOrEnvironment (fun _ => False) (imalloct p thread size ptr node) := by
  unfold imalloct
  split
  · refine (ok.chooseArena.mono (fun _ => .inr) fun _ here => here).bind ?_
    rintro ⟨ind, p₁⟩ ⟨ok₁, ⟨arena, here⟩, _⟩
    simp only [Process.arena_eq_ok here]
    have stopped : Delivers Fault.NullOrEnvironment (fun _ : Nat × Heap × Arena => False)
        (arenaMalloc p₁.heap arena size ptr 0) := by
      rw [arenaMalloc, if_neg large]
      exact (ok₁.arenas ind arena here).arenaRegionAlloc_fails
    exact stopped.bind fun _ impossible => impossible.elim
  · have mapped : Delivers Fault.NullOrEnvironment (fun _ => False)
        (hugeMalloc p.heap.toWorld p.hugeTree node size) := by
      refine ⟨.bind (fun fault failed => .inr (pmemMapAligned_failsOnly _ _ _ fault failed)) ?_, ?_⟩
      · rintro ⟨ret, w⟩ _ fault failed
        simp only [hugeTreeInsert, ok.hugeTree] at failed
        cases failed
        exact .inl rfl
      · exact hugeMalloc_ne_ok ok.hugeTree node size
    exact mapped.bind fun _ impossible => impossible.elim

/-! ## Frees -/

/-- The header of the chunk that holds `q` records the descriptor `c`. -/
structure Described (h : Heap) (q c : Nat) : Prop where
  nonnull : chunkAddr2base q ≠ 0
  mapped : Mapped h.maps ⟨chunkAddr2base q, sizeofPchunk⟩
  header : headerWord h (chunkAddr2base q) = c
  isChunk : ⟨c, .chunk⟩ ∈ h.blocks

instance (h : Heap) (q c : Nat) : Decidable (Described h q c) :=
  decidable_of_iff
    (chunkAddr2base q ≠ 0 ∧ Mapped h.maps ⟨chunkAddr2base q, sizeofPchunk⟩ ∧
      headerWord h (chunkAddr2base q) = c ∧ ⟨c, .chunk⟩ ∈ h.blocks)
    ⟨fun ⟨n, m, w, b⟩ => ⟨n, m, w, b⟩, fun d => ⟨d.nonnull, d.mapped, d.header, d.isChunk⟩⟩

/-- A returned block has the descriptor of a slab chunk, and is not the base of its chunk. -/
theorem InChunk.described {h : Heap} {q : Nat} (inside : InChunk h q) :
    ∃ c, Described h q c ∧ chunkAddr2base q ≠ q ∧ (h.chunks c).chunktype = .slab := by
  obtain ⟨base, headed, lower, upper⟩ := inside
  have isBase := headed.isBase
  have word := isBase.word
  have headerBytes : sizeofPchunk = 8 := rfl
  have masked : chunkAddr2base q = base := by
    refine chunkAddr2base_of_within isBase.aligned (by omega) upper ?_
    rw [chunksize_eq] at upper
    omega
  obtain ⟨nonnull, mapped⟩ := headed.mapped_of_within base sizeofPchunk (Nat.le_refl _)
    (Nat.add_le_add_left (by decide) _)
  obtain ⟨isChunk, slab⟩ := headed.header
  exact ⟨headerWord h base, ⟨by rwa [masked], by rwa [masked], by rw [masked], isChunk⟩,
    by omega, slab⟩

/-- The pointer that `idalloct` and the write brackets take for a `chunk_t` is an address in
PMEM, and the descriptor is an object in DRAM. -/
theorem Described.base_ne {h : Heap} {q c other : Nat} (described : Described h q c)
    (isChunk : ⟨other, .chunk⟩ ∈ h.blocks) : chunkAddr2base q ≠ other :=
  described.mapped.ne_block (by decide : 0 < sizeofPchunk) isChunk

/-- **`lsfree` does nothing.** What `idalloct` takes for a `chunk_t` starts with the low
byte of an aligned address, which is neither `CHUNK_TYPE_LOG` nor `CHUNK_TYPE_SLAB`. -/
theorem Described.lsfree_inert {q c : Nat} (described : Described p.heap q c)
    (behind : chunkAddr2base q ≠ q) : lsfree p q = .ok p := by
  have notChunk : (⟨chunkAddr2base q, .chunk⟩ : Block) ∉ p.heap.blocks := fun isChunk =>
    described.base_ne isChunk rfl
  have first : Mapped p.heap.maps ⟨chunkAddr2base q, 1⟩ :=
    described.mapped.mono ⟨Nat.le_refl _, Nat.add_le_add_left (by decide : 1 ≤ sizeofPchunk) _⟩
  have read : p.heap.loadPmem (chunkAddr2base q) 1 =
      .ok (p.heap.pmem.loadWord (chunkAddr2base q) 1) :=
    loadPmem_eq_ok.mpr ⟨⟨described.nonnull, first⟩, rfl⟩
  have byte : p.heap.pmem.loadWord (chunkAddr2base q) 1 % 16 = 0 := by
    have low := p.heap.pmem.first_eq_loadWord_mod (chunkAddr2base q) 7
    have header : p.heap.pmem.loadWord (chunkAddr2base q) 8 = c := described.header
    have aligned : c % 16 = 0 := p.heap.placed.aligned _ described.isChunk
    rw [header] at low
    change ((p.heap.pmem (chunkAddr2base q)).toNat + 256 * 0) % 16 = 0
    omega
  have notLog : p.heap.pmem.loadWord (chunkAddr2base q) 1 ≠ ChunkType.log.char.toNat := by
    intro same
    rw [same] at byte
    exact absurd byte (by decide)
  have notSlab : p.heap.pmem.loadWord (chunkAddr2base q) 1 ≠ ChunkType.slab.char.toNat := by
    intro same
    rw [same] at byte
    exact absurd byte (by decide)
  have kept : arenaDalloc p.heap (chunkAddr2base q) q = .ok p.heap := by
    rw [arenaDalloc, if_neg notChunk, read]
    change (if _ then _ else if _ then _ else Except.ok p.heap) = _
    rw [if_neg notLog, if_neg notSlab]
  have nonnull : q ≠ 0 := by
    rintro rfl
    exact behind (Nat.zero_and _)
  rw [lsfree, if_pos nonnull, idalloct, idalloctChunk, if_pos behind, kept]
  rfl

/-! ## Runs -/

/-- The invariant of a run. -/
def ProcessRun.Inv (s : ProcessRun) : Prop := s.Ok ∧ ∀ b ∈ s.live, InChunk s.heap b.start

theorem requestSize_spec (size : Nat) : 1 ≤ requestSize size ∧
    (requestSize size < arenaMaxsmall ↔ size < arenaMaxsmall) := by
  have smallBytes : arenaMaxsmall = 224 := rfl
  unfold requestSize
  rw [smallBytes]
  split <;> omega

/-- A small call keeps the invariant, and fails only as the environment makes it fail. -/
theorem ProcessRun.Inv.step_small {s : ProcessRun} {op : ProcessOp} (inv : s.Inv)
    (small : op.Small) : Delivers Fault.FromEnvironment ProcessRun.Inv (s.step op) := by
  obtain ⟨ok, live⟩ := inv
  cases op with
  | lsmalloc thread size ptr node =>
      obtain ⟨nonempty, sameSmall⟩ := requestSize_spec size
      have fits : requestSize size ≤ arenaMaxlarge := by
        have bound : arenaMaxsmall ≤ arenaMaxlarge := by decide
        exact (sameSmall.mpr small).le.trans bound
      have initialized : ¬ s.mallocInitialized = false := by rw [ok.initialized]; simp
      have served := ok.threadMalloc_small thread ptr nonempty (sameSmall.mpr small)
      have called : Lsmalloc.lsmalloc s.toProcess thread size ptr node =
          threadMalloc s.toProcess thread (requestSize size) ptr := by
        rw [Lsmalloc.lsmalloc, if_neg initialized]
        change imalloct s.toProcess thread (requestSize size) ptr node = _
        rw [imalloct, if_pos fits]
      change Delivers _ _ (Lsmalloc.lsmalloc s.toProcess thread size ptr node >>= _)
      rw [called]
      refine served.bind ?_
      rintro ⟨ret, p⟩ ⟨ok', inside, keeps⟩
      exact delivers_ok ⟨ok', List.forall_mem_cons.mpr
        ⟨inside, fun b member => keeps b.start (live b member)⟩⟩
  | lsfree ptr =>
      simp only [ProcessRun.step]
      split
      · rename_i outstanding
        obtain ⟨b, member, rfl⟩ := outstanding
        obtain ⟨c, described, behind, _⟩ := (live b member).described
        rw [described.lsfree_inert behind]
        exact delivers_ok ⟨ok, fun b member => live b (List.mem_of_mem_eraseP member)⟩
      · exact delivers_error (.inr rfl)

/-- A call that is not small never returns. -/
theorem ProcessRun.Inv.step_large {s : ProcessRun} {op : ProcessOp} (inv : s.Inv)
    (large : ¬ op.Small) : Delivers Fault.NullOrEnvironment (fun _ => False) (s.step op) := by
  obtain ⟨ok, _⟩ := inv
  cases op with
  | lsmalloc thread size ptr node =>
      have initialized : ¬ s.mallocInitialized = false := by rw [ok.initialized]; simp
      have stopped := ok.imalloct_large thread ptr node fun small =>
        large ((requestSize_spec size).2.mp small)
      change Delivers _ _ (Lsmalloc.lsmalloc s.toProcess thread size ptr node >>= _)
      have called : Lsmalloc.lsmalloc s.toProcess thread size ptr node =
          imalloct s.toProcess thread (requestSize size) ptr node := by
        rw [Lsmalloc.lsmalloc, if_neg initialized]
        rfl
      rw [called]
      exact stopped.bind fun _ impossible => impossible.elim
  | lsfree ptr => exact absurd trivial large

/-- A call that completes keeps the invariant. -/
theorem ProcessRun.Inv.step {s s' : ProcessRun} {op : ProcessOp} (inv : s.Inv)
    (stepped : s.step op = .ok s') : s'.Inv := by
  by_cases small : op.Small
  · exact (inv.step_small small).2 s' stepped
  · exact ((inv.step_large small).2 s' stepped).elim

/-- `malloc_init_hard` leaves one arena, and no tree of huge blocks. -/
theorem mallocInitHard_ok (h : Heap) (garbage : Nat → Arena) (nprocessors : Int) :
    Delivers Fault.FromEnvironment Process.Ok
      (mallocInitHard (.loaded h garbage nprocessors)) := by
  have notYet : ¬ (Process.loaded h garbage nprocessors).mallocInitialized = true := by
    simp [Process.loaded]
  rw [mallocInitHard, if_neg notYet]
  refine (arenasExtend_delivers _ 0).bind ?_
  rintro p ⟨heap, arena, slab, _, rfl⟩
  have first : Function.update (fun _ => none) 0 (some arena) 0 = some arena := Function.update_self ..
  have pool : Process.threadpool { ({ Process.loaded h garbage nprocessors with
      narenasAuto := 1
      arenas := fun _ => none }).putArena 0 arena with heap := heap } = true := rfl
  rw [if_pos pool]
  have unassigned : ∀ thread ind, (fun _ : Nat => (none : Option Nat)) thread = some ind →
      ∃ a, Function.update (fun _ => none) 0 (some arena) ind = some a := by
    intro thread ind here
    cases here
  refine delivers_ok ⟨rfl, rfl, ⟨arena, first⟩, ?_, unassigned⟩
  intro ind a here
  change Function.update (fun _ => none) 0 (some arena) ind = some a at here
  by_cases same : ind = 0
  · subst same
    rw [Function.update_self] at here
    cases here
    exact slab
  · rw [Function.update_of_ne same] at here
    cases here

/-- Every state a run reaches keeps the invariant. -/
theorem processRun_inv {h : Heap} {garbage : Nat → Arena} {nprocessors : Int}
    {ops : List ProcessOp} {s : ProcessRun}
    (reached : processRun h garbage nprocessors ops = .ok s) : s.Inv := by
  obtain ⟨p, started, ran⟩ := Execution.bind_eq_ok.mp reached
  have start : ProcessRun.Inv ⟨p, []⟩ :=
    ⟨(mallocInitHard_ok h garbage nprocessors).2 p started, by simp⟩
  have kept : ∀ (s : ProcessRun) op s', s.Inv → s.step op = .ok s' → s'.Inv :=
    fun _ _ _ inv stepped => inv.step stepped
  exact Execution.run_kept kept start ran

end Lsmalloc
