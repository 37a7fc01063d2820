import Lsmalloc.Process.NoOverlap

/-!
# What a program stores in its blocks

Between its calls a program stores bytes into the blocks it has. Every such store goes through,
as the bytes of an outstanding block are mapped. The calls write in headers of objects they make
and in the `pslab_t` of the block they return, so a block holds what was last stored in it,
whatever the threads call, and its `pslab_t` says that it is not freed.
-/

namespace Lsmalloc

open Span (Tagged)

/-- What a program does: a call, or a store of a byte into one of its blocks. -/
inductive UserOp
  | call (op : ProcessOp)
  | store (addr : Nat) (byte : UInt8)
deriving DecidableEq, Repr

/-- One step of a program. It stores only into blocks it has. -/
def ProcessRun.act (s : ProcessRun) : UserOp → Except Fault ProcessRun
  | .call op => s.step op
  | .store addr byte =>
      if ∃ b ∈ s.live, (Span.mk addr 1).Within b then do
        let heap ← s.heap.storePmem addr 1 byte.toNat
        .ok { s with heap := heap }
      else .error .contract

/-- `malloc_init_hard`, then the steps of the program in order. -/
def userRun (heap : Heap) (garbage : Nat → Arena) (nprocessors : Int) (ops : List UserOp) :
    Except Fault ProcessRun := do
  let p ← mallocInitHard (.loaded heap garbage nprocessors)
  Execution.run ProcessRun.act ⟨p, []⟩ ops

/-- The byte at an address after a step of a program that sees to it alone. -/
def UserOp.byteAfter (addr : Nat) (old : UInt8) : UserOp → UInt8
  | .call _ => old
  | .store x byte => if x = addr then byte else old

/-- The last byte that the steps store at the address, or the one before the steps. -/
def lastStored (addr : Nat) (old : UInt8) (ops : List UserOp) : UInt8 :=
  ops.foldl (UserOp.byteAfter addr) old

variable {w₀ : World} {h h' : Heap} {arenas : Nat → Option Arena} {arena arena' : Arena}
  {payloads : List Payload} {maps out : Nat → List Nat} {cs ss : List Nat}
  {items : List (Tagged Role)} {ind thread size ptr ret a : Nat} {p p' : Process}

/-! ## What a request writes -/

/-- PMEM changed only in headers of new objects and in the `pslab_t` of a block, which says that
the block is not freed. -/
structure WroteHeaders (h h' : Heap) (ret : Nat) : Prop where
  only : ∀ a, h'.pmem a ≠ h.pmem a →
    (∃ o ∈ h'.blocks, o ∉ h.blocks ∧ (Span.mk a 1).Within (h'.header o)) ∨
      (Span.mk a 1).Within ⟨szSub ret sizeofPslab, sizeofPslab⟩
  clean : h'.pmem (szAdd (szSub ret sizeofPslab) 8) = slabClean

/-- A byte that a store changes is in the word stored. -/
theorem within_of_storeWord_ne {memory : Memory} {address width value : Nat}
    (changed : memory.storeWord address width value a ≠ memory a) :
    (Span.mk a 1).Within ⟨address, width⟩ := by
  rw [Span.within_mk]
  by_contra outside
  exact changed (memory.storeWord_outside (by omega))

/-- A byte that writing a `pslab_t` changes is in it. -/
theorem within_of_pslab_ne {memory : Memory} {tail : Nat}
    (changed : ((memory.storeWord tail 8 ptr).storeWord (tail + 8) 1 slabClean.toNat) a ≠ memory a) :
    (Span.mk a 1).Within ⟨tail, sizeofPslab⟩ := by
  have pslab : sizeofPslab = 16 := rfl
  rw [Span.within_mk, pslab]
  by_contra outside
  refine changed ?_
  rw [Memory.storeWord_outside _ (by omega), Memory.storeWord_outside _ (by omega)]

/-- The `pslab_t` of a block that was carved at a tail. -/
theorem pslab_of_tail {tail : Nat} (word : tail + sizeofPslab < 2 ^ 64) :
    szSub (tail + sizeofPslab) sizeofPslab = tail := by
  rw [szSub_of_le word (Nat.le_add_left _ _), Nat.add_sub_cancel]

/-- The attribute that is written in a `pslab_t`. -/
theorem pslab_clean {memory : Memory} {tail : Nat} (word : tail + 8 < 2 ^ 64) :
    ((memory.storeWord tail 8 ptr).storeWord (tail + 8) 1 slabClean.toNat) (szAdd tail 8) =
      slabClean := by
  rw [szAdd_of_lt word, Memory.storeWord_first _ _ 0]
  decide

/-- A new sregion: the header of the chunk if it is new, its own, and its first `pslab_t`. -/
theorem SlabLayout.smallHard_wrote {cls : Nat}
    (layout : SlabLayout w₀ h arenas payloads maps out cs ss items)
    (here : arenas ind = some arena) (small : size ≤ arenaMaxsmall)
    (allocated : arenaMallocSmallHard h arena size ptr cls = .ok (ret, h', arena')) :
    WroteHeaders h h' ret := by
  obtain ⟨sregion, w, c, h₁, arena₁, new, chosen, carved, rfl, rfl⟩ :=
    arenaMallocSmallHard_effect allocated
  obtain ⟨_, _, _, _, layout₁, member, room, _, sameBlocks⟩ :=
    (layout.newSregion new).sregionChunk here chosen
  have bumped := layout₁.laid.bumped c member
  have fits : sregionSize ≤ (h₁.chunks c).availsize := room.fits bumped (by rw [chunksize_eq]; decide)
  obtain ⟨chunks, sregions, pmem, block⟩ := carved.fields bumped fits small
  have ends := bumped.isBase.ends
  have roomEnds := bumped.ends
  have sizes : sizeofPslab = 16 ∧ sregionSize = 1024 ∧ sizeofPsregion = 8 := ⟨rfl, rfl, rfl⟩
  obtain ⟨pslab, sregionBytes, psregion⟩ := sizes
  have word : (h₁.chunks c).tail + 8 + sizeofPslab < 2 ^ 64 := by
    rw [sregionBytes] at fits
    rw [pslab]
    rw [chunksize_eq] at ends roomEnds
    omega
  have isSregion : (⟨sregion, .sregion⟩ : Block) ∈ h'.blocks := by
    rw [carved.world, sameBlocks _ (by simp)]
    change (⟨sregion, .sregion⟩ : Block) ∈ w.blocks
    rw [new.blocks]
    exact List.mem_cons_self
  have isNew : (⟨sregion, .sregion⟩ : Block) ∉ h.blocks := fun old => new.fresh _ old rfl
  have start : szSub ((h₁.chunks c).tail + 24) sizeofPslab = (h₁.chunks c).tail + 8 :=
    pslab_of_tail word
  refine ⟨?_, by rw [block, start, pmem]; exact pslab_clean (by omega)⟩
  intro a changed
  by_cases inPslab : (Span.mk a 1).Within ⟨(h₁.chunks c).tail + 8, sizeofPslab⟩
  · refine .inr ?_
    rwa [block, start]
  have header : h'.pmem a = h₁.pmem.storeWord (h₁.chunks c).tail 8 sregion a := by
    by_contra differs
    rw [pmem] at differs
    exact inPslab (within_of_pslab_ne differs)
  rw [header] at changed
  by_cases inHeader : (Span.mk a 1).Within ⟨(h₁.chunks c).tail, 8⟩
  · refine .inl ⟨⟨sregion, .sregion⟩, isSregion, isNew, ?_⟩
    change (Span.mk a 1).Within ⟨(h'.sregions sregion).paddr, sizeofPsregion⟩
    rwa [sregions, Function.update_self, psregion]
  have before : h₁.pmem a ≠ h.pmem a := by
    intro same
    rw [← same] at changed
    exact inHeader (within_of_storeWord_ne changed)
  rcases sregionChunk_effect chosen with ⟨rfl, _⟩ | ⟨addr, made⟩
  · exact absurd rfl before
  -- The chunk is new, and what changed is its header.
  obtain ⟨blocks, fresh, _⟩ := chunkTaken_objects made.pool
  obtain ⟨garbage, newChunks, _⟩ := made.chunks
  refine .inl ⟨⟨c, .chunk⟩, ?_, ?_, ?_⟩
  · rw [carved.world, blocks]
    exact List.mem_cons_self
  · intro old
    refine fresh ⟨c, .chunk⟩ ?_ rfl
    change (⟨c, .chunk⟩ : Block) ∈ w.blocks
    rw [new.blocks]
    exact List.mem_cons_of_mem _ old
  · rw [made.pmem] at before
    have paddr : (h'.chunks c).paddr = addr := by
      rw [chunks, Function.update_self, newChunks, Function.update_self]
      rfl
    have inChunk := within_of_storeWord_ne before
    simpa only [Heap.header, Chunk.header, paddr] using inChunk

/-- A small request writes in headers of new objects and in the `pslab_t` of its block. -/
theorem SlabLayout.small_wrote (layout : SlabLayout w₀ h arenas payloads maps out cs ss items)
    (here : arenas ind = some arena) (small : size < arenaMaxsmall)
    (allocated : arenaMallocSmall h arena size ptr = .ok (ret, h', arena')) :
    WroteHeaders h h' ret := by
  obtain ⟨isClass, _, bound⟩ := sizeToClass_spec small
  rcases arenaMallocSmall_effect allocated with ⟨rfl, nonnull, carved, rfl, _⟩ | hard
  · have isOpen := layout.opened ind _ here _ isClass nonnull
    obtain ⟨_, _, below, word⟩ := layout.laid.sregions _ isOpen
    obtain ⟨block, _, _, _⟩ := Sregion.sums below word bound
    obtain ⟨_, pmem⟩ := carved.fields below word bound
    have start : szSub ((h.sregions (arena'.availSregion (sizeToClass size))).ptail + 16)
        sizeofPslab = (h.sregions (arena'.availSregion (sizeToClass size))).ptail := by
      refine pslab_of_tail ?_
      have sizes : sizeofPslab = 16 ∧ sregionSize = 1024 := ⟨rfl, rfl⟩
      rw [sizes.1]
      rw [sizes.2] at below word
      rw [chunksize_eq] at word
      omega
    constructor
    · intro a changed
      rw [pmem] at changed
      rw [block, start]
      exact .inr (within_of_pslab_ne changed)
    · rw [block, start, pmem]
      exact pslab_clean (by rw [chunksize_eq] at word; omega)
  · exact layout.smallHard_wrote here bound hard

/-! ## What a call writes -/

/-- Choosing an arena writes nothing to PMEM and makes no object. -/
theorem chooseArena_pmem {i : Nat} (chosen : chooseArena p thread = .ok (i, p')) :
    p'.heap.pmem = p.heap.pmem ∧ p'.heap.blocks = p.heap.blocks := by
  have assigned : ∀ {q q' : Process} {j k : Nat}, assignArena q thread j = .ok (k, q') →
      q'.heap = q.heap := by
    intro q q' j k assigned
    obtain ⟨arena, _, assigned⟩ := Execution.bind_eq_ok.mp assigned
    cases assigned
    rfl
  unfold chooseArena at chosen
  split at chosen
  · cases chosen
    exact ⟨rfl, rfl⟩
  unfold chooseArenaHard at chosen
  split at chosen
  · split at chosen
    · cases chosen
    simp only at chosen
    split at chosen
    · rw [assigned chosen]
      exact ⟨rfl, rfl⟩
    · obtain ⟨p₁, extended, chosen⟩ := Execution.bind_eq_ok.mp chosen
      rw [assigned chosen]
      obtain ⟨⟨heap, arena⟩, made, extended⟩ := Execution.bind_eq_ok.mp extended
      cases extended
      obtain ⟨_, _, sameBlocks, _⟩ := arenaNew_chunks made
      obtain ⟨⟨w, pool⟩, _, made⟩ := Execution.bind_eq_ok.mp made
      cases made
      exact ⟨rfl, sameBlocks⟩
  · rw [assigned chosen]
    exact ⟨rfl, rfl⟩

/-- A small request of any thread. -/
theorem Process.Laid.threadMalloc_wrote {live : List Span} (laid : p.Laid w₀ live)
    (small : size < arenaMaxsmall)
    (served : Lsmalloc.threadMalloc p thread size ptr = .ok (ret, p')) :
    WroteHeaders p.heap p'.heap ret := by
  obtain ⟨⟨ind, p₁⟩, chosen, served⟩ := Execution.bind_eq_ok.mp served
  obtain ⟨arena, read, served⟩ := Execution.bind_eq_ok.mp served
  obtain ⟨⟨ret', heap, arena'⟩, allocated, served⟩ := Execution.bind_eq_ok.mp served
  simp only [Except.ok.injEq, Prod.mk.injEq] at served
  obtain ⟨rfl, rfl⟩ := served
  obtain ⟨samePmem, sameBlocks⟩ := chooseArena_pmem chosen
  obtain ⟨_, _, _, _, _, _, layout, _, _⟩ := laid.chooseArena chosen
  rw [arenaMalloc, if_pos small] at allocated
  obtain ⟨only, clean⟩ := layout.small_wrote (Process.arenas_eq_some read) small allocated
  rw [samePmem, sameBlocks] at only
  exact ⟨only, clean⟩

/-- A call leaves what is apart from the headers and from the `pslab_t` of the block it returns. -/
theorem ProcessRun.step_pmem {s s' : ProcessRun} {op : ProcessOp} {range : Span} (inv : s.Inv)
    (laid : s.toProcess.Laid w₀ s.live) (stepped : s.step op = .ok s')
    (headers : ∀ o ∈ s'.heap.blocks, o ∉ w₀.blocks → range.Apart (s'.heap.header o))
    (pslab : ∀ b, s'.live = b :: s.live → range.Apart ⟨szSub b.start sizeofPslab, sizeofPslab⟩)
    (inside : (Span.mk a 1).Within range) : s'.heap.pmem a = s.heap.pmem a := by
  rcases inv.step_cases stepped with ⟨thread, size, ptr, node, ret, p, rfl, _, small, served, rfl⟩ |
    ⟨ptr, rfl, _, rfl⟩
  · by_contra differs
    have byte : ∀ r : Span, range.Apart r → ¬ (Span.mk a 1).Within r := fun r apart inRange =>
      (apart.mono₂ inside inRange).start_ne Nat.one_pos Nat.one_pos rfl
    have wrote := laid.threadMalloc_wrote small served
    rcases wrote.only a differs with ⟨o, isBlock, isNew, inHeader⟩ | inPslab
    · obtain ⟨_, _, _, _, _, _, layout, _, _⟩ := laid
      exact byte _ (headers o isBlock fun old => isNew (layout.old o old)) inHeader
    · exact byte _ (pslab _ rfl) inPslab
  · rfl

/-- A call leaves the bytes of the blocks that stay outstanding. -/
theorem ProcessRun.step_bytes {s s' : ProcessRun} {op : ProcessOp} {b : Span} (inv : s.Inv)
    (laid : s.toProcess.Laid w₀ s.live) (stepped : s.step op = .ok s') (after : b ∈ s'.live)
    (inside : (Span.mk a 1).Within b) : s'.heap.pmem a = s.heap.pmem a := by
  obtain ⟨_, _, _, _, _, _, layout', all, sub⟩ := ProcessRun.step_laid inv laid stepped
  have noOverlap := layout'.noOverlap all sub
  refine ProcessRun.step_pmem inv laid stepped (noOverlap.headers b after) ?_ inside
  intro new made
  exact noOverlap.pslabs b after new (made ▸ List.mem_cons_self)

/-! ## Stores -/

/-- The state after a store. -/
def ProcessRun.stored (s : ProcessRun) (addr : Nat) (byte : UInt8) : ProcessRun :=
  { s with heap := { s.heap with pmem := Function.update s.heap.pmem addr byte } }

/-- The bytes of an outstanding block are in a chunk, behind its header, and mapped. -/
theorem ProcessRun.block_byte {s : ProcessRun} {b : Span} (inv : s.Inv)
    (laid : s.toProcess.Laid w₀ s.live) (live : b ∈ s.live) (inside : (Span.mk a 1).Within b) :
    ∃ base, IsBase base chunksize ∧ base + sizeofPchunk ≤ a ∧ a + 1 ≤ base + chunksize ∧
      Mapped s.heap.maps ⟨a, 1⟩ := by
  obtain ⟨_, _, _, _, _, _, layout, all, sub⟩ := laid
  obtain ⟨c, _, _, paddr, within, mapped⟩ := (layout.noOverlap all sub).inside b live
  obtain ⟨base, headed, lower, upper⟩ := inv.2 b live
  have word := headed.isBase.word
  have same : chunkAddr2base b.start = base := by
    refine chunkAddr2base_of_within headed.isBase.aligned (by omega) upper ?_
    rw [chunksize_eq] at upper
    omega
  rw [paddr, same] at within mapped
  refine ⟨base, headed.isBase, lower.trans inside.1, ?_, mapped.mono (inside.trans within)⟩
  exact (inside.trans within).2

/-- A store into an outstanding block goes through. -/
theorem ProcessRun.act_store {s : ProcessRun} {b : Span} (inv : s.Inv)
    (laid : s.toProcess.Laid w₀ s.live) (live : b ∈ s.live) (inside : (Span.mk a 1).Within b)
    (byte : UInt8) : s.act (.store a byte) = .ok (s.stored a byte) := by
  obtain ⟨base, _, lower, _, mapped⟩ := ProcessRun.block_byte inv laid live inside
  have nonnull : a ≠ 0 := by
    have header : sizeofPchunk = 8 := rfl
    omega
  have word : s.heap.pmem.storeWord a 1 byte.toNat = Function.update s.heap.pmem a byte := by
    rw [Memory.storeWord, Memory.storeWord, UInt8.ofNat_toNat]
  rw [ProcessRun.act, if_pos ⟨b, live, inside⟩, storePmem_eq_ok.mpr ⟨⟨nonnull, mapped⟩, rfl⟩, word]
  rfl

/-- A store that goes through was into an outstanding block. -/
theorem ProcessRun.act_store_eq_ok {s s' : ProcessRun} {byte : UInt8}
    (stored : s.act (.store a byte) = .ok s') : ∃ b ∈ s.live, (Span.mk a 1).Within b := by
  rw [ProcessRun.act] at stored
  split at stored
  · assumption
  · cases stored

/-- Stores into blocks keep the invariant: they change no header. -/
theorem ProcessRun.Inv.stored {s : ProcessRun} {b : Span} (inv : s.Inv)
    (laid : s.toProcess.Laid w₀ s.live) (live : b ∈ s.live) (inside : (Span.mk a 1).Within b)
    (byte : UInt8) : (s.stored a byte).Inv := by
  obtain ⟨base, isBase, lower, upper, _⟩ := ProcessRun.block_byte inv laid live inside
  have header : ∀ c, IsBase c chunksize →
      headerWord (s.stored a byte).heap c = headerWord s.heap c := by
    intro c isBase'
    refine Memory.loadWord_congr fun x above below => ?_
    refine Function.update_of_ne ?_ byte s.heap.pmem
    rintro rfl
    have aligned := isBase.aligned
    have aligned' := isBase'.aligned
    have header : sizeofPchunk = 8 := rfl
    rw [chunksize_eq] at aligned aligned' upper
    omega
  have kept : HeapKept s.heap (s.stored a byte).heap :=
    ⟨fun _ _ => id, fun _ => id, fun c isBase' here => by rwa [NamesSlab, header c isBase']⟩
  have all : ∀ ind, Others ind s.heap (s.stored a byte).heap := fun _ =>
    ⟨kept, fun _ _ _ => ⟨rfl, rfl, rfl⟩, fun _ opened => kept.openSregion opened rfl⟩
  obtain ⟨⟨initialized, hugeTree, first, arenas, threads⟩, blocks⟩ := inv
  exact ⟨⟨initialized, hugeTree, first, fun ind arena here => (arenas ind arena here).of_all all,
    threads⟩, fun b member => (all 0).inChunk (blocks b member)⟩

/-- Stores change nothing that the layout speaks of. -/
theorem ProcessRun.stored_laid {s : ProcessRun} (laid : s.toProcess.Laid w₀ s.live) (byte : UInt8) :
    (s.stored a byte).toProcess.Laid w₀ (s.stored a byte).live := by
  obtain ⟨payloads, maps, out, cs, ss, items, layout, all, sub⟩ := laid
  refine ⟨payloads, maps, out, cs, ss, items, ?_, all, sub⟩
  exact ⟨layout.pools, layout.laid.congr (fun _ _ => ⟨rfl, rfl, rfl⟩) (fun _ _ => rfl) fun _ _ => rfl,
    layout.taken, layout.isChunk, layout.regions, layout.isSregion, layout.old, layout.before,
    layout.slabs, layout.opened, layout.returned⟩

/-- What a step of a program does: a call, or a store into a block it has. -/
theorem ProcessRun.Inv.act_cases {s s' : ProcessRun} {op : UserOp} (inv : s.Inv)
    (laid : s.toProcess.Laid w₀ s.live) (acted : s.act op = .ok s') :
    (∃ call, op = .call call ∧ s.step call = .ok s') ∨
      ∃ addr byte, op = .store addr byte ∧ (∃ b ∈ s.live, (Span.mk addr 1).Within b) ∧
        s' = s.stored addr byte := by
  cases op with
  | call call => exact .inl ⟨call, rfl, acted⟩
  | store addr byte =>
      obtain ⟨b, live, inside⟩ := ProcessRun.act_store_eq_ok acted
      rw [ProcessRun.act_store inv laid live inside byte] at acted
      exact .inr ⟨addr, byte, rfl, ⟨b, live, inside⟩, (Except.ok.inj acted).symm⟩

/-! ## Runs -/

/-- What every state of a run keeps. -/
def ProcessRun.Kept (w₀ : World) (s : ProcessRun) : Prop := s.Inv ∧ s.toProcess.Laid w₀ s.live

theorem ProcessRun.Kept.step {s s' : ProcessRun} {op : ProcessOp} (kept : s.Kept w₀)
    (stepped : s.step op = .ok s') : s'.Kept w₀ :=
  ⟨kept.1.step stepped, ProcessRun.step_laid kept.1 kept.2 stepped⟩

theorem ProcessRun.Kept.act {s s' : ProcessRun} {op : UserOp} (kept : s.Kept w₀)
    (acted : s.act op = .ok s') : s'.Kept w₀ := by
  obtain ⟨inv, laid⟩ := kept
  rcases inv.act_cases laid acted with ⟨call, rfl, stepped⟩ | ⟨addr, byte, rfl, ⟨b, live, inside⟩, rfl⟩
  · exact ProcessRun.Kept.step ⟨inv, laid⟩ stepped
  · exact ⟨inv.stored laid live inside byte, ProcessRun.stored_laid laid byte⟩

theorem ProcessRun.Kept.run {s s' : ProcessRun} {ops : List UserOp} (kept : s.Kept w₀)
    (ran : Execution.run ProcessRun.act s ops = .ok s') : s'.Kept w₀ := by
  have step : ∀ (s : ProcessRun) op s', s.Kept w₀ → s.act op = .ok s' → s'.Kept w₀ :=
    fun _ _ _ kept acted => kept.act acted
  exact Execution.run_kept step kept ran

theorem ProcessRun.Kept.start {garbage : Nat → Arena} {nprocessors : Int}
    (started : mallocInitHard (.loaded h garbage nprocessors) = .ok p) :
    ProcessRun.Kept h.toWorld ⟨p, []⟩ :=
  ⟨⟨(mallocInitHard_ok h garbage nprocessors).2 p started, by simp⟩, mallocInitHard_laid started⟩

/-- Every state that a program reaches is in order. -/
theorem userRun_kept {garbage : Nat → Arena} {nprocessors : Int} {ops : List UserOp}
    {s : ProcessRun} (reached : userRun h garbage nprocessors ops = .ok s) : s.Kept h.toWorld := by
  obtain ⟨p, started, ran⟩ := Execution.bind_eq_ok.mp reached
  exact (ProcessRun.Kept.start started).run ran

/-- A block that is not freed in a step stays, with the bytes that the step stores in it. -/
theorem ProcessRun.Kept.act_byte {s s' : ProcessRun} {op : UserOp} {b : Span} (kept : s.Kept w₀)
    (acted : s.act op = .ok s') (live : b ∈ s.live) (notFreed : op ≠ .call (.lsfree b.start)) :
    b ∈ s'.live ∧ ∀ a, (Span.mk a 1).Within b → s'.heap.pmem a = op.byteAfter a (s.heap.pmem a) := by
  obtain ⟨inv, laid⟩ := kept
  rcases inv.act_cases laid acted with ⟨call, rfl, stepped⟩ | ⟨addr, byte, rfl, _, rfl⟩
  · have after : b ∈ s'.live := by
      rcases inv.step_cases stepped with ⟨_, _, _, _, _, _, rfl, _, _, _, rfl⟩ | ⟨ptr, rfl, _, rfl⟩
      · exact List.mem_cons_of_mem _ live
      · have other : b.start ≠ ptr := by
          rintro rfl
          exact notFreed rfl
        exact (List.mem_eraseP_of_neg (by simpa using other)).mpr live
    exact ⟨after, fun a inside => ProcessRun.step_bytes inv laid stepped after inside⟩
  · refine ⟨live, fun a _ => ?_⟩
    change Function.update s.heap.pmem addr byte a = if addr = a then byte else s.heap.pmem a
    by_cases same : addr = a
    · rw [same, Function.update_self, if_pos rfl]
    · rw [Function.update_of_ne (Ne.symm same), if_neg same]

/-- A block that is not freed in a run holds at its end what the run last stored in it. -/
theorem ProcessRun.Kept.run_bytes {s s' : ProcessRun} {ops : List UserOp} {b : Span}
    (kept : s.Kept w₀) (ran : Execution.run ProcessRun.act s ops = .ok s') (live : b ∈ s.live)
    (notFreed : UserOp.call (.lsfree b.start) ∉ ops) :
    b ∈ s'.live ∧
      ∀ a, (Span.mk a 1).Within b → s'.heap.pmem a = lastStored a (s.heap.pmem a) ops := by
  induction ops generalizing s with
  | nil =>
      cases ran
      exact ⟨live, fun _ _ => rfl⟩
  | cons op ops ih =>
      obtain ⟨s₁, acted, ran⟩ := Execution.run_cons_eq_ok.mp ran
      rw [List.mem_cons, not_or] at notFreed
      obtain ⟨live₁, bytes⟩ := kept.act_byte acted live (Ne.symm notFreed.1)
      obtain ⟨live', later⟩ := ih (kept.act acted) ran live₁ notFreed.2
      refine ⟨live', fun a inside => ?_⟩
      rw [later a inside, bytes a inside]
      rfl

/-- **Blocks hold what is stored in them.** Whatever the threads of a program call, each byte of a
block that is not freed meanwhile is the one last stored there, or the one there was, and the
program can store into every byte of every outstanding block. -/
theorem userRun_holds {garbage : Nat → Arena} {nprocessors : Int} {ops later : List UserOp}
    {s s' : ProcessRun} {b : Span} (reached : userRun h garbage nprocessors ops = .ok s)
    (ran : Execution.run ProcessRun.act s later = .ok s') (live : b ∈ s.live)
    (notFreed : UserOp.call (.lsfree b.start) ∉ later) :
    b ∈ s'.live ∧
      (∀ a, (Span.mk a 1).Within b → s'.heap.pmem a = lastStored a (s.heap.pmem a) later) ∧
      ∀ a, (Span.mk a 1).Within b → ∀ byte, s'.act (.store a byte) = .ok (s'.stored a byte) := by
  have kept := userRun_kept reached
  obtain ⟨live', bytes⟩ := kept.run_bytes ran live notFreed
  have kept' := kept.run ran
  exact ⟨live', bytes, fun a inside byte =>
    ProcessRun.act_store kept'.1 kept'.2 live' inside byte⟩

/-- A byte stored in the block of one thread, while another thread makes an arena of its own. -/
theorem userRun_holds_of_twoThreads :
    ∃ s s', userRun (.fresh [chunksize, 2 ^ 30] [1024, 2048, 4096, 8192]) (fun _ => .zeroed) 2
        [.call (.lsmalloc 0 100 0 0), .store 4194340 7] = .ok s ∧
      Execution.run ProcessRun.act s [.call (.lsmalloc 1 100 0 0), .store 4194340 9,
        .call (.lsmalloc 0 100 0 0)] = .ok s' ∧
      s'.heap.pmem 4194340 = 9 := by
  obtain ⟨s, reached, live⟩ : ∃ s, userRun (.fresh [chunksize, 2 ^ 30] [1024, 2048, 4096, 8192])
      (fun _ => .zeroed) 2 [.call (.lsmalloc 0 100 0 0), .store 4194340 7] = .ok s ∧
        ⟨4194336, 100⟩ ∈ s.live := Execution.exists_eq_ok_and (by decide +kernel)
  obtain ⟨t, whole⟩ : ∃ t, userRun (.fresh [chunksize, 2 ^ 30] [1024, 2048, 4096, 8192])
      (fun _ => .zeroed) 2 ([.call (.lsmalloc 0 100 0 0), .store 4194340 7] ++
        [.call (.lsmalloc 1 100 0 0), .store 4194340 9, .call (.lsmalloc 0 100 0 0)]) = .ok t :=
    Execution.exists_eq_ok (by decide +kernel)
  obtain ⟨p, started, ran⟩ := Execution.bind_eq_ok.mp whole
  obtain ⟨p', started', ran'⟩ := Execution.bind_eq_ok.mp reached
  rw [started] at started'
  cases started'
  obtain ⟨s', first, later⟩ := Execution.run_append_eq_ok.mp ran
  rw [ran'] at first
  cases first
  exact ⟨s, t, reached, later,
    (userRun_holds reached later live (by decide)).2.1 4194340 (by decide)⟩

/-! ## What says that a block is not freed -/

/-- Two outstanding blocks have a `pslab_t` each. -/
theorem SlabLayout.pslabs_apart {s : ProcessRun} {b b' : Span}
    (layout : SlabLayout w₀ s.heap s.arenas payloads maps out cs ss items)
    (live : s.live.Sublist (payloads.map Payload.span)) (member : b ∈ s.live)
    (member' : b' ∈ s.live) (apart : b.Apart b') :
    Span.Apart ⟨szSub b.start sizeofPslab, sizeofPslab⟩ ⟨szSub b'.start sizeofPslab, sizeofPslab⟩ := by
  obtain ⟨p, isPayload, rfl⟩ := List.mem_map.mp (live.subset member)
  obtain ⟨q, isPayload', rfl⟩ := List.mem_map.mp (live.subset member')
  have laid := layout.laid
  have word : ∀ r ∈ payloads, r.addr < 2 ^ 64 := by
    intro r isPayload
    have isItem := laid.returned.subset (List.mem_map_of_mem isPayload)
    obtain ⟨c, inCs, within⟩ := laid.inside _ isItem
    have ends := (laid.bumped c inCs).isBase.ends
    have positive := (layout.returned r isPayload).1
    change (Span.mk r.addr r.size).Within (chunkSpan _) at within
    rw [chunkSpan, Span.within_mk] at within
    omega
  obtain ⟨positive, small⟩ := layout.returned p isPayload
  obtain ⟨positive', small'⟩ := layout.returned q isPayload'
  have starts : p.addr ≠ q.addr := apart.start_ne positive positive'
  have other : (⟨.pslab, p.pslab⟩ : Tagged Role) ≠ ⟨.pslab, q.pslab⟩ := by
    intro same
    refine starts ?_
    have first := congrArg Span.start (Tagged.mk.inj same).2
    have word₁ := word p isPayload
    have word₂ := word q isPayload'
    simp only [Payload.pslab, szSub] at first
    omega
  have separate := Span.apart_of_mem laid.apart (laid.pslabs p isPayload small)
    (laid.pslabs q isPayload' small') other
  exact separate

/-- The `pslab_t` of an outstanding block is apart from the headers. -/
theorem SlabLayout.pslab_header {s : ProcessRun} {b : Span} {o : Block}
    (layout : SlabLayout w₀ s.heap s.arenas payloads maps out cs ss items)
    (all : AllSregions w₀ s.heap ss) (live : s.live.Sublist (payloads.map Payload.span))
    (member : b ∈ s.live) (isBlock : o ∈ s.heap.blocks) (isNew : o ∉ w₀.blocks) :
    Span.Apart ⟨szSub b.start sizeofPslab, sizeofPslab⟩ (s.heap.header o) := by
  obtain ⟨p, isPayload, rfl⟩ := List.mem_map.mp (live.subset member)
  obtain ⟨i, isItem, _, notPslab, header⟩ := layout.header_item all isBlock isNew
  rw [← header]
  have separate := Span.apart_of_mem layout.laid.apart
    (layout.laid.pslabs p isPayload (layout.returned p isPayload).2) isItem
    (by rintro rfl; exact notPslab rfl)
  exact separate

/-- A call writes in no `pslab_t` of a block that stays outstanding. -/
theorem ProcessRun.step_pslab {s s' : ProcessRun} {op : ProcessOp} {b : Span} (inv : s.Inv)
    (laid : s.toProcess.Laid w₀ s.live) (stepped : s.step op = .ok s') (before : b ∈ s.live)
    (after : b ∈ s'.live)
    (inside : (Span.mk a 1).Within ⟨szSub b.start sizeofPslab, sizeofPslab⟩) :
    s'.heap.pmem a = s.heap.pmem a := by
  obtain ⟨_, _, _, _, _, _, layout', all, sub⟩ := ProcessRun.step_laid inv laid stepped
  have headers := fun o => layout'.pslab_header (o := o) all sub after
  refine ProcessRun.step_pmem inv laid stepped headers ?_ inside
  intro new made
  have apart := (layout'.noOverlap all sub).apart
  rw [made] at apart
  exact layout'.pslabs_apart sub after (made ▸ List.mem_cons_self)
    ((List.pairwise_cons.mp apart).1 b before).symm

/-- The `pslab_t` of every outstanding block says that it is not freed. -/
def ProcessRun.Clean (s : ProcessRun) : Prop :=
  ∀ b ∈ s.live, s.heap.pmem (szAdd (szSub b.start sizeofPslab) 8) = slabClean

/-- The attribute is in the `pslab_t`. -/
theorem SlabLayout.attr_within {s : ProcessRun} {b : Span}
    (layout : SlabLayout w₀ s.heap s.arenas payloads maps out cs ss items)
    (live : s.live.Sublist (payloads.map Payload.span)) (member : b ∈ s.live) :
    (Span.mk (szAdd (szSub b.start sizeofPslab) 8) 1).Within
      ⟨szSub b.start sizeofPslab, sizeofPslab⟩ := by
  obtain ⟨p, isPayload, rfl⟩ := List.mem_map.mp (live.subset member)
  have laid := layout.laid
  obtain ⟨c, inCs, within⟩ :=
    laid.inside _ (laid.pslabs p isPayload (layout.returned p isPayload).2)
  have ends := (laid.bumped c inCs).isBase.ends
  have pslab : sizeofPslab = 16 := rfl
  change (Span.mk (szSub p.addr sizeofPslab) sizeofPslab).Within (chunkSpan _) at within
  rw [chunkSpan, Span.within_mk, pslab] at within
  change (Span.mk (szAdd (szSub p.addr sizeofPslab) 8) 1).Within ⟨szSub p.addr sizeofPslab, _⟩
  rw [pslab, szAdd_of_lt (by omega), Span.within_mk]
  omega

theorem ProcessRun.step_clean {s s' : ProcessRun} {op : ProcessOp} (inv : s.Inv)
    (laid : s.toProcess.Laid w₀ s.live) (clean : s.Clean) (stepped : s.step op = .ok s') :
    s'.Clean := by
  have later := ProcessRun.step_laid inv laid stepped
  have kept : ∀ b ∈ s.live, b ∈ s'.live →
      s'.heap.pmem (szAdd (szSub b.start sizeofPslab) 8) = slabClean := by
    intro b before after
    obtain ⟨_, _, _, _, _, _, layout', _, sub⟩ := later
    rw [ProcessRun.step_pslab inv laid stepped before after (layout'.attr_within sub after)]
    exact clean b before
  rcases inv.step_cases stepped with ⟨thread, size, ptr, node, ret, p, rfl, _, small, served, rfl⟩ |
    ⟨ptr, rfl, _, rfl⟩
  · refine List.forall_mem_cons.mpr ⟨(laid.threadMalloc_wrote small served).clean, ?_⟩
    exact fun b before => kept b before (List.mem_cons_of_mem _ before)
  · exact fun b after => kept b (List.mem_of_mem_eraseP after) after

/-- The blocks of a run are not freed in their bookkeeping, whatever was freed. -/
theorem processRun_clean {garbage : Nat → Arena} {nprocessors : Int} {ops : List ProcessOp}
    {s : ProcessRun} (reached : processRun h garbage nprocessors ops = .ok s) : s.Clean := by
  obtain ⟨p, started, ran⟩ := Execution.bind_eq_ok.mp reached
  have start : ProcessRun.Clean ⟨p, []⟩ := by simp [ProcessRun.Clean]
  have kept : ∀ (s : ProcessRun) op s', s.Kept h.toWorld ∧ s.Clean → s.step op = .ok s' →
      s'.Kept h.toWorld ∧ s'.Clean := by
    rintro s op s' ⟨kept, clean⟩ stepped
    exact ⟨kept.step stepped, ProcessRun.step_clean kept.1 kept.2 clean stepped⟩
  exact (Execution.run_kept kept ⟨ProcessRun.Kept.start started, start⟩ ran).2

end Lsmalloc
