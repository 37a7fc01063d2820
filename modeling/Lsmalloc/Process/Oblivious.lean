import Lsmalloc.Process.Stores
import Lsmalloc.Support.Simulation

/-!
# The calls do not see what a program stores

`arena.c` writes to PMEM and never reads what it wrote, and `arena_dalloc` reads a byte of a chunk
header, which no block has. So a run whose program stores into its blocks is a run without the
stores: its calls return the same blocks, or end with the same fault.
-/

namespace Lsmalloc

open Execution (Follows)

/-- The heaps are the same, apart from the bytes at some addresses. -/
def Heap.SameBut (stored : Nat → Prop) (h k : Heap) : Prop :=
  ∃ pmem : Memory, k = { h with pmem := pmem } ∧ ∀ a, ¬ stored a → h.pmem a = pmem a

/-- So are the processes. -/
def Process.SameBut (stored : Nat → Prop) (p q : Process) : Prop :=
  ∃ heap, q = { p with heap := heap } ∧ p.heap.SameBut stored heap

/-- So are the processes, and the same blocks are outstanding. -/
structure ProcessRun.SameBut (stored : Nat → Prop) (s t : ProcessRun) : Prop where
  live : s.live = t.live
  process : s.toProcess.SameBut stored t.toProcess

/-- The calls among the steps of a program. -/
def UserOp.calls : UserOp → List ProcessOp
  | .call op => [op]
  | .store _ _ => []

/-- The program stores into blocks it has. -/
def ProcessRun.Has (s : ProcessRun) : UserOp → Prop
  | .call _ => True
  | .store addr _ => ∃ b ∈ s.live, (Span.mk addr 1).Within b

instance (s : ProcessRun) : DecidablePred s.Has
  | .call _ => inferInstanceAs (Decidable True)
  | .store addr _ => inferInstanceAs (Decidable (∃ b ∈ s.live, (Span.mk addr 1).Within b))

variable {stored : Nat → Prop} {h k : Heap} {s t : ProcessRun} {p q : Process}

/-! ## What the arena does on two heaps -/

/-- The results of an operation of the arena on two heaps. -/
def SameResult {α β : Type} (stored : Nat → Prop) (r r' : α × Heap × β) : Prop :=
  r.1 = r'.1 ∧ r.2.1.SameBut stored r'.2.1 ∧ r.2.2 = r'.2.2

section Arena

variable {arena : Arena} {c size ptr threadid cls sregion : Nat} {chunktype : ChunkType}

theorem Heap.SameBut.storePmem (same : h.SameBut stored k) (a width value : Nat) :
    Follows (Heap.SameBut stored) (h.storePmem a width value) (k.storePmem a width value) := by
  obtain ⟨pmem, rfl, agree⟩ := same
  refine Follows.bind (.refl (h.derefPmem a width)) ?_
  rintro _ _ rfl
  exact .ok ⟨_, rfl, fun x elsewhere => Memory.storeWord_congr (agree x elsewhere) a width value⟩

theorem Heap.SameBut.getChunk (same : h.SameBut stored k) (c : Nat) :
    Follows Eq (h.getChunk c) (k.getChunk c) := by
  obtain ⟨pmem, rfl, _⟩ := same
  exact .refl _

/-- Following pointers in DRAM does not depend on PMEM. -/
theorem Heap.SameBut.derefAll (same : h.SameBut stored k) (object : Object) (ps : List Nat) :
    Follows Eq (h.derefAll object ps) (k.derefAll object ps) := by
  obtain ⟨pmem, rfl, _⟩ := same
  induction ps with
  | nil => exact .ok rfl
  | cons a ps ih =>
      refine Follows.bind (.refl (h.deref object a)) ?_
      exact fun _ _ _ => ih

theorem Heap.SameBut.availHeadInsert (same : h.SameBut stored k) (first elm : Nat) :
    Follows (fun r r' : Nat × Heap => r.1 = r'.1 ∧ r.2.SameBut stored r'.2)
      (h.availHeadInsert first elm) (k.availHeadInsert first elm) := by
  obtain ⟨pmem, rfl, agree⟩ := same
  refine Follows.bind (Heap.SameBut.derefAll (?_ : Heap.SameBut stored _ _) _ _) ?_
  · exact ⟨pmem, rfl, agree⟩
  · exact fun _ _ _ => .ok ⟨rfl, pmem, rfl, agree⟩

theorem Heap.SameBut.regionsTailInsert (same : h.SameBut stored k) (first elm : Nat) :
    Follows (fun r r' : Nat × Heap => r.1 = r'.1 ∧ r.2.SameBut stored r'.2)
      (h.regionsTailInsert first elm) (k.regionsTailInsert first elm) := by
  obtain ⟨pmem, rfl, agree⟩ := same
  refine Follows.bind (Heap.SameBut.derefAll (?_ : Heap.SameBut stored _ _) _ _) ?_
  · exact ⟨pmem, rfl, agree⟩
  · exact fun _ _ _ => .ok ⟨rfl, pmem, rfl, agree⟩

/-- A new chunk heads its queue. -/
theorem Heap.SameBut.chunkList (same : h.SameBut stored k) (arena : Arena) (chunktype : ChunkType)
    (c : Nat) : Follows (fun r r' : Heap × Arena => r.1.SameBut stored r'.1 ∧ r.2 = r'.2)
      (chunkList h arena chunktype c) (chunkList k arena chunktype c) := by
  obtain ⟨pmem, rfl, agree⟩ := same
  cases chunktype
  all_goals
    refine Follows.bind (Heap.SameBut.availHeadInsert (?_ : Heap.SameBut stored _ _) _ _) ?_
    · exact ⟨pmem, rfl, agree⟩
    · rintro ⟨_, h'⟩ ⟨_, k'⟩ ⟨rfl, same⟩
      exact .ok ⟨same, rfl⟩

/-- The headers of new chunks are written alike. -/
theorem Heap.SameBut.arenaChunkAlloc (same : h.SameBut stored k) (arena : Arena)
    (chunktype : ChunkType) :
    Follows (SameResult stored) (arenaChunkAlloc h arena chunktype)
      (arenaChunkAlloc k arena chunktype) := by
  have created : Follows (SameResult stored) (chunkCreate h arena chunktype true)
      (chunkCreate k arena chunktype true) := by
    obtain ⟨pmem, rfl, agree⟩ := same
    refine Follows.bind (.refl (pmempoolChunkAlloc h.toWorld arena.pool)) ?_
    rintro ⟨addr, w, pool⟩ _ rfl
    refine Follows.bind (.refl (malloc w .chunk)) ?_
    rintro ⟨chunk, w⟩ _ rfl
    refine Follows.bind (Heap.SameBut.storePmem (?_ : Heap.SameBut stored _ _) _ _ _) ?_
    · exact ⟨pmem, rfl, agree⟩
    · exact fun _ _ same => .ok ⟨rfl, same, rfl⟩
  refine created.bind ?_
  rintro ⟨chunk, h, arena⟩ ⟨_, k, _⟩ ⟨rfl, same, rfl⟩
  refine (same.chunkList arena chunktype chunk).bind ?_
  rintro ⟨h, arena⟩ ⟨k, _⟩ ⟨⟨pmem, rfl, agree⟩, rfl⟩
  exact .ok ⟨rfl, ⟨pmem, rfl, agree⟩, rfl⟩

theorem Heap.SameBut.chunkLacks (same : h.SameBut stored k) (c size : Nat) (chunktype : ChunkType) :
    Follows Eq (chunkLacks h c size chunktype) (chunkLacks k c size chunktype) := by
  obtain ⟨pmem, rfl, _⟩ := same
  exact .refl _

/-- A large request, of which only the header of the region is in PMEM. -/
theorem Heap.SameBut.arenaRegionAlloc (same : h.SameBut stored k) (arena : Arena)
    (size ptr threadid : Nat) :
    Follows (SameResult stored) (arenaRegionAlloc h arena size ptr threadid)
      (arenaRegionAlloc k arena size ptr threadid) := by
  obtain ⟨pmem, rfl, agree⟩ := same
  refine Follows.bind (.refl (malloc h.toWorld .region)) ?_
  rintro ⟨region, w⟩ _ rfl
  have chosen : Follows (SameResult stored) (regionChunk { h with toWorld := w } arena size)
      (regionChunk { { h with pmem := pmem } with toWorld := w } arena size) := by
    have same : Heap.SameBut stored { h with toWorld := w } { { h with pmem := pmem } with toWorld := w } :=
      ⟨pmem, rfl, agree⟩
    refine (same.chunkLacks arena.availChunks size .log).bind ?_
    rintro lacks _ rfl
    split
    · refine (same.getChunk arena.availChunks).bind ?_
      rintro c _ rfl
      refine Heap.SameBut.arenaChunkAlloc ?_ arena .log
      exact ⟨pmem, rfl, agree⟩
    · exact .ok ⟨rfl, same, rfl⟩
  refine chosen.bind ?_
  rintro ⟨c, h, arena⟩ ⟨_, k, _⟩ ⟨rfl, same, rfl⟩
  have placed : Follows (fun r r' : Nat × Heap => r.1 = r'.1 ∧ r.2.SameBut stored r'.2)
      (placeRegion h c region size ptr threadid) (placeRegion k c region size ptr threadid) := by
    have appended : Follows (fun r r' : Nat × Heap => r.1 = r'.1 ∧ r.2.SameBut stored r'.2)
        (pmemAppendRegion h c size) (pmemAppendRegion k c size) := by
      obtain ⟨pmem, rfl, agree⟩ := same
      refine Follows.bind (.refl (h.getChunk c)) ?_
      rintro chunk _ rfl
      exact .ok ⟨rfl, pmem, rfl, agree⟩
    refine appended.bind ?_
    rintro ⟨paddr, h⟩ ⟨_, k⟩ ⟨rfl, same⟩
    refine (same.storePmem _ _ _).bind ?_
    rintro h _ ⟨pmem, rfl, agree⟩
    refine Follows.bind (.refl ((h.putRegion region _).getChunk c)) ?_
    rintro chunk _ rfl
    refine Follows.bind (Heap.SameBut.regionsTailInsert (?_ : Heap.SameBut stored _ _) _ _) ?_
    · exact ⟨pmem, rfl, agree⟩
    · rintro ⟨first, h⟩ ⟨_, _⟩ ⟨rfl, pmem, rfl, agree⟩
      exact .ok ⟨rfl, pmem, rfl, agree⟩
  refine placed.bind ?_
  rintro ⟨paddr, h⟩ ⟨_, k⟩ ⟨rfl, same⟩
  exact .ok ⟨rfl, same, rfl⟩

/-- A `pslab_t` is written alike. -/
theorem Heap.SameBut.pslabInit (same : h.SameBut stored k) (tail ptr : Nat) :
    Follows (Heap.SameBut stored) (pslabInit h tail ptr) (pslabInit k tail ptr) :=
  (same.storePmem _ _ _).bind fun _ _ same => same.storePmem _ _ _

/-- A new sregion. -/
theorem Heap.SameBut.arenaMallocSmallHard (same : h.SameBut stored k) (arena : Arena)
    (size ptr cls : Nat) :
    Follows (SameResult stored) (arenaMallocSmallHard h arena size ptr cls)
      (arenaMallocSmallHard k arena size ptr cls) := by
  obtain ⟨pmem, rfl, agree⟩ := same
  refine Follows.bind (.refl (malloc h.toWorld .sregion)) ?_
  rintro ⟨sregion, w⟩ _ rfl
  have chosen : Follows (SameResult stored) (sregionChunk { h with toWorld := w } arena)
      (sregionChunk { { h with pmem := pmem } with toWorld := w } arena) := by
    have same : Heap.SameBut stored { h with toWorld := w } { { h with pmem := pmem } with toWorld := w } :=
      ⟨pmem, rfl, agree⟩
    refine (same.chunkLacks arena.availSchunks sregionSize .slab).bind ?_
    rintro lacks _ rfl
    split
    · exact same.arenaChunkAlloc arena .slab
    · exact .ok ⟨rfl, same, rfl⟩
  refine chosen.bind ?_
  rintro ⟨c, h, arena⟩ ⟨_, _, _⟩ ⟨rfl, ⟨pmem, rfl, agree⟩, rfl⟩
  have carved : Follows (fun r r' : Nat × Heap => r.1 = r'.1 ∧ r.2.SameBut stored r'.2)
      (carveSregion h c sregion) (carveSregion { h with pmem := pmem } c sregion) := by
    refine Follows.bind (.refl (h.getChunk c)) ?_
    rintro chunk _ rfl
    refine Follows.bind (Heap.SameBut.storePmem (?_ : Heap.SameBut stored _ _) _ _ _) ?_
    · exact ⟨pmem, rfl, agree⟩
    · exact fun _ _ same => .ok ⟨rfl, same⟩
  refine carved.bind ?_
  rintro ⟨paddr, h⟩ ⟨_, _⟩ ⟨rfl, pmem, rfl, agree⟩
  refine Follows.bind (Heap.SameBut.pslabInit (?_ : Heap.SameBut stored _ _) _ _) ?_
  · exact ⟨pmem, rfl, agree⟩
  · exact fun _ _ same => .ok ⟨rfl, same, rfl⟩

/-- A small request. -/
theorem Heap.SameBut.arenaMallocSmall (same : h.SameBut stored k) (arena : Arena) (size ptr : Nat) :
    Follows (SameResult stored) (arenaMallocSmall h arena size ptr)
      (arenaMallocSmall k arena size ptr) := by
  unfold Lsmalloc.arenaMallocSmall
  simp only
  split
  · obtain ⟨pmem, rfl, agree⟩ := same
    refine Follows.bind (.refl (h.getSregion _)) ?_
    rintro s _ rfl
    simp only
    split
    · refine Heap.SameBut.arenaMallocSmallHard ?_ _ _ _ _
      exact ⟨pmem, rfl, agree⟩
    · refine Follows.bind (Heap.SameBut.pslabInit (?_ : Heap.SameBut stored _ _) _ _) ?_
      · exact ⟨pmem, rfl, agree⟩
      · rintro h _ ⟨pmem, rfl, agree⟩
        exact .ok ⟨rfl, ⟨pmem, rfl, agree⟩, rfl⟩
  · exact same.arenaMallocSmallHard _ _ _ _

/-- Any request. -/
theorem Heap.SameBut.arenaMalloc (same : h.SameBut stored k) (arena : Arena)
    (size ptr threadid : Nat) :
    Follows (SameResult stored) (arenaMalloc h arena size ptr threadid)
      (arenaMalloc k arena size ptr threadid) := by
  unfold Lsmalloc.arenaMalloc
  split
  · exact same.arenaMallocSmall arena size ptr
  · exact same.arenaRegionAlloc arena _ ptr threadid

end Arena

/-! ## What a call does in two processes -/

section Process

variable {thread ind size ptr node : Nat}

theorem Process.SameBut.assignArena (same : p.SameBut stored q) (thread ind : Nat) :
    Follows (fun r r' : Nat × Process => r.1 = r'.1 ∧ r.2.SameBut stored r'.2)
      (assignArena p thread ind) (assignArena q thread ind) := by
  obtain ⟨heap, rfl, same⟩ := same
  refine Follows.bind (.refl (p.arena ind)) ?_
  rintro arena _ rfl
  exact .ok ⟨rfl, heap, rfl, same⟩

theorem Process.SameBut.arenasExtend (same : p.SameBut stored q) (ind : Nat) :
    Follows (Process.SameBut stored) (arenasExtend p ind) (arenasExtend q ind) := by
  obtain ⟨_, rfl, pmem, rfl, agree⟩ := same
  have made : Follows (fun r r' : Heap × Arena => r.1.SameBut stored r'.1 ∧ r.2 = r'.2)
      (arenaNew p.heap (p.garbage ind) ind)
      (arenaNew { p.heap with pmem := pmem } (p.garbage ind) ind) := by
    refine Follows.bind (.refl (pmempoolCreate p.heap.toWorld (p.garbage ind).pool)) ?_
    rintro ⟨w, pool⟩ _ rfl
    exact .ok ⟨⟨pmem, rfl, agree⟩, rfl⟩
  refine made.bind ?_
  rintro ⟨h, arena⟩ ⟨k, _⟩ ⟨same, rfl⟩
  exact .ok ⟨k, rfl, same⟩

/-- A thread is given the same arena. -/
theorem Process.SameBut.chooseArena (same : p.SameBut stored q) (thread : Nat) :
    Follows (fun r r' : Nat × Process => r.1 = r'.1 ∧ r.2.SameBut stored r'.2)
      (chooseArena p thread) (chooseArena q thread) := by
  have arenas : q.arenas = p.arenas ∧ q.narenasAuto = p.narenasAuto ∧
      q.arenasTsd = p.arenasTsd := by
    obtain ⟨heap, rfl, _⟩ := same
    exact ⟨rfl, rfl, rfl⟩
  obtain ⟨arenas, narenasAuto, arenasTsd⟩ := arenas
  have round : chooseRound q = chooseRound p := by
    funext found i
    rw [chooseRound, chooseRound, arenas, narenasAuto]
  unfold Lsmalloc.chooseArena
  rw [arenasTsd]
  split
  · exact .ok ⟨rfl, same⟩
  · unfold chooseArenaHard
    rw [arenas, narenasAuto, round]
    split
    · split
      · exact .error _
      · simp only
        split
        · exact same.assignArena thread _
        · exact (same.arenasExtend _).bind fun _ _ same => same.assignArena thread _
    · exact same.assignArena thread 0

/-- A request of any size. -/
theorem Process.SameBut.imalloct (same : p.SameBut stored q) (thread size ptr node : Nat) :
    Follows (fun r r' : Nat × Process => r.1 = r'.1 ∧ r.2.SameBut stored r'.2)
      (imalloct p thread size ptr node) (imalloct q thread size ptr node) := by
  unfold Lsmalloc.imalloct
  split
  · refine (same.chooseArena thread).bind ?_
    rintro ⟨ind, p⟩ ⟨_, _⟩ ⟨rfl, heap, rfl, same⟩
    refine Follows.bind (.refl (p.arena ind)) ?_
    rintro arena _ rfl
    refine (same.arenaMalloc arena size ptr 0).bind ?_
    rintro ⟨ret, h, arena⟩ ⟨_, k, _⟩ ⟨rfl, same, rfl⟩
    exact .ok ⟨rfl, k, rfl, same⟩
  · obtain ⟨_, rfl, pmem, rfl, agree⟩ := same
    refine Follows.bind (.refl (hugeMalloc p.heap.toWorld p.hugeTree node size)) ?_
    rintro ⟨ret, w, huge⟩ _ rfl
    exact .ok ⟨rfl, _, rfl, pmem, rfl, agree⟩

/-- A call of a program ends as it does without the stores. -/
theorem ProcessRun.SameBut.step (same : s.SameBut stored t) (inv : s.Inv) (inv' : t.Inv)
    (op : ProcessOp) : Follows (ProcessRun.SameBut stored) (s.step op) (t.step op) := by
  cases op with
  | lsmalloc thread size ptr node =>
      have initialized : ¬ s.mallocInitialized = false := by rw [inv.1.initialized]; simp
      have initialized' : ¬ t.mallocInitialized = false := by rw [inv'.1.initialized]; simp
      have called : Follows (fun r r' : Nat × Process => r.1 = r'.1 ∧ r.2.SameBut stored r'.2)
          (lsmalloc s.toProcess thread size ptr node) (lsmalloc t.toProcess thread size ptr node) := by
        rw [lsmalloc, lsmalloc, if_neg initialized, if_neg initialized']
        exact same.process.imalloct thread (requestSize size) ptr node
      refine called.bind ?_
      rintro ⟨ret, p⟩ ⟨_, q⟩ ⟨rfl, process⟩
      refine .ok ⟨?_, process⟩
      rw [same.live]
  | lsfree ptr =>
      simp only [ProcessRun.step, ← same.live]
      split
      · rename_i outstanding
        obtain ⟨b, member, rfl⟩ := outstanding
        obtain ⟨_, described, behind, _⟩ := (inv.2 b member).described
        rw [same.live] at member
        obtain ⟨_, described', behind', _⟩ := (inv'.2 b member).described
        rw [described.lsfree_inert behind, described'.lsfree_inert behind']
        exact .ok ⟨rfl, same.process⟩
      · exact .error _

end Process

/-! ## Runs -/

/-- A store is into bytes that may differ. -/
theorem ProcessRun.SameBut.store {addr : Nat} (same : s.SameBut stored t) (here : stored addr)
    (byte : UInt8) : (s.stored addr byte).SameBut stored t := by
  obtain ⟨live, heap, process, pmem, rfl, agree⟩ := same
  refine ⟨live, { s.heap with pmem := pmem }, process, pmem, rfl, fun a elsewhere => ?_⟩
  have other : a ≠ addr := by
    rintro rfl
    exact elsewhere here
  exact (Function.update_of_ne other byte s.heap.pmem).trans (agree a elsewhere)

/-- **The calls do not see the stores.** A run whose program stores into its blocks ends as the
run of its calls alone does: with the same fault, or with the same blocks in the same state of the
allocator, where only bytes of PMEM that the program stored can differ. -/
theorem userRun_oblivious {garbage : Nat → Arena} {nprocessors : Int} {ops : List UserOp}
    (has : ∀ p, mallocInitHard (.loaded h garbage nprocessors) = .ok p →
      Execution.Meets ProcessRun.act ProcessRun.Has ⟨p, []⟩ ops) :
    Follows (ProcessRun.SameBut fun a => ∃ byte, .store a byte ∈ ops)
      (userRun h garbage nprocessors ops)
      (processRun h garbage nprocessors (ops.flatMap UserOp.calls)) := by
  let stored := fun a => ∃ byte, UserOp.store a byte ∈ ops
  refine Follows.bind ((Follows.refl _).and_left fun p started => started) ?_
  rintro p _ ⟨rfl, started⟩
  have kept := ProcessRun.Kept.start started
  -- One step, in two states that only bytes that are stored distinguish.
  have simulated : ∀ (s t : ProcessRun) op,
      s.SameBut stored t ∧ s.Kept h.toWorld ∧ t.Inv → s.Has op ∧ op ∈ ops →
      Follows (fun s t => ProcessRun.SameBut stored s t ∧ s.Kept h.toWorld ∧ t.Inv) (s.act op)
        (Execution.run ProcessRun.step t op.calls) := by
    rintro s t op ⟨same, kept, inv'⟩ ⟨has, member⟩
    cases op with
    | call op =>
        have kept' : ∀ s', s.step op = .ok s' → s'.Kept h.toWorld := fun s' stepped =>
          kept.act (show s.act (.call op) = .ok s' from stepped)
        have alike := ((same.step kept.1 inv' op).and_left kept').and_right fun t' stepped =>
          inv'.step stepped
        rw [UserOp.calls, Execution.run_singleton]
        refine alike.mono ?_
        rintro _ _ ⟨⟨same, kept⟩, inv'⟩
        exact ⟨same, kept, inv'⟩
    | store addr byte =>
        obtain ⟨b, live, inside⟩ := has
        have acted := ProcessRun.act_store kept.1 kept.2 live inside byte
        rw [acted]
        exact .ok ⟨same.store ⟨byte, member⟩ byte, kept.act acted, inv'⟩
  have meets : Execution.Meets ProcessRun.act (fun s op => s.Has op ∧ op ∈ ops) ⟨p, []⟩ ops :=
    (has p started).and (Execution.meets_of_forall (fun _ member => member) _)
  have start : ProcessRun.SameBut stored ⟨p, []⟩ ⟨p, []⟩ :=
    ⟨rfl, p.heap, rfl, p.heap.pmem, rfl, fun _ _ => rfl⟩
  exact (Execution.run_follows_runs UserOp.calls simulated ⟨start, kept, kept.1⟩ meets).mono
    fun _ _ related => related.1

/-- A store between the requests of two threads. -/
theorem userRun_oblivious_of_twoThreads :
    ∃ s t, userRun (.fresh [chunksize, 2 ^ 30] [1024, 2048, 4096, 8192]) (fun _ => .zeroed) 2
        [.call (.lsmalloc 0 100 0 0), .store 4194340 7, .call (.lsmalloc 1 100 0 0)] = .ok s ∧
      processRun (.fresh [chunksize, 2 ^ 30] [1024, 2048, 4096, 8192]) (fun _ => .zeroed) 2
        [.lsmalloc 0 100 0 0, .lsmalloc 1 100 0 0] = .ok t ∧ s.live = t.live ∧
      s.heap.pmem 4194340 = 7 := by
  obtain ⟨p, started, meets⟩ :
      ∃ p, mallocInitHard (.loaded (.fresh [chunksize, 2 ^ 30] [1024, 2048, 4096, 8192])
          (fun _ => .zeroed) 2) = .ok p ∧
        Execution.Meets ProcessRun.act ProcessRun.Has ⟨p, []⟩
          [.call (.lsmalloc 0 100 0 0), .store 4194340 7, .call (.lsmalloc 1 100 0 0)] :=
    Execution.exists_eq_ok_and (by decide +kernel)
  obtain ⟨s, reached, byte⟩ :
      ∃ s, userRun (.fresh [chunksize, 2 ^ 30] [1024, 2048, 4096, 8192]) (fun _ => .zeroed) 2
          [.call (.lsmalloc 0 100 0 0), .store 4194340 7, .call (.lsmalloc 1 100 0 0)] = .ok s ∧
        s.heap.pmem 4194340 = 7 := Execution.exists_eq_ok_and (by decide +kernel)
  have follows := userRun_oblivious fun q started' => by
    rw [started] at started'
    cases started'
    exact meets
  obtain ⟨t, reached', same⟩ := follows.exists_ok reached
  exact ⟨s, t, reached, reached', same.live, byte⟩

end Lsmalloc
