import Lsmalloc.Arena.Run
import Lsmalloc.Gc.Model

/-!
# The size accounts of log chunks

The regions on a log chunk's list and what is left of the chunk add up to the chunk
without its header, modulo the word size, whatever was allocated; and `dirtysize` is
the size of the regions that were freed (`Accounts`). The reclaim test compares the sum
of the two counters with the chunk without its *descriptor*, so it is met exactly when
the regions still alive add up to the difference of the two sizes
(`Accounts.reclaimTest_iff`), not when there are none.
-/

namespace Lsmalloc

/-! ## Reading a chunk's regions -/

/-- The regions on the chunk's list, in order. -/
def Heap.regionsOf (h : Heap) (c : Nat) : List Nat :=
  if (h.chunks c).regions = 0 then []
  else h.regionsLink.walk (h.chunks c).regions h.blocks.length

/-- The bytes of the regions with the attribute. -/
def Heap.bytesOf (h : Heap) (attr : RegionAttr) (rs : List Nat) : Nat :=
  ((rs.filter fun r => (h.regions r).attr = attr).map fun r => (h.regions r).size).sum

/-- The bytes of all the regions. -/
def Heap.bytes (h : Heap) (rs : List Nat) : Nat := (rs.map fun r => (h.regions r).size).sum

variable {w₀ : World} {h h' : Heap} {arena arena' : Arena} {logs slabs rs : List Nat} {c : Nat}

/-- Every region is alive or dirty. -/
theorem bytes_eq (h : Heap) (rs : List Nat) :
    h.bytes rs = h.bytesOf .alive rs + h.bytesOf .dirty rs := by
  induction rs with
  | nil => rfl
  | cons r rs ih =>
      have split : h.bytes (r :: rs) = (h.regions r).size + h.bytes rs := rfl
      rw [split, ih]
      unfold Heap.bytesOf
      cases attr : (h.regions r).attr with
      | alive => simp [attr, Nat.add_assoc]
      | dirty => simp [attr, Nat.add_left_comm]

/-- The bytes of a list depend on its own regions. -/
theorem bytesOf_congr {attr : RegionAttr} (same : ∀ r ∈ rs, h'.regions r = h.regions r) :
    h'.bytesOf attr rs = h.bytesOf attr rs := by
  unfold Heap.bytesOf
  rw [List.filter_congr fun r member => by rw [same r member]]
  exact congrArg List.sum (List.map_congr_left fun r member => by
    rw [same r (List.mem_filter.mp member).1])

/-- One region turns dirty: its bytes move from one account to the other. -/
theorem bytesOf_dirty {region : Nat} (distinct : rs.Nodup) (member : region ∈ rs)
    (alive : (h.regions region).attr = .alive)
    (regions : h'.regions =
      Function.update h.regions region { h.regions region with attr := .dirty }) :
    h'.bytesOf .dirty rs = h.bytesOf .dirty rs + (h.regions region).size ∧
      h'.bytes rs = h.bytes rs := by
  have self : h'.regions region = { h.regions region with attr := .dirty } := by
    rw [regions, Function.update_self]
  have sizes : ∀ r, (h'.regions r).size = (h.regions r).size := by
    intro r
    rw [regions]
    by_cases same : r = region <;> simp [same]
  refine ⟨?_, congrArg List.sum (List.map_congr_left fun r _ => sizes r)⟩
  induction rs with
  | nil => simp at member
  | cons r rs ih =>
      have absent := (List.nodup_cons.mp distinct).1
      have step : ∀ (g : Heap) (l : List Nat), g.bytesOf .dirty (r :: l) =
          (if (g.regions r).attr = .dirty then (g.regions r).size else 0) + g.bytesOf .dirty l := by
        intro g l
        unfold Heap.bytesOf
        by_cases dirty : (g.regions r).attr = .dirty <;> simp [dirty]
      rw [step, step]
      by_cases here : r = region
      · subst here
        have others : h'.bytesOf .dirty rs = h.bytesOf .dirty rs := by
          refine bytesOf_congr fun x inRest => ?_
          rw [regions, Function.update_of_ne (by rintro rfl; exact absent inRest)]
        rw [others, self, alive]
        simp [Nat.add_comm]
      · have later := (List.mem_cons.mp member).resolve_left (Ne.symm here)
        have same : h'.regions r = h.regions r := by rw [regions, Function.update_of_ne here]
        rw [ih (List.nodup_cons.mp distinct).2 later, same]
        omega

/-! ## The invariant -/

/-- The chunk's list holds its regions `rs`, and its counters account for them. -/
structure Account (h : Heap) (c : Nat) (rs : List Nat) : Prop where
  chunktype : (h.chunks c).chunktype = .log
  list : IsQl h.regionsLink (h.chunks c).regions rs
  isRegion : ∀ r ∈ rs, ⟨r, .region⟩ ∈ h.blocks
  owner : ∀ r ∈ rs, (h.regions r).chunk = c
  availsize : (h.chunks c).availsize < 2 ^ 64 ∧
    ((h.chunks c).availsize + h.bytes rs) % 2 ^ 64 = chunksize - sizeofPchunk
  dirtysize : (h.chunks c).dirtysize = h.bytesOf .dirty rs % 2 ^ 64

/-- The accounts of every log chunk of an arena that has no other chunks. -/
structure Accounts (w₀ : World) (h : Heap) (arena : Arena) (logs : List Nat)
    (regions : Nat → List Nat) : Prop where
  chunks : ChunksOk w₀ h arena logs []
  account : ∀ c ∈ logs, Account h c (regions c)

/-- What `regionsOf` computes of a well-formed list. -/
theorem Account.regionsOf_eq (account : Account h c rs) : h.regionsOf c = rs :=
  account.list.walk_blocks account.isRegion

/-- An account depends on its chunk, its regions and its list alone. -/
theorem Account.congr (account : Account h c rs)
    (chunk : (h'.chunks c).chunktype = (h.chunks c).chunktype ∧
      (h'.chunks c).regions = (h.chunks c).regions ∧
      (h'.chunks c).availsize = (h.chunks c).availsize ∧
      (h'.chunks c).dirtysize = (h.chunks c).dirtysize)
    (blocks : ∀ b ∈ h.blocks, b ∈ h'.blocks) (regions : ∀ r ∈ rs, h'.regions r = h.regions r)
    (links : ∀ r ∈ rs, h'.regionsLink.next r = h.regionsLink.next r ∧
      h'.regionsLink.prev r = h.regionsLink.prev r) : Account h' c rs where
  chunktype := chunk.1.trans account.chunktype
  list := by
    rw [chunk.2.1]
    exact account.list.congr links
  isRegion r member := blocks _ (account.isRegion r member)
  owner r member := by
    rw [regions r member]
    exact account.owner r member
  availsize := by
    have bytes : h'.bytes rs = h.bytes rs :=
      congrArg List.sum (List.map_congr_left fun r member => by rw [regions r member])
    rw [chunk.2.2.1, bytes]
    exact account.availsize
  dirtysize := by
    rw [chunk.2.2.2, bytesOf_congr regions]
    exact account.dirtysize

/-- A region is on the list of at most one chunk. -/
theorem Account.disjoint {d : Nat} {others : List Nat} (account : Account h c rs)
    (account' : Account h d others) (different : d ≠ c) {r : Nat} (member : r ∈ rs) :
    r ∉ others := by
  intro member'
  exact different ((account'.owner r member').symm.trans (account.owner r member))

/-! ## The steps -/

/-- A new log chunk has no regions and a full account. -/
theorem Account.newChunk {addr : Nat}
    (allocated : ChunkAllocated h h' arena arena' .log c addr) : Account h' c [] := by
  obtain ⟨garbage, chunks, empty⟩ := allocated.chunks
  have self : h'.chunks c = Lsmalloc.newChunk garbage addr arena.ind .log true := by
    rw [chunks, Function.update_self]
  refine ⟨by rw [self]; rfl, ?_, by simp, by simp, ?_, ?_⟩
  · have noRegions : (h'.chunks c).regions = 0 := by
      rw [self]
      exact empty rfl
    rw [noRegions]
    exact isQl_nil _
  · rw [self]
    constructor
    · exact szSub_lt _ _
    · change (szSub chunksize sizeofPchunk + 0) % 2 ^ 64 = _
      rw [Nat.add_zero, Nat.mod_eq_of_lt (szSub_lt _ _)]
      exact szSub_of_le (by rw [chunksize_eq]; decide) (by rw [chunksize_eq]; decide)
  · rw [self]
    rfl

/-- Another chunk's account does not see a new chunk. -/
theorem Account.allocated {d addr : Nat} (account : Account h d rs)
    (allocated : ChunkAllocated h h' arena arena' .log c addr) (other : d ≠ c)
    (blocks : ∀ b ∈ h.blocks, b ∈ h'.blocks) : Account h' d rs := by
  obtain ⟨garbage, chunks, _⟩ := allocated.chunks
  have same : h'.chunks d = h.chunks d := by rw [chunks, Function.update_of_ne other]
  refine account.congr ?_ blocks (fun r _ => by rw [allocated.regions]) fun r _ => by
    rw [allocated.regionsLink]
    exact ⟨rfl, rfl⟩
  rw [same]
  exact ⟨rfl, rfl, rfl, rfl⟩

/-- The chunk a region is placed on accounts for it. -/
theorem Account.place {region size ptr threadid : Nat} (account : Account h c rs)
    (placed : RegionPlaced h h' c region size ptr threadid) (fresh : region ∉ rs)
    (nonnull : region ≠ 0) (isRegion : ⟨region, .region⟩ ∈ h.blocks) :
    Account h' c (rs ++ [region]) := by
  have self : h'.chunks c = { h.chunks c with
      tail := szAdd (h.chunks c).tail size
      availsize := szSub (h.chunks c).availsize size
      regions := (qlTailInsert (qrNew h.regionsLink region) (h.chunks c).regions region).2 } := by
    rw [placed.chunks, Function.update_self]
  have newRegion : h'.regions region = ⟨.alive, threadid, size, ptr, (h.chunks c).tail, c⟩ := by
    rw [placed.regions, Function.update_self]
  have oldRegions : ∀ r ∈ rs, h'.regions r = h.regions r := by
    intro r member
    rw [placed.regions, Function.update_of_ne (by rintro rfl; exact fresh member)]
  have oldBytes : h'.bytes rs = h.bytes rs :=
    congrArg List.sum (List.map_congr_left fun r member => by rw [oldRegions r member])
  have bytes : h'.bytes (rs ++ [region]) = h.bytes rs + size := by
    rw [← oldBytes]
    simp [Heap.bytes, newRegion]
  have dirty : h'.bytesOf .dirty (rs ++ [region]) = h.bytesOf .dirty rs := by
    rw [← bytesOf_congr oldRegions]
    simp [Heap.bytesOf, newRegion]
  constructor
  case chunktype =>
    rw [self]
    exact account.chunktype
  case list =>
    rw [placed.regionsLink, self]
    have kept : IsQl (qrNew h.regionsLink region) (h.chunks c).regions rs :=
      account.list.congr fun r member => qrNew_other (by rintro rfl; exact fresh member)
    exact kept.tailInsert fresh nonnull fun _ => isRing_qrNew _ _
  case isRegion =>
    intro r member
    rw [placed.world]
    rcases List.mem_append.mp member with old | new
    · exact account.isRegion r old
    · rw [List.mem_singleton.mp new]
      exact isRegion
  case owner =>
    intro r member
    rcases List.mem_append.mp member with old | new
    · rw [oldRegions r old]
      exact account.owner r old
    · rw [List.mem_singleton.mp new, newRegion]
  case availsize =>
    obtain ⟨word, sum⟩ := account.availsize
    rw [self, bytes]
    change szSub (h.chunks c).availsize size < 2 ^ 64 ∧
      (szSub (h.chunks c).availsize size + (h.bytes rs + size)) % 2 ^ 64 = _
    refine ⟨szSub_lt _ _, ?_⟩
    rw [← sum]
    unfold szSub
    omega
  case dirtysize =>
    rw [self, dirty]
    exact account.dirtysize

/-- Another chunk's account does not see a placed region. -/
theorem Account.placed {d region size ptr threadid : Nat} {others : List Nat}
    (account : Account h d others) (account' : Account h c rs)
    (placed : RegionPlaced h h' c region size ptr threadid) (different : d ≠ c)
    (fresh : region ∉ rs) (fresh' : region ∉ others) : Account h' d others := by
  have same : h'.chunks d = h.chunks d := by rw [placed.chunks, Function.update_of_ne different]
  refine account.congr ?_ ?_ ?_ ?_
  · rw [same]
    exact ⟨rfl, rfl, rfl, rfl⟩
  · intro b member
    rwa [placed.world]
  · intro r member
    rw [placed.regions, Function.update_of_ne (by rintro rfl; exact fresh' member)]
  · intro r member
    have kept : IsQl (qrNew h.regionsLink region) (h.chunks c).regions rs :=
      account'.list.congr fun r member => qrNew_other (by rintro rfl; exact fresh member)
    have notNew : r ≠ region := by rintro rfl; exact fresh' member
    have outside : r ∉ rs := account.disjoint account' different.symm member
    have first := kept.tailInsert_other outside notNew
    have second : (qrNew h.regionsLink region).next r = h.regionsLink.next r ∧
        (qrNew h.regionsLink region).prev r = h.regionsLink.prev r := qrNew_other notNew
    rw [placed.regionsLink]
    exact ⟨first.1.trans second.1, first.2.trans second.2⟩

/-- Freeing a region that is alive and on the chunk's list moves its bytes. -/
theorem Account.free {region : Nat} (account : Account h c rs)
    (freed : RegionFreed h h' c region) (member : region ∈ rs)
    (alive : (h.regions region).attr = .alive) : Account h' c rs := by
  have self : h'.chunks c = { h.chunks c with
      dirtysize := szAdd (h.chunks c).dirtysize (h.regions region).size } := by
    rw [freed.chunks, Function.update_self]
  obtain ⟨dirty, bytes⟩ := bytesOf_dirty account.list.nodup member alive freed.regions
  constructor
  case chunktype =>
    rw [self]
    exact account.chunktype
  case list =>
    rw [freed.regionsLink, self]
    exact account.list
  case isRegion =>
    rw [freed.world]
    exact account.isRegion
  case owner =>
    intro r inRs
    have owner := account.owner r inRs
    rw [freed.regions]
    by_cases same : r = region
    · subst same
      simpa using owner
    · rwa [Function.update_of_ne same]
  case availsize =>
    rw [self, bytes]
    exact account.availsize
  case dirtysize =>
    rw [self, dirty]
    change szAdd (h.chunks c).dirtysize (h.regions region).size = _
    rw [account.dirtysize]
    unfold szAdd
    omega

/-- Another chunk's account does not see the free. -/
theorem Account.freed {d region : Nat} {others : List Nat} (account : Account h d others)
    (freed : RegionFreed h h' c region) (different : d ≠ c) (absent : region ∉ others) :
    Account h' d others := by
  have same : h'.chunks d = h.chunks d := by rw [freed.chunks, Function.update_of_ne different]
  refine account.congr ?_ ?_ ?_ ?_
  · rw [same]
    exact ⟨rfl, rfl, rfl, rfl⟩
  · intro b member
    rwa [freed.world]
  · intro r member
    rw [freed.regions, Function.update_of_ne (by rintro rfl; exact absent member)]
  · intro r _
    rw [freed.regionsLink]
    exact ⟨rfl, rfl⟩

/-- The accounts do not see an object that is not a chunk. -/
theorem Accounts.newBlock {regions : Nat → List Nat} {w : World} {object : Object} {p : Nat}
    (accounts : Accounts w₀ h arena logs regions) (new : NewBlock h.toWorld w object p)
    (other : object ≠ .chunk) : Accounts w₀ { h with toWorld := w } arena logs regions where
  chunks := accounts.chunks.of_same (SameChunks.newBlock new other) rfl rfl rfl
  account d member := (accounts.account d member).congr ⟨rfl, rfl, rfl, rfl⟩
    (SameChunks.newBlock new other).old (fun _ _ => rfl) fun _ _ => ⟨rfl, rfl⟩

/-- Retiring the head of the queue changes no account. -/
theorem Accounts.retire {regions : Nat → List Nat} (accounts : Accounts w₀ h arena logs regions)
    (c : Nat) :
    Accounts w₀ (h.putChunk c { h.chunks c with live := false }) arena logs regions where
  chunks := accounts.chunks.of_same (SameChunks.retire h c) rfl rfl rfl
  account d member := by
    refine (accounts.account d member).congr ?_ (fun _ here => here) (fun _ _ => rfl)
      fun _ _ => ⟨rfl, rfl⟩
    by_cases same : d = c <;> simp [Heap.putChunk, same]

/-- A new log chunk opens an account. -/
theorem Accounts.allocate {regions : Nat → List Nat} {addr : Nat}
    (accounts : Accounts w₀ h arena logs regions)
    (allocated : ChunkAllocated h h' arena arena' .log c addr) :
    Accounts w₀ h' arena' (c :: logs) (Function.update regions c []) ∧
      ∀ b : Block, b.object ≠ .chunk → (b ∈ h'.blocks ↔ b ∈ h.blocks) := by
  obtain ⟨later, fresh, _⟩ := chunkTaken_objects allocated.pool
  have blocks : ∀ b ∈ h.blocks, b ∈ h'.blocks := by
    intro b member
    rw [later]
    exact List.mem_cons_of_mem _ member
  have absent : c ∉ logs := by
    have notMem := accounts.chunks.out.not_mem fresh
    simpa using notMem
  refine ⟨⟨accounts.chunks.allocLog allocated, ?_⟩, fun _ other => allocated.mem_blocks other⟩
  intro d member
  rcases List.mem_cons.mp member with rfl | old
  · rw [Function.update_self]
    exact .newChunk allocated
  · have other : d ≠ c := by rintro rfl; exact absent old
    rw [Function.update_of_ne other]
    exact (accounts.account d old).allocated allocated other blocks

/-- A region placed on a chunk of the queue is on the account of that chunk. -/
theorem Accounts.place {regions : Nat → List Nat} {region size ptr threadid : Nat}
    (accounts : Accounts w₀ h arena logs regions) (member : c ∈ logs)
    (placed : RegionPlaced h h' c region size ptr threadid)
    (fresh : ∀ d ∈ logs, region ∉ regions d) (nonnull : region ≠ 0)
    (isRegion : ⟨region, .region⟩ ∈ h.blocks) :
    Accounts w₀ h' arena logs (Function.update regions c (regions c ++ [region])) where
  chunks := accounts.chunks.of_same placed.sameChunks rfl rfl rfl
  account d inLogs := by
    have account := accounts.account c member
    by_cases same : d = c
    · subst same
      rw [Function.update_self]
      exact account.place placed (fresh d member) nonnull isRegion
    · rw [Function.update_of_ne same]
      exact (accounts.account d inLogs).placed account placed same (fresh c member)
        (fresh d inLogs)

/-- `arena_region_alloc` of any size keeps the accounts. -/
theorem Accounts.regionAlloc {regions : Nat → List Nat} {size ptr threadid ret : Nat}
    (accounts : Accounts w₀ h arena logs regions)
    (allocated : arenaRegionAlloc h arena size ptr threadid = .ok (ret, h', arena')) :
    ∃ logs' regions', Accounts w₀ h' arena' logs' regions' := by
  obtain ⟨region, w, c, h₁, new, chosen, placed, _⟩ := arenaRegionAlloc_effect allocated
  have fresh : ∀ d ∈ logs, region ∉ regions d := fun d member old =>
    new.fresh _ ((accounts.account d member).isRegion region old) rfl
  have isRegion : (⟨region, .region⟩ : Block) ∈ w.blocks := by
    rw [new.blocks]
    exact List.mem_cons_self
  have first := accounts.newBlock new (by decide)
  rcases regionChunk_effect chosen with ⟨rfl, rfl, rfl, present, _⟩ | ⟨_, _, addr, effect⟩
  · have member := accounts.chunks.logRing.first_mem present
    exact ⟨logs, _, first.place member placed fresh new.nonnull isRegion⟩
  · obtain ⟨opened, sameBlocks⟩ := (first.retire arena.availChunks).allocate effect
    have absent : ∀ d ∈ c :: logs, region ∉ Function.update regions c [] d := by
      intro d member
      rcases List.mem_cons.mp member with rfl | old
      · simp
      · by_cases same : d = c
        · subst same
          simp
        · rw [Function.update_of_ne same]
          exact fresh d old
    have stillRegion : (⟨region, .region⟩ : Block) ∈ h₁.blocks :=
      (sameBlocks _ (by simp)).mpr isRegion
    exact ⟨c :: logs, _, opened.place (by simp) placed absent new.nonnull stillRegion⟩

/-- Freeing a region of a chunk, alive until then, keeps the accounts. -/
theorem Accounts.free {regions : Nat → List Nat} {region : Nat}
    (accounts : Accounts w₀ h arena logs regions) (member : c ∈ logs)
    (freed : RegionFreed h h' c region) (listed : region ∈ regions c)
    (alive : (h.regions region).attr = .alive) : Accounts w₀ h' arena logs regions where
  chunks := accounts.chunks.of_same freed.sameChunks rfl rfl rfl
  account d inLogs := by
    have account := accounts.account c member
    by_cases same : d = c
    · subst same
      exact account.free freed listed alive
    · exact (accounts.account d inLogs).freed freed same
        (account.disjoint (accounts.account d inLogs) same listed)

/-! ## Runs of large requests -/

/-- The calls that fill log chunks and free their regions. -/
inductive LogOp
  /-- `arena_region_alloc` of a region of the size. -/
  | regionAlloc (size ptr threadid : Nat)
  /-- `arena_dalloc_large` of a region of the chunk, once. -/
  | dallocLarge (chunk region : Nat)
deriving DecidableEq, Repr

/-- One call. A region is freed once, with the log chunk it is on. -/
def ArenaState.logStep (s : ArenaState) : LogOp → Except Fault ArenaState
  | .regionAlloc size ptr threadid => do
      let (_, heap, arena) ← arenaRegionAlloc s.heap s.arena size ptr threadid
      .ok ⟨heap, arena⟩
  | .dallocLarge chunk region =>
      if chunk ∈ s.heap.availList s.arena.availChunks ∧ region ∈ s.heap.regionsOf chunk ∧
          (s.heap.regions region).attr = .alive then do
        let heap ← arenaDallocLarge s.heap chunk region
        .ok { s with heap := heap }
      else .error .contract

/-- An arena from its making on. -/
def logRun (h : Heap) (arena : Arena) (ind : Nat) (ops : List LogOp) : Except Fault ArenaState := do
  let s ← arenaBoot h arena ind
  Execution.run ArenaState.logStep s.toArenaState ops

/-- The accounts of a run. -/
def ArenaState.Accounted (w₀ : World) (s : ArenaState) : Prop :=
  ∃ logs regions, Accounts w₀ s.heap s.arena logs regions

theorem arenaBoot_accounts {ind : Nat} {s : ArenaRun} (booted : arenaBoot h arena ind = .ok s) :
    s.Accounted h.toWorld := by
  obtain ⟨⟨h₁, arena₁⟩, made, booted⟩ := Execution.bind_eq_ok.mp booted
  obtain ⟨⟨c, h₂, arena₂⟩, allocated, booted⟩ := Execution.bind_eq_ok.mp booted
  cases booted
  obtain ⟨empty, _⟩ := arenaNew_chunks made
  obtain ⟨addr, effect⟩ := arenaChunkAlloc_effect allocated
  have none : Accounts h.toWorld h₁ arena₁ [] (fun _ => []) := ⟨empty, by simp⟩
  exact ⟨[c], _, (none.allocate effect).1⟩

/-- Every call keeps the accounts. -/
theorem ArenaState.accounted_step {s s' : ArenaState} {op : LogOp} (inv : s.Accounted w₀)
    (stepped : s.logStep op = .ok s') : s'.Accounted w₀ := by
  obtain ⟨logs, regions, accounts⟩ := inv
  cases op with
  | regionAlloc size ptr threadid =>
      obtain ⟨⟨ret, heap, arena⟩, allocated, stepped⟩ := Execution.bind_eq_ok.mp stepped
      cases stepped
      exact accounts.regionAlloc allocated
  | dallocLarge chunk region =>
      simp only [ArenaState.logStep] at stepped
      split at stepped
      · rename_i admitted
        obtain ⟨listed, onList, alive⟩ := admitted
        rw [accounts.chunks.availList_eq.1] at listed
        rw [(accounts.account chunk listed).regionsOf_eq] at onList
        obtain ⟨heap, freed, stepped⟩ := Execution.bind_eq_ok.mp stepped
        cases stepped
        exact ⟨logs, regions, accounts.free listed (arenaDallocLarge_effect freed) onList alive⟩
      · cases stepped

/-- Every run keeps the accounts. -/
theorem logRun_accounted {ind : Nat} {ops : List LogOp} {s : ArenaState}
    (reached : logRun h arena ind ops = .ok s) : s.Accounted h.toWorld := by
  obtain ⟨s₀, booted, ran⟩ := Execution.bind_eq_ok.mp reached
  have kept : ∀ s op s', ArenaState.Accounted h.toWorld s → s.logStep op = .ok s' →
      s'.Accounted h.toWorld := fun _ _ _ inv stepped => ArenaState.accounted_step inv stepped
  exact Execution.run_kept kept (arenaBoot_accounts booted) ran

/-! ## The reclaim test -/

/-- The reclaim test is met exactly when the chunk holds no region that is alive. -/
def ReclaimExact (h : Heap) (c : Nat) : Prop :=
  reclaimTest (h.chunks c) = true ↔ ∀ r ∈ h.regionsOf c, (h.regions r).attr ≠ .alive

/-- What the reclaim test really tests of a retired chunk. -/
theorem Account.reclaimTest_iff (account : Account h c rs) (retired : (h.chunks c).live = false) :
    reclaimTest (h.chunks c) = true ↔
      h.bytesOf .alive rs % 2 ^ 64 = sizeofChunk - sizeofPchunk := by
  have target : szSub chunksize sizeofChunk = 4194144 := by decide
  have difference : sizeofChunk - sizeofPchunk = 152 := by decide
  obtain ⟨word, sum⟩ := account.availsize
  have whole : chunksize - sizeofPchunk = 4194296 := by rw [chunksize_eq]; decide
  rw [bytes_eq, whole] at sum
  have dirty := account.dirtysize
  simp only [reclaimTest, retired, account.chunktype, decide_true, Bool.true_and,
    decide_eq_true_eq, target, difference]
  rw [dirty]
  unfold szAdd
  omega

/-- **The reclaim test is off by a header.** Of a retired log chunk of any run the test is
exact if and only if some region is alive and the regions alive do not add up to the
difference of the sizes of `chunk_t` and `pchunk_t`. -/
theorem logRun_reclaimExact_iff {h : Heap} {arena : Arena} {ind : Nat} {ops : List LogOp}
    {s : ArenaState} (reached : logRun h arena ind ops = .ok s) {c : Nat}
    (listed : c ∈ s.heap.availList s.arena.availChunks)
    (retired : (s.heap.chunks c).live = false) :
    ReclaimExact s.heap c ↔
      (∃ r ∈ s.heap.regionsOf c, (s.heap.regions r).attr = .alive) ∧
        s.heap.bytesOf .alive (s.heap.regionsOf c) % 2 ^ 64 ≠ sizeofChunk - sizeofPchunk := by
  obtain ⟨logs, regions, accounts⟩ := logRun_accounted reached
  rw [accounts.chunks.availList_eq.1] at listed
  have account := accounts.account c listed
  unfold ReclaimExact
  rw [account.regionsOf_eq, account.reclaimTest_iff retired]
  by_cases alive : ∃ r ∈ regions c, (s.heap.regions r).attr = .alive
  · have notAll : ¬ ∀ r ∈ regions c, (s.heap.regions r).attr ≠ .alive := by
      obtain ⟨r, member, isAlive⟩ := alive
      exact fun all => all r member isAlive
    simp only [notAll, iff_false, alive, true_and, ne_eq]
  · have all : ∀ r ∈ regions c, (s.heap.regions r).attr ≠ .alive := fun r member isAlive =>
      alive ⟨r, member, isAlive⟩
    have nothing : s.heap.bytesOf .alive (regions c) = 0 := by
      have empty : (regions c).filter (fun r => (s.heap.regions r).attr = .alive) = [] :=
        List.filter_eq_nil_iff.mpr fun r member => by simpa using all r member
      simp [Heap.bytesOf, empty]
    have differs : ¬ 0 % 2 ^ 64 = sizeofChunk - sizeofPchunk := by decide
    simp only [nothing, differs, alive, false_and, iff_false, false_iff, not_forall]
    intro none
    obtain ⟨r, member, isAlive⟩ := none
    exact isAlive (all r member)

/-- A retired chunk with one region of 240 bytes alive. -/
theorem logRun_reclaimExact_of_alive :
    ∃ s, logRun (.fresh [chunksize] [1024, 2048, 3072, 4096]) .zeroed 0
        [.regionAlloc 240 0 0, .regionAlloc 4194296 0 0] = .ok s ∧
      (ReclaimExact s.heap 1024 ↔
        (∃ r ∈ s.heap.regionsOf 1024, (s.heap.regions r).attr = .alive) ∧
          s.heap.bytesOf .alive (s.heap.regionsOf 1024) % 2 ^ 64 ≠ sizeofChunk - sizeofPchunk) := by
  obtain ⟨s, reached, listed, retired⟩ : ∃ s, logRun
      (.fresh [chunksize] [1024, 2048, 3072, 4096]) .zeroed 0
      [.regionAlloc 240 0 0, .regionAlloc 4194296 0 0] = .ok s ∧
      1024 ∈ s.heap.availList s.arena.availChunks ∧ (s.heap.chunks 1024).live = false :=
    Execution.exists_eq_ok_and (by decide +kernel)
  exact ⟨s, reached, logRun_reclaimExact_iff reached listed retired⟩

/-- A retired chunk whose only region was freed is never reclaimed. -/
theorem not_reclaimExact_of_freed :
    ∃ s, logRun (.fresh [chunksize] [1024, 2048, 3072, 4096]) .zeroed 0
        [.regionAlloc 240 0 0, .regionAlloc 4194296 0 0, .dallocLarge 1024 2048] = .ok s ∧
      (s.heap.chunks 1024).live = false ∧ s.heap.regionsOf 1024 = [2048] ∧
      ¬ ReclaimExact s.heap 1024 := by
  obtain ⟨s, reached, retired, regions, dirty, test⟩ : ∃ s, logRun
      (.fresh [chunksize] [1024, 2048, 3072, 4096]) .zeroed 0
      [.regionAlloc 240 0 0, .regionAlloc 4194296 0 0, .dallocLarge 1024 2048] = .ok s ∧
      (s.heap.chunks 1024).live = false ∧ s.heap.regionsOf 1024 = [2048] ∧
      (s.heap.regions 2048).attr = .dirty ∧ reclaimTest (s.heap.chunks 1024) = false :=
    Execution.exists_eq_ok_and (by decide +kernel)
  refine ⟨s, reached, retired, regions, ?_⟩
  intro exact
  have allDirty : ∀ r ∈ s.heap.regionsOf 1024, (s.heap.regions r).attr ≠ .alive := by
    rw [regions]
    simp [dirty]
  rw [exact.mpr allDirty] at test
  cases test

end Lsmalloc
