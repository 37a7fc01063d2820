import Lsmalloc.Arena.Accounting
import Lsmalloc.Gc.Chunks

/-!
# What an evacuation copies

`chunk_do_slowgc` migrates the regions of a retired chunk whose `attr` is
`REGION_DIRTY`: those the user has freed. The regions that are alive stay behind in a
chunk that is then unlinked. So an evacuation saves the live regions of a chunk only
when the chunk has no regions at all (`evacuates_iff`).
-/

namespace Lsmalloc

variable {h h' : Heap} {arena arena' : Arena} {c gcChunk : Nat}

/-! ## What the loop keeps -/

/-- What is old in `h` is still there, no region of `h` has changed, and every region made
since is alive. -/
structure Evacuation.Extends (h h' : Heap) : Prop where
  blocks : ∀ b ∈ h.blocks, b ∈ h'.blocks
  regions : ∀ r, ⟨r, .region⟩ ∈ h.blocks → h'.regions r = h.regions r
  new : ∀ r, ⟨r, .region⟩ ∈ h'.blocks → ⟨r, .region⟩ ∈ h.blocks ∨ (h'.regions r).attr = .alive

theorem Evacuation.Extends.refl (h : Heap) : Evacuation.Extends h h :=
  ⟨fun _ here => here, fun _ _ => rfl, fun _ here => .inl here⟩

theorem Evacuation.Extends.trans {h'' : Heap} (first : Evacuation.Extends h h')
    (second : Evacuation.Extends h' h'') : Evacuation.Extends h h'' where
  blocks b member := second.blocks b (first.blocks b member)
  regions r member := (second.regions r (first.blocks _ member)).trans (first.regions r member)
  new r member := by
    rcases second.new r member with here | alive
    · rw [second.regions r here]
      exact first.new r here
    · exact .inr alive

/-- `gc_alloc_chunk` makes no region. -/
theorem gcAllocChunk_extends (allocated : gcAllocChunk h arena = .ok (c, h', arena')) :
    Evacuation.Extends h h' := by
  obtain ⟨addr, h₁, arena₁, created, _, rfl, rfl⟩ := gcAllocChunk_effect allocated
  obtain ⟨blocks, _, _⟩ := chunkTaken_objects created.pool
  refine ⟨?_, ?_, ?_⟩
  · intro b member
    change b ∈ h₁.blocks
    rw [blocks]
    exact List.mem_cons_of_mem _ member
  · intro r _
    change h₁.regions r = _
    rw [created.regions]
  · intro r member
    change (⟨r, .region⟩ : Block) ∈ h₁.blocks at member
    rw [blocks] at member
    rcases List.mem_cons.mp member with same | old
    · cases same
    · exact .inl old

/-- `gc_region_migration` makes one region, and it is alive. -/
theorem gcRegionMigration_extends {oldregion region : Nat}
    (migrated : gcRegionMigration h gcChunk oldregion = .ok (region, h')) :
    Evacuation.Extends h h' := by
  obtain ⟨w, new, placed⟩ := gcRegionMigration_effect migrated
  have blocks : h'.blocks = ⟨region, .region⟩ :: h.blocks := by
    rw [placed.world]
    exact new.blocks
  refine ⟨?_, ?_, ?_⟩
  · intro b member
    rw [blocks]
    exact List.mem_cons_of_mem _ member
  · intro r member
    rw [placed.regions, Function.update_of_ne]
    rintro rfl
    exact new.fresh _ member rfl
  · intro r member
    rw [blocks] at member
    rcases List.mem_cons.mp member with same | old
    · cases same
      rw [placed.regions, Function.update_self]
      exact .inr rfl
    · exact .inl old

/-- What a round keeps: every region migrated so far was there at the start, and dirty. -/
structure Evacuation.Inv (h : Heap) (e : Evacuation) : Prop where
  extended : Evacuation.Extends h e.heap
  dirty : ∀ p ∈ e.migrated, (h.regions p.1).attr = .dirty

theorem Evacuation.Inv.round {e e' : Evacuation} {region : Nat} (inv : Evacuation.Inv h e)
    (evacuated : evacuateRegion e region = .ok e') : Evacuation.Inv h e' := by
  have isRegion : ⟨region, .region⟩ ∈ e.heap.blocks := by
    obtain ⟨r, read, _⟩ := Execution.bind_eq_ok.mp evacuated
    exact (getRegion_eq_ok.mp read).1.2
  rcases evacuateRegion_effect evacuated with
    ⟨_, rfl⟩ | ⟨dirty, gcChunk, h₁, arena₁, new, chosen, migrated, _, _, log⟩
  · exact inv
  have grown : Evacuation.Extends e.heap h₁ := by
    rcases chosen with ⟨rfl, _, _⟩ | allocated
    · exact .refl _
    · exact gcAllocChunk_extends allocated
  refine ⟨inv.extended.trans (grown.trans (gcRegionMigration_extends migrated)), ?_⟩
  intro p member
  rw [log] at member
  rcases List.mem_append.mp member with old | isNew
  · exact inv.dirty p old
  · -- A dirty region is none of those made since the start.
    rw [List.mem_singleton.mp isNew]
    rcases inv.extended.new region isRegion with here | alive
    · rwa [← inv.extended.regions region here]
    · rw [dirty] at alive
      cases alive

/-- The migrations so far stay on record. -/
theorem evacuateRegion_migrated {e e' : Evacuation} {region : Nat}
    (evacuated : evacuateRegion e region = .ok e') : e.migrated <+: e'.migrated := by
  rcases evacuateRegion_effect evacuated with ⟨_, rfl⟩ | ⟨_, _, _, _, _, _, _, _, _, log⟩
  · exact List.prefix_refl _
  · rw [log]
    exact List.prefix_append _ _

/-- Every region an evacuation migrates was dirty. -/
theorem evacuate_dirty {fuel : Nat} {e : Evacuation}
    (evacuated : evacuate fuel h arena c gcChunk = .ok e) :
    ∀ p ∈ e.migrated, (h.regions p.1).attr = .dirty := by
  obtain ⟨e₁, looped, _, _, same⟩ := evacuate_effect evacuated
  have start : Evacuation.Inv h ⟨h, arena, gcChunk, []⟩ := ⟨.refl h, by simp⟩
  rw [same]
  exact (evacuateFrom_invariant (fun _ _ _ inv round => inv.round round) start looped).dirty

/-- A dirty region at the head of the list is migrated. -/
theorem evacuate_ne_nil {fuel region : Nat} {e : Evacuation}
    (evacuated : evacuate fuel h arena c gcChunk = .ok e) (head : (h.chunks c).regions = region)
    (nonnull : region ≠ 0) (dirty : (h.regions region).attr = .dirty) : e.migrated ≠ [] := by
  obtain ⟨e₁, looped, _, _, same⟩ := evacuate_effect evacuated
  rw [head] at looped
  cases fuel with
  | zero => cases looped
  | succ fuel =>
      rw [evacuateFrom, if_neg nonnull] at looped
      obtain ⟨e₂, round, looped⟩ := Execution.bind_eq_ok.mp looped
      obtain ⟨chunk, _, rest⟩ := Execution.bind_eq_ok.mp looped
      -- The first round migrates the head, and no later round forgets it.
      have kept : e₂.migrated <+: e₁.migrated := by
        have preserved : ∀ f region f', e₂.migrated <+: f.migrated →
            evacuateRegion f region = .ok f' → e₂.migrated <+: f'.migrated :=
          fun _ _ _ before round => before.trans (evacuateRegion_migrated round)
        exact evacuateFrom_invariant preserved (List.prefix_refl _) rest
      have logged : e₂.migrated ≠ [] := by
        rcases evacuateRegion_effect round with ⟨alive, _⟩ | ⟨_, _, _, _, _, _, _, _, _, log⟩
        · rw [dirty] at alive
          cases alive
        · rw [log]
          simp
      intro empty
      rw [← same, empty] at kept
      exact logged (List.prefix_nil.mp kept)

/-! ## The copies -/

/-- A well-formed log chunk that is retired, is listed, and takes the evacuation path. -/
structure Retired (h : Heap) (arena : Arena) (c : Nat) : Prop where
  listed : ∃ chunks, IsQl h.availLink arena.availChunks chunks ∧ c ∈ chunks ∧
    ∀ d ∈ chunks, ⟨d, .chunk⟩ ∈ h.blocks
  regions : ∃ rs, IsQl h.regionsLink (h.chunks c).regions rs ∧ ∀ r ∈ rs, ⟨r, .region⟩ ∈ h.blocks
  live : (h.chunks c).live = false
  chunktype : (h.chunks c).chunktype = .log
  evacuated : reclaimTest (h.chunks c) = false

/-- The regions an evacuation added are, in list order, one copy of each region of the
chunk that was alive, and no others. -/
structure Evacuation.Copied (h : Heap) (c : Nat) (e : Evacuation) : Prop where
  added : ∀ r, ⟨r, .region⟩ ∈ e.heap.blocks ↔
    ⟨r, .region⟩ ∈ h.blocks ∨ r ∈ e.migrated.map Prod.snd
  source : e.migrated.map Prod.fst =
    (h.regionsOf c).filter (fun r => (h.regions r).attr = .alive)
  copy : ∀ p ∈ e.migrated, (e.heap.regions p.2).attr = .alive ∧
    (e.heap.regions p.2).ptr = (h.regions p.1).ptr ∧
    (e.heap.regions p.2).size = (h.regions p.1).size ∧
    (e.heap.regions p.2).threadid = (h.regions p.1).threadid

/-- `chunk_do_slowgc` completes, and copies what is alive. -/
def Evacuates (h : Heap) (arena : Arena) (c gcChunk : Nat) : Prop :=
  ∃ fuel e, evacuate fuel h arena c gcChunk = .ok e ∧
    chunkDoSlowgc fuel h arena c gcChunk = .ok (e.heap, e.arena) ∧ e.Copied h c

/-- An evacuation that copied what is alive copied nothing of a chunk without regions. -/
theorem Evacuation.Copied.regionsOf_eq {fuel : Nat} {e : Evacuation} (retired : Retired h arena c)
    (evacuated : evacuate fuel h arena c gcChunk = .ok e) (copied : e.Copied h c) :
    h.regionsOf c = [] := by
  obtain ⟨rs, list, isRegion⟩ := retired.regions
  have reads : h.regionsOf c = rs := list.walk_blocks isRegion
  have source := copied.source
  rw [reads] at source ⊢
  have dirty := evacuate_dirty evacuated
  -- Only dirty regions are migrated, so none is, and no region is alive.
  have none : e.migrated = [] := by
    rcases log : e.migrated with _ | ⟨p, rest⟩
    · rfl
    · have member : p ∈ e.migrated := by rw [log]; simp
      have alive : p.1 ∈ rs.filter fun r => (h.regions r).attr = .alive := by
        rw [← source]
        exact List.mem_map_of_mem member
      have isAlive : (h.regions p.1).attr = .alive := by
        simpa using (List.mem_filter.mp alive).2
      rw [dirty p member] at isAlive
      cases isAlive
  rw [none] at source
  cases rs with
  | nil => rfl
  | cons r rest =>
      have notAlive : ¬ (h.regions r).attr = .alive := by
        have absent := List.filter_eq_nil_iff.mp source.symm r (by simp)
        simpa using absent
      have isDirty : (h.regions r).attr = .dirty := by
        cases attr : (h.regions r).attr with
        | alive => exact absurd attr notAlive
        | dirty => rfl
      have head : (h.chunks c).regions = r := list.first_eq
      exact absurd none (evacuate_ne_nil evacuated head (list.nonnull r (by simp)) isDirty)

/-- The evacuation of a chunk without regions completes and migrates nothing. -/
theorem Retired.evacuate_of_nil (retired : Retired h arena c) (empty : h.regionsOf c = [])
    (gcChunk fuel : Nat) : ∃ e, evacuate (fuel + 1) h arena c gcChunk = .ok e ∧
      e.heap.toWorld = h.toWorld ∧ e.migrated = [] := by
  obtain ⟨rs, list, isRegion⟩ := retired.regions
  have reads : h.regionsOf c = rs := list.walk_blocks isRegion
  obtain rfl : rs = [] := reads.symm.trans empty
  obtain ⟨chunks, queue, member, isChunk⟩ := retired.listed
  have head : (h.chunks c).regions = 0 := list.first_eq
  have read : h.getChunk c = .ok (h.chunks c) :=
    getChunk_eq_ok.mpr ⟨⟨queue.nonnull c member, isChunk c member⟩, rfl⟩
  have removed := availRemove_eq_ok.mpr
    ⟨fun n isNode => ⟨queue.nonnull n (queue.mem_of_qlRemoveNodes member isNode),
      isChunk n (queue.mem_of_qlRemoveNodes member isNode)⟩, rfl, rfl⟩
  have looped : evacuateFrom c (fuel + 1) ⟨h, arena, gcChunk, []⟩ (h.chunks c).regions =
      .ok ⟨h, arena, gcChunk, []⟩ := by
    rw [head, evacuateFrom, if_pos rfl]
  exact ⟨_, Execution.bind_eq_ok.mpr ⟨_, read, Execution.bind_eq_ok.mpr
    ⟨_, looped, Execution.bind_eq_ok.mpr ⟨_, removed, rfl⟩⟩⟩, rfl, rfl⟩

/-- The evacuation path is what `chunk_do_slowgc` does with a retired chunk. -/
theorem Retired.chunkDoSlowgc {fuel : Nat} {e : Evacuation} (retired : Retired h arena c)
    (evacuated : evacuate fuel h arena c gcChunk = .ok e) :
    chunkDoSlowgc fuel h arena c gcChunk = .ok (e.heap, e.arena) := by
  obtain ⟨chunk, read, _⟩ := Execution.bind_eq_ok.mp evacuated
  obtain ⟨present, rfl⟩ := getChunk_eq_ok.mp read
  refine Execution.bind_eq_ok.mpr ⟨_, getChunk_eq_ok.mpr ⟨present, rfl⟩, ?_⟩
  rw [if_neg (by simp [retired.evacuated])]
  exact Execution.bind_eq_ok.mpr ⟨_, evacuated, rfl⟩

/-- **Freed regions are saved, live ones are lost.** An evacuation of a well-formed retired
log chunk copies what is alive if and only if the chunk has no regions, and then the
evacuation does complete. -/
theorem evacuates_iff (retired : Retired h arena c) (gcChunk : Nat) :
    (∀ fuel e, evacuate fuel h arena c gcChunk = .ok e →
        (e.Copied h c ↔ h.regionsOf c = [])) ∧
      (Evacuates h arena c gcChunk ↔ h.regionsOf c = []) := by
  have completed : h.regionsOf c = [] → ∀ fuel e, evacuate fuel h arena c gcChunk = .ok e →
      e.Copied h c := by
    intro empty fuel e evacuated
    cases fuel with
    | zero =>
        obtain ⟨_, _, evacuated⟩ := Execution.bind_eq_ok.mp evacuated
        obtain ⟨_, looped, _⟩ := Execution.bind_eq_ok.mp evacuated
        cases looped
    | succ fuel =>
        obtain ⟨e', same, world, none⟩ := retired.evacuate_of_nil empty gcChunk fuel
        obtain rfl : e' = e := Except.ok.inj (same.symm.trans evacuated)
        refine ⟨?_, ?_, by simp [none]⟩
        · rw [world, none]
          simp
        · rw [none, empty]
          rfl
  refine ⟨fun fuel e evacuated => ⟨fun copied => copied.regionsOf_eq retired evacuated,
    fun empty => completed empty fuel e evacuated⟩, ?_, ?_⟩
  · rintro ⟨fuel, e, evacuated, _, copied⟩
    exact copied.regionsOf_eq retired evacuated
  · intro empty
    obtain ⟨e, evacuated, _, _⟩ := retired.evacuate_of_nil empty gcChunk 0
    exact ⟨1, e, evacuated, retired.chunkDoSlowgc evacuated, completed empty 1 e evacuated⟩

/-! ## Retired chunks of a run -/

/-- Once `do_slowgc` has made its GC chunk, a retired chunk of any run that the reclaim
test passes over is there to be evacuated. -/
theorem logRun_retired {h : Heap} {arena : Arena} {ind : Nat} {ops : List LogOp} {s : ArenaState}
    (reached : logRun h arena ind ops = .ok s) {c : Nat}
    (listed : c ∈ s.heap.availList s.arena.availChunks) (live : (s.heap.chunks c).live = false)
    (passed : reclaimTest (s.heap.chunks c) = false) {gcChunk : Nat}
    (allocated : gcAllocChunk s.heap s.arena = .ok (gcChunk, h', arena')) :
    Retired h' arena' c := by
  obtain ⟨logs, regions, accounts⟩ := logRun_accounted reached
  rw [accounts.chunks.availList_eq.1] at listed
  have account := accounts.account c listed
  have grown := accounts.chunks.gcAlloc (List.ne_nil_of_mem listed) allocated
  have extended := gcAllocChunk_extends allocated
  have other : c ≠ gcChunk := by
    rintro rfl
    exact (accounts.chunks.out.gcAlloc allocated).2.1 (List.mem_append_left _ listed)
  obtain ⟨addr, h₁, arena₁, created, _, rfl, rfl⟩ := gcAllocChunk_effect allocated
  have same : h₁.chunks c = s.heap.chunks c := by rw [created.chunks, Function.update_of_ne other]
  refine ⟨⟨_, grown.logRing, List.mem_append_left _ listed, ?_⟩, ⟨regions c, ?_, ?_⟩, ?_, ?_, ?_⟩
  · intro d member
    exact ((grown.out.new d).mp (List.mem_append_left _ member)).1
  · change IsQl h₁.regionsLink (h₁.chunks c).regions (regions c)
    rw [created.regionsLink, same]
    exact account.list
  · exact fun r member => extended.blocks _ (account.isRegion r member)
  · exact (congrArg Chunk.live same).trans live
  · exact (congrArg Chunk.chunktype same).trans account.chunktype
  · exact (congrArg reclaimTest same).trans passed

/-- A chunk with one region alive, in a run of an arena. -/
theorem evacuates_iff_of_alive :
    ∃ s h arena, logRun (.fresh [chunksize] [1024, 2048, 3072, 4096, 5120]) .zeroed 0
        [.regionAlloc 240 0 0, .regionAlloc 4194296 0 0] = .ok s ∧
      gcAllocChunk s.heap s.arena = .ok (5120, h, arena) ∧ Retired h arena 1024 ∧
      (∀ fuel e, evacuate fuel h arena 1024 5120 = .ok e →
        (e.Copied h 1024 ↔ h.regionsOf 1024 = [])) ∧
      (Evacuates h arena 1024 5120 ↔ h.regionsOf 1024 = []) := by
  obtain ⟨s, reached, listed, live, passed, made⟩ : ∃ s, logRun
      (.fresh [chunksize] [1024, 2048, 3072, 4096, 5120]) .zeroed 0
      [.regionAlloc 240 0 0, .regionAlloc 4194296 0 0] = .ok s ∧
      1024 ∈ s.heap.availList s.arena.availChunks ∧ (s.heap.chunks 1024).live = false ∧
      reclaimTest (s.heap.chunks 1024) = false ∧
      (gcAllocChunk s.heap s.arena).toOption.map Prod.fst = some 5120 :=
    Execution.exists_eq_ok_and (by decide +kernel)
  obtain ⟨⟨gc, h, arena⟩, allocated, rfl⟩ : ∃ made, gcAllocChunk s.heap s.arena = .ok made ∧
      made.1 = 5120 := by
    cases result : gcAllocChunk s.heap s.arena with
    | error fault => simp [result, Except.toOption] at made
    | ok made' => simpa [result, Except.toOption] using made
  have retired := logRun_retired reached listed live passed allocated
  exact ⟨s, h, arena, reached, allocated, retired, evacuates_iff retired _⟩

/-- Of a chunk with one region freed and one alive, the freed one is copied and the one
that is alive is not. -/
theorem not_evacuates_of_freed :
    ∃ s h arena e, logRun (.fresh [chunksize] [1024, 2048, 3072, 4096, 5120, 6144, 7168]) .zeroed 0
        [.regionAlloc 240 0 0, .regionAlloc 240 0 0, .regionAlloc 4194296 0 0,
          .dallocLarge 1024 2048] = .ok s ∧
      gcAllocChunk s.heap s.arena = .ok (6144, h, arena) ∧ Retired h arena 1024 ∧
      evacuate 3 h arena 1024 6144 = .ok e ∧ e.migrated = [(2048, 7168)] ∧
      (h.regions 2048).attr = .dirty ∧ (h.regions 3072).attr = .alive ∧
      ¬ e.Copied h 1024 ∧ ¬ Evacuates h arena 1024 6144 := by
  obtain ⟨⟨s, ⟨gc, h, arena⟩, e⟩, ran, listed, live, passed, rfl, log, regions, dirty, alive⟩ :
      ∃ r : ArenaState × (Nat × Heap × Arena) × Evacuation,
        (logRun (.fresh [chunksize] [1024, 2048, 3072, 4096, 5120, 6144, 7168]) .zeroed 0
            [.regionAlloc 240 0 0, .regionAlloc 240 0 0, .regionAlloc 4194296 0 0,
              .dallocLarge 1024 2048] >>= fun s =>
          gcAllocChunk s.heap s.arena >>= fun made =>
          evacuate 3 made.2.1 made.2.2 1024 made.1 >>= fun e => .ok (s, made, e)) = .ok r ∧
        1024 ∈ r.1.heap.availList r.1.arena.availChunks ∧
        (r.1.heap.chunks 1024).live = false ∧ reclaimTest (r.1.heap.chunks 1024) = false ∧
        r.2.1.1 = 6144 ∧ r.2.2.migrated = [(2048, 7168)] ∧
        r.2.1.2.1.regionsOf 1024 = [2048, 3072] ∧
        (r.2.1.2.1.regions 2048).attr = .dirty ∧ (r.2.1.2.1.regions 3072).attr = .alive :=
    Execution.exists_eq_ok_and (by decide +kernel)
  obtain ⟨_, reached, ran⟩ := Execution.bind_eq_ok.mp ran
  obtain ⟨_, allocated, ran⟩ := Execution.bind_eq_ok.mp ran
  obtain ⟨_, evacuated, ran⟩ := Execution.bind_eq_ok.mp ran
  cases ran
  have retired := logRun_retired reached listed live passed allocated
  have nonempty : h.regionsOf 1024 ≠ [] := by rw [regions]; simp
  refine ⟨s, h, arena, e, reached, allocated, retired, evacuated, log, dirty, alive, ?_, ?_⟩
  · exact fun copied => nonempty (copied.regionsOf_eq retired evacuated)
  · rintro ⟨fuel, e', evacuated', _, copied⟩
    exact nonempty (copied.regionsOf_eq retired evacuated')

end Lsmalloc
