import Lsmalloc.Arena.Chunks
import Lsmalloc.Gc.Model

/-!
# The chunks of an arena under collection

What each call of the collector does to the descriptors and the queues of an arena:
`gc_alloc_chunk` adds a chunk at the tail of `avail_chunks`, a migration adds none,
and `ql_remove` takes one off the queue and leaves it outstanding.
-/

namespace Lsmalloc

variable {w₀ : World} {h h' : Heap} {arena arena' : Arena} {cs logs slabs : List Nat} {c : Nat}

/-! ## A new GC chunk -/

/-- `gc_alloc_chunk` makes one descriptor, whatever its list fields are. -/
theorem ChunksOut.gcAlloc (out : ChunksOut w₀ h arena cs)
    (allocated : gcAllocChunk h arena = .ok (c, h', arena')) :
    ChunksOut w₀ h' arena' (c :: cs) ∧ c ∉ cs ∧ c ≠ 0 := by
  obtain ⟨addr, h₁, arena₁, created, _, rfl, rfl⟩ := gcAllocChunk_effect allocated
  obtain ⟨paddr, others⟩ := newChunk_paddr created.chunks
  obtain ⟨kept, fresh, _⟩ := out.take created.pool paddr others
  obtain ⟨w, _, new⟩ := created.pool
  exact ⟨⟨kept.pool, kept.old, kept.new, kept.distinct⟩, out.not_mem fresh, new.nonnull⟩

/-- Behind a chunk that is listed already, the new one comes last on `avail_chunks`. -/
theorem ChunksOk.gcAlloc (ok : ChunksOk w₀ h arena logs slabs) (listed : logs ≠ [])
    (allocated : gcAllocChunk h arena = .ok (c, h', arena')) :
    ChunksOk w₀ h' arena' (logs ++ [c]) slabs := by
  obtain ⟨out, absent, nonnull⟩ := ok.out.gcAlloc allocated
  obtain ⟨addr, h₁, arena₁, created, _, rfl, rfl⟩ := gcAllocChunk_effect allocated
  simp only [List.mem_append, not_or] at absent
  have apart := (List.nodup_append.mp ok.out.distinct).2.2
  have perm : (c :: (logs ++ slabs)).Perm (logs ++ [c] ++ slabs) := by
    rw [List.append_assoc]
    exact List.perm_middle.symm
  refine ⟨out.of_perm perm, ok.logRing.tailInsert absent.1 nonnull fun empty => absurd empty listed, ?_⟩
  change IsQl (qlTailInsert h.availLink arena.availChunks c).1 arena₁.availSchunks slabs
  rw [created.others]
  refine ok.slabRing.congr fun x member => ok.logRing.tailInsert_other ?_ ?_
  · exact fun inLogs => apart x inLogs x member rfl
  · rintro rfl
    exact absent.2 member

/-! ## Evacuation -/

theorem SameChunks.migrate {gcChunk oldregion region : Nat}
    (migrated : gcRegionMigration h gcChunk oldregion = .ok (region, h')) : SameChunks h h' := by
  obtain ⟨w, new, placed⟩ := gcRegionMigration_effect migrated
  exact (SameChunks.newBlock new (by decide)).trans placed.sameChunks

/-- A round of the evacuation at most adds a chunk at the tail. -/
theorem ChunksOk.evacuateRegion {e e' : Evacuation} {region : Nat}
    (ok : ChunksOk w₀ e.heap e.arena logs slabs) (listed : logs ≠ [])
    (evacuated : evacuateRegion e region = .ok e') :
    ∃ logs', ChunksOk w₀ e'.heap e'.arena logs' slabs ∧ logs <+: logs' := by
  rcases evacuateRegion_effect evacuated with
    ⟨_, rfl⟩ | ⟨_, gcChunk, h₁, arena₁, new, chosen, migrated, same, _, _⟩
  · exact ⟨logs, ok, List.prefix_refl _⟩
  · have moved : SameChunks h₁ e'.heap := .migrate migrated
    rcases chosen with ⟨rfl, rfl, _⟩ | allocated
    · exact ⟨logs, ok.of_same moved (by rw [same]) (by rw [same]) (by rw [same]), List.prefix_refl _⟩
    · have grown := ok.gcAlloc listed allocated
      exact ⟨logs ++ [gcChunk], grown.of_same moved (by rw [same]) (by rw [same]) (by rw [same]),
        List.prefix_append _ _⟩

/-- The loop at most adds chunks at the tail. -/
theorem ChunksOk.evacuateFrom {e e' : Evacuation} {fuel region : Nat}
    (ok : ChunksOk w₀ e.heap e.arena logs slabs) (listed : logs ≠ [])
    (evacuated : evacuateFrom c fuel e region = .ok e') :
    ∃ logs', ChunksOk w₀ e'.heap e'.arena logs' slabs ∧ logs <+: logs' := by
  have preserved : ∀ e region e',
      (∃ logs', ChunksOk w₀ e.heap e.arena logs' slabs ∧ logs <+: logs') →
      Lsmalloc.evacuateRegion e region = .ok e' →
      ∃ logs', ChunksOk w₀ e'.heap e'.arena logs' slabs ∧ logs <+: logs' := by
    rintro e region e' ⟨logs', kept, grown⟩ round
    have still : logs' ≠ [] := by
      rintro rfl
      exact listed (List.prefix_nil.mp grown)
    obtain ⟨logs'', later, grown'⟩ := kept.evacuateRegion still round
    exact ⟨logs'', later, grown.trans grown'⟩
  exact evacuateFrom_invariant preserved ⟨logs, ok, List.prefix_refl _⟩ evacuated

/-! ## Unlinking -/

/-- `ql_remove` of a chunk takes it off `avail_chunks`; the pool still counts it. -/
theorem ChunksOk.unlink (ok : ChunksOk w₀ h arena logs slabs) (member : c ∈ logs) :
    IsQl (qlRemove h.availLink arena.availChunks c).1
        (qlRemove h.availLink arena.availChunks c).2 (logs.erase c) ∧
      IsQl (qlRemove h.availLink arena.availChunks c).1 arena.availSchunks slabs := by
  refine ⟨ok.logRing.remove member, ok.slabRing.congr fun x inSlabs => ?_⟩
  have apart := (List.nodup_append.mp ok.out.distinct).2.2
  exact ok.logRing.remove_other member fun inLogs => apart x inLogs x inSlabs rfl

end Lsmalloc
