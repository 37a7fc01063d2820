import Lsmalloc.Arena.Run
import Lsmalloc.Process.Stores

/-!
# What a free leaves undone

`markFreed` is what the bookkeeping of a freed block should become: its region dirty and
counted in the `dirtysize` of its chunk, or its slab dirty. Every block of a run is marked as
outstanding until it is freed, but `idalloct` passes the base of the chunk in PMEM where
`arena_dalloc` expects the descriptor in DRAM, so `lsfree` reaches no descriptor and marks
nothing, in whatever state and for whatever block.
-/

namespace Lsmalloc

variable {p : Process} {q c : Nat}

/-- The process once the block `q` of the chunk `c` is marked as freed. -/
def markFreed (p : Process) (q c : Nat) : Process :=
  match (p.heap.chunks c).chunktype with
  | .log =>
      let region := p.heap.pmem.loadWord (szSub q sizeofPregion) sizeofPregion
      let r := p.heap.regions region
      let h := p.heap.putRegion region { r with attr := .dirty }
      { p with heap := h.putChunk c { p.heap.chunks c with
          dirtysize := szAdd (p.heap.chunks c).dirtysize r.size } }
  | .slab =>
      { p with heap := { p.heap with
          pmem := p.heap.pmem.storeWord (szAdd (szSub q sizeofPslab) 8) 1 slabDirty.toNat } }
  | _ => p

/-- The bookkeeping of the block `q` of the chunk `c` says that it is not freed. -/
def Outstanding (h : Heap) (q c : Nat) : Prop :=
  ((h.chunks c).chunktype = .log →
    (h.regions (h.pmem.loadWord (szSub q sizeofPregion) sizeofPregion)).attr = .alive) ∧
  ((h.chunks c).chunktype = .slab → h.pmem (szAdd (szSub q sizeofPslab) 8) = slabClean) ∧
  ((h.chunks c).chunktype = .log ∨ (h.chunks c).chunktype = .slab)

instance (h : Heap) (q c : Nat) : Decidable (Outstanding h q c) :=
  inferInstanceAs (Decidable (_ ∧ _ ∧ _))

/-- `lsfree(q)` takes the way of `arena_dalloc`, with the descriptor `c` of the chunk that
holds `q`, and marks exactly that block. -/
structure FreeUndoes (p : Process) (q c : Nat) : Prop where
  notHuge : idalloctChunk q ≠ q
  reaches : idalloctChunk q = c
  marks : lsfree p q = .ok (markFreed p q c)

/-- The bookkeeping of every block of a run says that the block is not freed. -/
theorem processRun_outstanding {heap : Heap} {garbage : Nat → Arena} {nprocessors : Int}
    {ops : List ProcessOp} {s : ProcessRun} {b : Span}
    (reached : processRun heap garbage nprocessors ops = .ok s) (live : b ∈ s.live) :
    ∃ c, Described s.heap b.start c ∧ chunkAddr2base b.start ≠ b.start ∧
      Outstanding s.heap b.start c := by
  obtain ⟨c, described, behind, slab⟩ := ((processRun_inv reached).2 b live).described
  have notLog : (s.heap.chunks c).chunktype ≠ .log := by
    rw [slab]
    decide
  have clean := processRun_clean reached b live
  exact ⟨c, described, behind, fun log => absurd log notLog, fun _ => clean, .inr slab⟩

/-- The mark of a block that was outstanding shows. -/
theorem Outstanding.markFreed_ne (outstanding : Outstanding p.heap q c) :
    (markFreed p q c).heap ≠ p.heap := by
  intro same
  obtain ⟨alive, clean, chunktype | chunktype⟩ := outstanding
  · have marked : ((markFreed p q c).heap.regions
        (p.heap.pmem.loadWord (szSub q sizeofPregion) sizeofPregion)).attr = .dirty := by
      simp only [markFreed, chunktype, Heap.putChunk, Heap.putRegion, Function.update_self]
    rw [same, alive chunktype] at marked
    cases marked
  · have marked : (markFreed p q c).heap.pmem (szAdd (szSub q sizeofPslab) 8) =
        UInt8.ofNat slabDirty.toNat := by
      simp only [markFreed, chunktype]
      exact Memory.storeWord_first _ _ 0 _
    rw [same, clean chunktype] at marked
    exact absurd marked (by decide)

/-- What holds of a free in any state: no descriptor is reached, and nothing changes. -/
theorem Described.lsfree_unmarked (described : Described p.heap q c)
    (behind : chunkAddr2base q ≠ q) :
    ¬ FreeUndoes p q c ∧ lsfree p q = .ok p ∧
      (Outstanding p.heap q c → lsfree p q ≠ .ok (markFreed p q c)) := by
  have inert := described.lsfree_inert behind
  refine ⟨fun undoes => described.base_ne described.isChunk undoes.reaches, inert, ?_⟩
  intro outstanding marked
  rw [inert] at marked
  exact outstanding.markFreed_ne (congrArg Process.heap (Except.ok.inj marked)).symm

/-- **A free undoes nothing.** Every block that a run has returned is behind the header of a
chunk and marked as outstanding, and the free of any such block, of a log chunk too, does nothing
in any state. -/
theorem not_freeUndoes (p : Process) (q : Nat) :
    (∀ heap garbage nprocessors ops live,
      processRun heap garbage nprocessors ops = .ok ⟨p, live⟩ → q ∈ live.map Span.start →
        ∃ c, Described p.heap q c ∧ chunkAddr2base q ≠ q ∧ Outstanding p.heap q c) ∧
    ∀ c, Described p.heap q c → chunkAddr2base q ≠ q →
      ¬ FreeUndoes p q c ∧ lsfree p q = .ok p ∧
        (Outstanding p.heap q c → lsfree p q ≠ .ok (markFreed p q c)) := by
  refine ⟨?_, fun c described behind => described.lsfree_unmarked behind⟩
  intro heap garbage nprocessors ops live reached returned
  obtain ⟨b, member, rfl⟩ := List.mem_map.mp returned
  exact processRun_outstanding reached member

/-- The theorem at a small block of a run, and at a large block of an arena that was given
a log chunk. -/
theorem not_freeUndoes_of_blocks :
    (∃ p live c, processRun (.fresh [chunksize] [1024, 2048]) (fun _ => .zeroed) 1
        [.lsmalloc 0 100 0 0] = .ok ⟨p, live⟩ ∧ 4194336 ∈ live.map Span.start ∧
        Described p.heap 4194336 c ∧ Outstanding p.heap 4194336 c ∧
        ¬ FreeUndoes p 4194336 c ∧ lsfree p 4194336 = .ok p ∧
        lsfree p 4194336 ≠ .ok (markFreed p 4194336 c)) ∧
      ∃ s, arenaRun (.fresh [chunksize] [1024, 2048]) .zeroed 0 [.malloc 300 0 0] = .ok s ∧
        lsfree (.loaded s.heap (fun _ => .zeroed) 1) 4194320 ≠
          .ok (markFreed (.loaded s.heap (fun _ => .zeroed) 1) 4194320 1024) := by
  obtain ⟨⟨p, live⟩, reached, member⟩ :
      ∃ s, processRun (.fresh [chunksize] [1024, 2048]) (fun _ => .zeroed) 1
          [.lsmalloc 0 100 0 0] = .ok s ∧ 4194336 ∈ s.live.map Span.start :=
    Execution.exists_eq_ok_and (by decide +kernel)
  obtain ⟨t, large, described, outstanding⟩ :
      ∃ t, arenaRun (.fresh [chunksize] [1024, 2048]) .zeroed 0 [.malloc 300 0 0] = .ok t ∧
        Described t.heap 4194320 1024 ∧ Outstanding t.heap 4194320 1024 :=
    Execution.exists_eq_ok_and (by decide +kernel)
  refine ⟨?_, t, large, ?_⟩
  · obtain ⟨c, described, behind, outstanding⟩ :=
      (not_freeUndoes p 4194336).1 _ _ _ _ live reached member
    obtain ⟨notUndone, inert, notMarked⟩ := (not_freeUndoes p 4194336).2 c described behind
    exact ⟨p, live, c, reached, member, described, outstanding, notUndone, inert,
      notMarked outstanding⟩
  · exact ((not_freeUndoes (.loaded t.heap (fun _ => .zeroed) 1) 4194320).2 1024 described
      (by decide)).2.2 outstanding

/-- The first block of 100 bytes is outstanding, and `lsfree` does not undo its allocation. -/
theorem not_freeUndoes_of_first :
    ∃ s, processRun (.fresh [chunksize] [1024, 2048]) (fun _ => .zeroed) 1
        [.lsmalloc 0 100 0 0] = .ok s ∧ ⟨4194336, 100⟩ ∈ s.live ∧ Described s.heap 4194336 2048 ∧
      Outstanding s.heap 4194336 2048 ∧ ¬ FreeUndoes s.toProcess 4194336 2048 ∧
      lsfree s.toProcess 4194336 ≠ .ok (markFreed s.toProcess 4194336 2048) := by
  obtain ⟨s, reached, live, described, outstanding⟩ :
      ∃ s, processRun (.fresh [chunksize] [1024, 2048]) (fun _ => .zeroed) 1
          [.lsmalloc 0 100 0 0] = .ok s ∧ ⟨4194336, 100⟩ ∈ s.live ∧ Described s.heap 4194336 2048 ∧
        Outstanding s.heap 4194336 2048 :=
    Execution.exists_eq_ok_and (by decide +kernel)
  obtain ⟨notUndone, _, notMarked⟩ := described.lsfree_unmarked (by decide)
  exact ⟨s, reached, live, described, outstanding, notUndone, notMarked outstanding⟩

end Lsmalloc
