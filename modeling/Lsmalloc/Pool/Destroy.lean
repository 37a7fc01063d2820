import Lsmalloc.Pool.Fifo

/-!
# Destroying a pool

`pmempool_destroy` enters the file ring at the latest mapping and loops while the node it
entered at is not the sentinel. It never moves to the next node, and what it unmaps and
removes is named by the sentinel, not by the node. So of a pool that has a mapping, as
every pool does from `pmempool_create` on, it never gives anything back
(`poolTrace_not_destroyed`).
-/

namespace Lsmalloc

/-- What `pmempool_destroy` has done: the process, the addresses it unmapped, and the files it
removed. -/
structure Destruction where
  world : World
  unmapped : List Nat
  removed : List PmemPath

/-- One round of the loop. Both the file and the address are the sentinel's. -/
def destroyRound (pp : Pmempool) (d : Destruction) : Destruction :=
  let str := PmemPath.lspmemfile (pp.fileNo pp.file)
  let w := pmemUnmap d.world (pp.poolPaddr pp.file) pmempoolSize
  let w := { w with pmemConsmp := (w.pmemConsmp + (2 ^ 32 - pmempoolSize)) % 2 ^ 32 }
  ⟨removeFile w str, d.unmapped ++ [pp.poolPaddr pp.file], d.removed ++ [str]⟩

/-- The loop, with `tmp` where it is entered. -/
def destroyLoop (pp : Pmempool) (tmp : Nat) : (fuel : Nat) → Destruction → Except Fault Destruction
  | 0, _ => .error .fuel
  | fuel + 1, d =>
      if pp.fileNo tmp ≠ 0 then destroyLoop pp tmp fuel (destroyRound pp d)
      else .ok d

/-- `pmempool_destroy`, with fuel for the rounds of its loop. -/
def pmempoolDestroy (fuel : Nat) (w : World) (pp : Pmempool) : Except Fault Destruction :=
  let tmp := pp.fileLink.next pp.file
  destroyLoop pp tmp fuel ⟨w, [], []⟩

/-- The names the pool's files were created with, the latest first. -/
def Pmempool.files (pp : Pmempool) : List PmemPath :=
  (pp.fileLink.walk pp.file pp.fileNodes).tail.map fun n => .lspmemfile (pp.fileNo n)

/-- Every mapping of the pool was unmapped once, every file removed once, and nothing else, and
the counter went down by what was unmapped. -/
structure Destruction.Complete (d : Destruction) (w : World) (pp : Pmempool) : Prop where
  unmapped : d.unmapped.Perm pp.mappings
  removed : d.removed.Perm pp.files
  pmemConsmp : (d.world.pmemConsmp + pp.mappings.length * pmempoolSize) % 2 ^ 32 =
    w.pmemConsmp % 2 ^ 32

/-- The pool is destroyed: the loop ends, and has unmapped and removed what is the pool's. -/
def Destroyed (w : World) (pp : Pmempool) : Prop :=
  ∃ fuel d, pmempoolDestroy fuel w pp = .ok d ∧ d.Complete w pp

/-- A loop entered at a node that is not the sentinel does not end. -/
theorem destroyLoop_diverges {pp : Pmempool} {tmp : Nat} (file : pp.fileNo tmp ≠ 0) (fuel : Nat)
    (d : Destruction) : destroyLoop pp tmp fuel d = .error .fuel := by
  induction fuel generalizing d with
  | zero => rfl
  | succ fuel ih => rw [destroyLoop, if_pos file, ih]

/-- A loop entered at a node whose number is `0` ends at once. -/
theorem destroyLoop_of_sentinel {pp : Pmempool} {tmp : Nat} (sentinel : pp.fileNo tmp = 0)
    (fuel : Nat) (d : Destruction) : destroyLoop pp tmp (fuel + 1) d = .ok d := by
  rw [destroyLoop, if_neg (not_not.mpr sentinel)]

/-- A pool that has a mapping is not destroyed. -/
theorem not_destroyed_of_mapping {w : World} {pp : Pmempool} {base : Nat} {maps : List Nat}
    (files : FileRing pp (base :: maps)) : ¬ Destroyed w pp := by
  rintro ⟨fuel, d, ended, complete⟩
  by_cases sentinel : pp.fileNo (pp.fileLink.next pp.file) = 0
  · cases fuel with
    | zero => cases ended
    | succ fuel =>
        -- The counter of files has wrapped: the latest file is taken for the sentinel.
        rw [pmempoolDestroy, destroyLoop_of_sentinel sentinel] at ended
        cases ended
        have lengths := complete.unmapped.length_eq
        rw [files.mappings_eq] at lengths
        cases lengths
  · rw [pmempoolDestroy, destroyLoop_diverges sentinel] at ended
    cases ended

/-- **No pool is destroyed.** Of every pool a run reaches, `pmempool_destroy` does not return,
or, when the number of its latest file has wrapped to `0`, returns at once. -/
theorem poolTrace_not_destroyed {w : World} {pp : Pmempool} {ops : List PoolOp} {s : PoolTrace}
    (reached : poolTrace w pp ops = .ok s) :
    ¬ Destroyed s.world s.pool ∧
      (s.pool.fileNo (s.pool.fileLink.next s.pool.file) ≠ 0 →
        ∀ fuel, pmempoolDestroy fuel s.world s.pool = .error .fuel) ∧
      (s.pool.fileNo (s.pool.fileLink.next s.pool.file) = 0 →
        ∀ fuel, pmempoolDestroy (fuel + 1) s.world s.pool = .ok ⟨s.world, [], []⟩) := by
  obtain ⟨base, maps, files⟩ := (poolTrace_reads reached).files
  exact ⟨not_destroyed_of_mapping files, fun file fuel => destroyLoop_diverges file fuel _,
    fun sentinel fuel => destroyLoop_of_sentinel sentinel fuel _⟩

/-- A pool that has served a chunk and taken it back. -/
theorem poolTrace_not_destroyed_of_free :
    ∃ s, poolTrace (World.fresh [chunksize] []) Pmempool.zeroed
        [.chunkAlloc, .free chunksize] = .ok s ∧
      ¬ Destroyed s.world s.pool ∧
      (s.pool.fileNo (s.pool.fileLink.next s.pool.file) ≠ 0 →
        ∀ fuel, pmempoolDestroy fuel s.world s.pool = .error .fuel) ∧
      (s.pool.fileNo (s.pool.fileLink.next s.pool.file) = 0 →
        ∀ fuel, pmempoolDestroy (fuel + 1) s.world s.pool = .ok ⟨s.world, [], []⟩) := by
  obtain ⟨s, reached⟩ : ∃ s, poolTrace (World.fresh [chunksize] []) Pmempool.zeroed
      [.chunkAlloc, .free chunksize] = .ok s := Execution.exists_eq_ok (by decide +kernel)
  exact ⟨s, reached, poolTrace_not_destroyed reached⟩

/-- A pool that was just created: its one file has the number `1`, and no number of rounds is
enough. -/
theorem not_poolTrace_destroyed :
    ∃ s, poolTrace (World.fresh [chunksize] []) Pmempool.zeroed [] = .ok s ∧
      s.pool.mappings = [chunksize] ∧
      (∀ fuel, pmempoolDestroy fuel s.world s.pool = .error .fuel) ∧
      ¬ Destroyed s.world s.pool := by
  obtain ⟨s, reached, mapping, numbered⟩ :
      ∃ s, poolTrace (World.fresh [chunksize] []) Pmempool.zeroed [] = .ok s ∧
        s.pool.mappings = [chunksize] ∧ s.pool.fileNo (s.pool.fileLink.next s.pool.file) ≠ 0 :=
    Execution.exists_eq_ok_and (by decide +kernel)
  have forever : ∀ fuel, pmempoolDestroy fuel s.world s.pool = .error .fuel := fun fuel =>
    destroyLoop_diverges numbered fuel _
  refine ⟨s, reached, mapping, forever, ?_⟩
  rintro ⟨fuel, d, ended, -⟩
  rw [forever] at ended
  cases ended

end Lsmalloc
