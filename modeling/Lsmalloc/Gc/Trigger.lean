import Lsmalloc.Pool.Safety

/-!
# When the collector is scheduled

`maybe_gc` compares `pmempool_usedpct` with percentages. That function divides
`chunk_used` by `chunk_tot`, two integers, so it is never a percentage: on every
state a pool reaches it is at most `1`, and `maybe_gc` schedules nothing.
-/

namespace Lsmalloc

/-- The work the collector gives to the thread pool, by the arena's index. -/
inductive GcJob
  | fastgcScheduler (arena : Nat)
  | slowgcScheduler (arena : Nat)
deriving DecidableEq, Repr

/-- `maybe_gc`: the thread pool's queue once it returns. -/
def maybeGc (tpool : List GcJob) (arena : Nat) (pool : Pmempool) : List GcJob :=
  let usedpct := pmempoolUsedpct pool
  let tpool := if usedpct ≥ 70 then tpool ++ [.fastgcScheduler arena] else tpool
  if usedpct ≥ 90 then tpool ++ [.slowgcScheduler arena] else tpool

/-- The quotient is at most `1`, so no threshold is ever reached. -/
theorem PoolOk.maybeGc_eq {w : World} {pp : Pmempool} {free maps out : List Nat}
    (ok : PoolOk w pp free maps out) (tpool : List GcJob) (arena : Nat) :
    maybeGc tpool arena pp = tpool := by
  obtain ⟨nonneg, bounded⟩ := ok.counters
  have quotient : pmempoolUsedpct pp ≤ 1 := by
    unfold pmempoolUsedpct
    rw [Int.tdiv_eq_ediv_of_nonneg nonneg]
    rcases Int.lt_or_eq_of_le (Int.le_trans nonneg bounded) with positive | zero
    · exact Int.le_of_lt_add_one (Int.ediv_lt_of_lt_mul positive (by omega))
    · rw [← zero, Int.ediv_zero]
      omega
  have below : ¬ pmempoolUsedpct pp ≥ 70 := by omega
  have below' : ¬ pmempoolUsedpct pp ≥ 90 := by omega
  simp only [maybeGc, if_neg below, if_neg below']

/-- `maybe_gc` schedules the fast collector from 70 percent on and the slow one from
90 percent on. -/
structure GcOnPressure (pp : Pmempool) (arena : Nat) : Prop where
  fast : .fastgcScheduler arena ∈ maybeGc [] arena pp ↔ 100 * pp.chunkUsed ≥ 70 * pp.chunkTot
  slow : .slowgcScheduler arena ∈ maybeGc [] arena pp ↔ 100 * pp.chunkUsed ≥ 90 * pp.chunkTot

/-- **Pressure is never seen.** In every state a pool reaches, the collector is
scheduled as the percentages say exactly when it is not yet due. -/
theorem gcOnPressure_iff {w : World} {pp : Pmempool} {ops : List PoolOp} {s : PoolRun}
    (reached : poolRun w pp ops = .ok s) (arena : Nat) :
    GcOnPressure s.pool arena ↔ 100 * s.pool.chunkUsed < 70 * s.pool.chunkTot := by
  obtain ⟨free, maps, ok⟩ := poolRun_inv reached
  obtain ⟨nonneg, bounded⟩ := ok.counters
  have nothing := ok.maybeGc_eq [] arena
  constructor
  · intro pressure
    have fast := pressure.fast
    simp only [nothing, List.not_mem_nil, false_iff] at fast
    omega
  · intro low
    constructor
    · simp only [nothing, List.not_mem_nil, false_iff]
      omega
    · simp only [nothing, List.not_mem_nil, false_iff]
      omega

/-- A pool with one of its forty chunks in use. -/
theorem gcOnPressure_iff_of_one :
    ∃ s, poolRun (World.fresh [chunksize] []) Pmempool.zeroed [.chunkAlloc] = .ok s ∧
      (GcOnPressure s.pool 0 ↔ 100 * s.pool.chunkUsed < 70 * s.pool.chunkTot) := by
  obtain ⟨s, reached⟩ :
      ∃ s, poolRun (World.fresh [chunksize] []) Pmempool.zeroed [.chunkAlloc] = .ok s :=
    Execution.exists_eq_ok (by decide +kernel)
  exact ⟨s, reached, gcOnPressure_iff reached 0⟩

/-- With 28 of 40 chunks in use the fast collector is due and is not scheduled. -/
theorem not_gcOnPressure_of_twentyEight :
    ∃ s, poolRun (World.fresh [chunksize] []) Pmempool.zeroed
        (List.replicate 28 .chunkAlloc) = .ok s ∧
      s.pool.chunkUsed = 28 ∧ s.pool.chunkTot = 40 ∧ ¬ GcOnPressure s.pool 0 := by
  obtain ⟨⟨w₀, pp₀⟩, created⟩ :
      ∃ started, pmempoolCreate (World.fresh [chunksize] []) Pmempool.zeroed = .ok started :=
    Execution.exists_eq_ok (by decide +kernel)
  obtain ⟨base, _, ok⟩ := PoolOk.create created
  have enough : 28 ≤ (chunksOf base).length := by simp [chunksOf, freelistLen_eq]
  obtain ⟨s, ran, counted, last⟩ := ok.run_chunkAllocs enough
  have used : s.pool.chunkUsed = 28 := by
    rw [last.chunkUsed, counted]
    rfl
  have tot : s.pool.chunkTot = 40 := by
    rw [last.chunkTot, freelistLen_eq]
    rfl
  refine ⟨s, Execution.bind_eq_ok.mpr ⟨_, created, ran⟩, used, tot, ?_⟩
  intro pressure
  have fast := pressure.fast
  rw [last.maybeGc_eq [] 0, used, tot] at fast
  simp at fast

end Lsmalloc
