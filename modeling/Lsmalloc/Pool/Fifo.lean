import Lsmalloc.Pool.Safety
import Lsmalloc.Support.Fifo

/-!
# The free ring refines a queue

A run of a pool that keeps what it served. Its calls are the events of a `Fifo` on the
addresses of the free ring: `pmempool_free` pushes, `pmempool_chunk_alloc` pops, and an
exhausted pool is refilled with the chunks of a new mapping first
(`PoolTrace.step_simulates`). Any address but `NULL` may be given back here, whether it
was handed out or not: the order of reuse does not depend on it.
-/

namespace Lsmalloc

open Execution (FailsOnly)

/-- A pool, its process, and the addresses it has served, the earliest first. -/
structure PoolTrace where
  world : World
  pool : Pmempool
  served : List Nat

/-- One call. -/
def PoolTrace.step (s : PoolTrace) : PoolOp → Except Fault PoolTrace
  | .chunkAlloc => do
      let (ret, world, pool) ← pmempoolChunkAlloc s.world s.pool
      .ok ⟨world, pool, s.served ++ [ret]⟩
  | .free ptr =>
      if ptr = 0 then .error .contract
      else .ok { s with pool := pmempoolFree s.pool ptr }

/-- `pmempool_create`, then the calls in order. -/
def poolTrace (w : World) (pp : Pmempool) (ops : List PoolOp) : Except Fault PoolTrace := do
  let (world, pool) ← pmempoolCreate w pp
  Execution.run PoolTrace.step ⟨world, pool, []⟩ ops

/-- The rings are well formed, the free ring reads as the queue, and there is a mapping. -/
structure PoolTrace.Reads (s : PoolTrace) (queue : List Nat) : Prop where
  free : FreeRing s.pool queue
  files : ∃ base maps, FileRing s.pool (base :: maps)

/-- What the free ring computes is the queue. -/
theorem PoolTrace.Reads.freeAddrs {s : PoolTrace} {queue : List Nat} (reads : s.Reads queue) :
    s.pool.freeAddrs = queue := reads.free.freeAddrs_eq

/-- Every call is a trace of the queue. -/
theorem PoolTrace.step_simulates {s s' : PoolTrace} {op : PoolOp} {queue : List Nat}
    (reads : s.Reads queue) (stepped : s.step op = .ok s') :
    ∃ events queue', Fifo.Trace queue events queue' ∧ s'.Reads queue' ∧
      s'.served = s.served ++ Fifo.served events := by
  obtain ⟨ring, latest, maps, files⟩ := reads
  cases op with
  | chunkAlloc =>
      obtain ⟨⟨ret, world, pool⟩, allocated, finished⟩ := Execution.bind_eq_ok.mp stepped
      cases finished
      rcases pmempoolChunkAlloc_spec ring allocated with
        ⟨rest, rfl, popped, rfl, keeps, -⟩ | ⟨base, rest, rfl, chunks, popped, -, -, adds, -⟩
      · exact ⟨[.pop ret], rest, .cons (.pop ret) (.nil rest),
          ⟨popped, latest, maps, keeps _ files⟩, by simp [Fifo.Event.served]⟩
      · refine ⟨[.refill (chunksOf base), .pop ret], rest, ?_,
          ⟨popped, base, latest :: maps, adds _ files⟩, by simp [Fifo.Event.served]⟩
        refine .cons (.refill _) ?_
        rw [chunks]
        exact .cons (.pop ret) (.nil rest)
  | free ptr =>
      simp only [PoolTrace.step] at stepped
      split at stepped
      · cases stepped
      · rename_i nonnull
        cases stepped
        exact ⟨[.push ptr], queue ++ [ptr], .cons (.push ptr) (.nil _),
          ⟨ring.free nonnull, latest, maps, files.of_fields rfl rfl rfl rfl⟩,
          by simp [Fifo.Event.served]⟩

/-- A run of calls is a trace of the queue. -/
theorem PoolTrace.run_simulates {s s' : PoolTrace} {ops : List PoolOp} {queue : List Nat}
    (reads : s.Reads queue) (reached : Execution.run PoolTrace.step s ops = .ok s') :
    ∃ events queue', Fifo.Trace queue events queue' ∧ s'.Reads queue' ∧
      s'.served = s.served ++ Fifo.served events :=
  Fifo.Trace.of_run (fun _ _ _ _ reads stepped => PoolTrace.step_simulates reads stepped) reads
    reached

/-- `pmempool_create` leaves a queue to read. -/
theorem poolTrace_reads {w : World} {pp : Pmempool} {ops : List PoolOp} {s : PoolTrace}
    (reached : poolTrace w pp ops = .ok s) : s.Reads s.pool.freeAddrs := by
  obtain ⟨⟨w₀, pp₀⟩, created, ran⟩ := Execution.bind_eq_ok.mp reached
  obtain ⟨base, _, ok⟩ := PoolOk.create created
  have start : PoolTrace.Reads ⟨w₀, pp₀, []⟩ (chunksOf base) := ⟨ok.ring, _, _, ok.files⟩
  obtain ⟨events, queue, _, reads, _⟩ := PoolTrace.run_simulates start ran
  rwa [reads.freeAddrs]

/-- The chunks of a mapping ascend. -/
theorem chunksOf_ascends (base : Nat) : (chunksOf base).Pairwise (· < ·) := by
  refine List.pairwise_map.mpr (List.pairwise_lt_range.imp ?_)
  intro i j below
  rw [chunksize_eq]
  omega

/-- What the order of the free addresses promises. -/
structure PoolFifo (s : PoolTrace) : Prop where
  pops : ∀ a rest, s.pool.freeAddrs = a :: rest → ∃ pool,
    pmempoolChunkAlloc s.world s.pool = .ok (a, s.world, pool) ∧ pool.freeAddrs = rest
  frees : ∀ a, a ≠ 0 → (pmempoolFree s.pool a).freeAddrs = s.pool.freeAddrs ++ [a]
  refills : s.pool.freeAddrs = [] → ∀ ret world pool,
    pmempoolChunkAlloc s.world s.pool = .ok (ret, world, pool) →
    ∃ base, pool.mappings = base :: s.pool.mappings ∧ Mapped world.maps ⟨base, pmempoolSize⟩ ∧
      (chunksOf base).Pairwise (· < ·) ∧ chunksOf base = ret :: pool.freeAddrs
  returns : FailsOnly Fault.FromEnvironment (pmempoolChunkAlloc s.world s.pool)
  refines : ∀ ops s', Execution.run PoolTrace.step s ops = .ok s' →
    ∃ events, Fifo.Trace s.pool.freeAddrs events s'.pool.freeAddrs ∧
      s'.served = s.served ++ Fifo.served events
  waits : ∀ a, a ≠ 0 → ∀ ops s',
    Execution.run PoolTrace.step { s with pool := pmempoolFree s.pool a } ops = .ok s' →
    ∃ later, s'.served = s.served ++ later ∧
      (later <+: s.pool.freeAddrs ∨ s.pool.freeAddrs ++ [a] <+: later)

/-- A front of the queue is served without touching the process. -/
theorem PoolTrace.Reads.pops {s : PoolTrace} {a : Nat} {rest : List Nat}
    (reads : s.Reads (a :: rest)) : ∃ pool,
    pmempoolChunkAlloc s.world s.pool = .ok (a, s.world, pool) ∧ pool.freeAddrs = rest := by
  obtain ⟨front, popped⟩ := reads.free.pop
  have available : s.pool.flLink.next s.pool.flNow ≠ s.pool.flNow := fun exhausted =>
    absurd (reads.free.exhausted_iff.mp exhausted) (by simp)
  refine ⟨(popFree s.pool).2, ?_, popped.freeAddrs_eq⟩
  rw [pmempoolChunkAlloc, if_neg available, ← front]
  rfl

/-- An empty queue is refilled with a new mapping. -/
theorem PoolTrace.Reads.refills {s : PoolTrace} {ret : Nat} {world : World} {pool : Pmempool}
    (reads : s.Reads [])
    (allocated : pmempoolChunkAlloc s.world s.pool = .ok (ret, world, pool)) :
    ∃ base, pool.mappings = base :: s.pool.mappings ∧ Mapped world.maps ⟨base, pmempoolSize⟩ ∧
      (chunksOf base).Pairwise (· < ·) ∧ chunksOf base = ret :: pool.freeAddrs := by
  obtain ⟨latest, maps, files⟩ := reads.files
  rcases pmempoolChunkAlloc_spec reads.free allocated with
    ⟨rest, queued, -⟩ | ⟨base, rest, -, chunks, popped, -, grows, adds, -⟩
  · cases queued
  · refine ⟨base, ?_, grows.mapped, chunksOf_ascends base, ?_⟩
    · rw [files.mappings_eq, (adds _ files).mappings_eq]
    · rw [chunks, popped.freeAddrs_eq]

/-- An address given back waits for everything queued before it. -/
theorem PoolTrace.Reads.waits {s s' : PoolTrace} {a : Nat} {queue : List Nat} {ops : List PoolOp}
    (reads : s.Reads queue) (nonnull : a ≠ 0)
    (reached : Execution.run PoolTrace.step { s with pool := pmempoolFree s.pool a } ops = .ok s') :
    ∃ later, s'.served = s.served ++ later ∧ (later <+: queue ∨ queue ++ [a] <+: later) := by
  obtain ⟨latest, maps, files⟩ := reads.files
  have freed : PoolTrace.Reads { s with pool := pmempoolFree s.pool a } (queue ++ [a]) :=
    ⟨reads.free.free nonnull, latest, maps, files.of_fields rfl rfl rfl rfl⟩
  obtain ⟨events, _, trace, _, logged⟩ := PoolTrace.run_simulates freed reached
  exact ⟨Fifo.served events, logged, trace.waits⟩

/-- **The free ring is a queue.** In every state a pool reaches, allocation takes the front of
the free addresses, freeing appends, an exhausted pool is refilled in ascending order, and
an address given back is served only after all that were free before it. -/
theorem poolTrace_fifo {w : World} {pp : Pmempool} {ops : List PoolOp} {s : PoolTrace}
    (reached : poolTrace w pp ops = .ok s) : PoolFifo s := by
  have reads := poolTrace_reads reached
  constructor
  case pops =>
    intro a rest queued
    rw [queued] at reads
    exact reads.pops
  case frees => exact fun a nonnull => (reads.free.free nonnull).freeAddrs_eq
  case refills =>
    intro empty ret world pool allocated
    rw [empty] at reads
    exact reads.refills allocated
  case returns => exact pmempoolChunkAlloc_failsOnly _ _
  case refines =>
    intro later s' ran
    obtain ⟨events, queue, trace, after, logged⟩ := PoolTrace.run_simulates reads ran
    exact ⟨events, after.freeAddrs ▸ trace, logged⟩
  case waits => exact fun a nonnull later s' ran => reads.waits nonnull ran

/-- A chunk is given back while the cursor is past it, and another is taken. -/
theorem poolTrace_fifo_of_reuse :
    ∃ s, poolTrace (World.fresh [chunksize] []) Pmempool.zeroed
      [.chunkAlloc, .free chunksize, .chunkAlloc] = .ok s ∧ PoolFifo s := by
  obtain ⟨s, reached⟩ : ∃ s, poolTrace (World.fresh [chunksize] []) Pmempool.zeroed
      [.chunkAlloc, .free chunksize, .chunkAlloc] = .ok s :=
    Execution.exists_eq_ok (by decide +kernel)
  exact ⟨s, reached, poolTrace_fifo reached⟩

end Lsmalloc
