import Lsmalloc.Arena.Chunks
import Lsmalloc.Process.Model

/-!
# The pools of a process

Each arena has a pool of its own, and all pools map files into one address space. The mappings of
different pools are apart, so no two pools ever hand out one chunk.
-/

namespace Lsmalloc

/-- The pools of the arenas, by their indices. -/
def arenaPools (arenas : Nat → Option Arena) (ind : Nat) : Option Pmempool :=
  (arenas ind).map Arena.pool

theorem arenaPools_update (arenas : Nat → Option Arena) (ind : Nat) (arena : Arena) :
    arenaPools (Function.update arenas ind (some arena)) =
      Function.update (arenaPools arenas) ind (some arena.pool) := by
  funext i
  by_cases same : i = ind
  · subst same
    simp [arenaPools]
  · simp [arenaPools, Function.update_of_ne same]

/-- Every pool is in order. The mappings of two pools are apart, and all are clear of what was
mapped before the first. -/
structure PoolsOk (w₀ w : World) (pools : Nat → Option Pmempool) (maps out : Nat → List Nat) :
    Prop where
  each : ∀ ind pp, pools ind = some pp → ∃ free, PoolOk w pp free (maps ind) (out ind)
  apart : ∀ i j pp pp', pools i = some pp → pools j = some pp' → i ≠ j →
    ∀ b ∈ maps i, ∀ c ∈ maps j, (Span.mk b pmempoolSize).Apart ⟨c, pmempoolSize⟩
  clear : ∀ ind pp, pools ind = some pp → Clear w₀ w (maps ind)

/-- The chunk is outstanding in one of the pools. -/
def TakenFrom (pools : Nat → Option Pmempool) (out : Nat → List Nat) (a : Nat) : Prop :=
  ∃ ind pp, pools ind = some pp ∧ a ∈ out ind

variable {w₀ w w' : World} {pools : Nat → Option Pmempool} {maps out : Nat → List Nat}
  {pp pp' : Pmempool} {ind a : Nat}

/-- A chunk of a pool lies in one of its mappings, apart from the mappings of the others. -/
theorem PoolsOk.ne_of_mem (ok : PoolsOk w₀ w pools maps out) {i j b : Nat} {free free' : List Nat}
    {qq : Pmempool} (here : pools i = some pp) (there : pools j = some qq) (different : i ≠ j)
    (pool : PoolOk w pp free (maps i) (out i)) (pool' : PoolOk w qq free' (maps j) (out j))
    (member : a ∈ free ++ out i) (member' : b ∈ free' ++ out j) : a ≠ b := by
  rintro rfl
  obtain ⟨isBase, base, inMaps, within⟩ := pool.chunk member
  obtain ⟨_, base', inMaps', within'⟩ := pool'.chunk member'
  have apart := ok.apart i j pp qq here there different base inMaps base' inMaps'
  have positive : 0 < (chunkSpan a).len := by
    change 0 < chunksize
    decide
  exact (apart.mono₂ within within').start_ne positive positive rfl

/-- Only what is mapped matters. -/
theorem PoolsOk.of_maps (ok : PoolsOk w₀ w pools maps out) (same : w'.maps = w.maps) :
    PoolsOk w₀ w' pools maps out where
  each i qq here := by
    obtain ⟨free, pool⟩ := ok.each i qq here
    exact ⟨free, pool.of_maps same⟩
  apart := ok.apart
  clear i qq here r nonempty mapped := by
    rw [same]
    exact ok.clear i qq here r nonempty mapped

/-- The mappings of a pool after a step: those it had, and those that nothing was mapped in. -/
def PoolsOk.Fresh (w : World) (pools : Nat → Option Pmempool) (maps : Nat → List Nat) (ind : Nat)
    (base : Nat) : Prop :=
  ((pools ind).isSome ∧ base ∈ maps ind) ∨
    ∀ r : Span, 0 < r.len → Mapped w.maps r → r.Apart ⟨base, pmempoolSize⟩

/-- One pool changes, or is made, and what the others have mapped stays. -/
theorem PoolsOk.update {mine taken : List Nat} (ok : PoolsOk w₀ w pools maps out)
    (kept : ∀ r : Span, 0 < r.len → Mapped w.maps r → Mapped w'.maps r)
    (pool : ∃ free, PoolOk w' pp free mine taken)
    (before : ∀ r : Span, 0 < r.len → Mapped w₀.maps r → Mapped w.maps r)
    (fresh : ∀ base ∈ mine, PoolsOk.Fresh w pools maps ind base) :
    PoolsOk w₀ w' (Function.update pools ind (some pp)) (Function.update maps ind mine)
      (Function.update out ind taken) := by
  have positive : 0 < pmempoolSize := by decide
  have others : ∀ j qq, pools j = some qq → j ≠ ind → ∀ base ∈ mine, ∀ c ∈ maps j,
      (Span.mk c pmempoolSize).Apart ⟨base, pmempoolSize⟩ := by
    intro j qq here different base inMine c inMaps
    obtain ⟨_, there⟩ := ok.each j qq here
    rcases fresh base inMine with ⟨had, old⟩ | new
    · obtain ⟨qq', had⟩ := Option.isSome_iff_exists.mp had
      exact ok.apart j ind qq qq' here had different c inMaps base old
    · exact new _ positive (there.mapped c inMaps)
  constructor
  case each =>
    intro j qq here
    by_cases same : j = ind
    · subst same
      rw [Function.update_self] at here
      cases here
      simpa using pool
    · rw [Function.update_of_ne same] at here
      obtain ⟨free, there⟩ := ok.each j qq here
      rw [Function.update_of_ne same, Function.update_of_ne same]
      exact ⟨free, there.mono kept⟩
  case apart =>
    intro i j qq qq' here there different b inMaps c inMaps'
    by_cases sameI : i = ind
    · subst sameI
      have sameJ : j ≠ i := different.symm
      rw [Function.update_self] at inMaps
      rw [Function.update_of_ne sameJ] at there inMaps'
      exact (others j qq' there sameJ b inMaps c inMaps').symm
    · rw [Function.update_of_ne sameI] at here inMaps
      by_cases sameJ : j = ind
      · subst sameJ
        rw [Function.update_self] at inMaps'
        exact others i qq here sameI c inMaps' b inMaps
      · rw [Function.update_of_ne sameJ] at there inMaps'
        exact ok.apart i j qq qq' here there different b inMaps c inMaps'
  case clear =>
    intro j qq here r nonempty mapped
    have still := before r nonempty mapped
    refine ⟨kept r nonempty still, fun base inMaps => ?_⟩
    by_cases same : j = ind
    · subst same
      rw [Function.update_self] at inMaps
      rcases fresh base inMaps with ⟨had, old⟩ | new
      · obtain ⟨qq', had⟩ := Option.isSome_iff_exists.mp had
        exact (ok.clear j qq' had r nonempty mapped).2 base old
      · exact new r nonempty still
    · rw [Function.update_of_ne same] at here inMaps
      exact (ok.clear j qq here r nonempty mapped).2 base inMaps

/-- `pmempool_create` for one more arena. -/
theorem PoolsOk.create (ok : PoolsOk w₀ w pools maps out) (ind : Nat)
    (before : ∀ r : Span, 0 < r.len → Mapped w₀.maps r → Mapped w.maps r)
    (created : pmempoolCreate w pp = .ok (w', pp')) :
    ∃ base, PoolsOk w₀ w' (Function.update pools ind (some pp')) (Function.update maps ind [base])
      (Function.update out ind []) ∧
      ∀ r : Span, 0 < r.len → Mapped w.maps r → Mapped w'.maps r := by
  obtain ⟨base, grows, pool⟩ := PoolOk.create created
  have kept : ∀ r : Span, 0 < r.len → Mapped w.maps r → Mapped w'.maps r :=
    fun r nonempty here => (grows.keeps r nonempty here).1
  refine ⟨base, ok.update kept ⟨_, pool⟩ before ?_, kept⟩
  intro b member
  rw [List.mem_singleton] at member
  subst member
  exact .inr fun r nonempty here => (grows.keeps r nonempty here).2

/-- `pmempool_chunk_alloc` hands out a chunk that is outstanding in no pool. -/
theorem PoolsOk.chunkAlloc (ok : PoolsOk w₀ w pools maps out) (here : pools ind = some pp)
    (before : ∀ r : Span, 0 < r.len → Mapped w₀.maps r → Mapped w.maps r)
    (allocated : pmempoolChunkAlloc w pp = .ok (a, w', pp')) :
    (∃ mine, PoolsOk w₀ w' (Function.update pools ind (some pp')) (Function.update maps ind mine)
      (Function.update out ind (a :: out ind))) ∧
      (∀ r : Span, 0 < r.len → Mapped w.maps r → Mapped w'.maps r) ∧
      IsBase a chunksize ∧ ¬ TakenFrom pools out a := by
  obtain ⟨free, pool⟩ := ok.each ind pp here
  obtain ⟨mine, rest, kept, pool', fresh⟩ : ∃ mine rest,
      (∀ r : Span, 0 < r.len → Mapped w.maps r → Mapped w'.maps r) ∧
        PoolOk w' pp' rest mine (a :: out ind) ∧
        ∀ base ∈ mine, PoolsOk.Fresh w pools maps ind base := by
    rcases pool.chunkAlloc allocated with ⟨rest, _, rfl, pool'⟩ | ⟨base, rest, _, _, grows, pool'⟩
    · exact ⟨maps ind, rest, fun _ _ here => here, pool', fun b member => .inl ⟨by simp [here], member⟩⟩
    · refine ⟨base :: maps ind, rest, fun r nonempty old => (grows.keeps r nonempty old).1, pool', ?_⟩
      intro b member
      rcases List.mem_cons.mp member with rfl | old
      · exact .inr fun r nonempty there => (grows.keeps r nonempty there).2
      · exact .inl ⟨by simp [here], old⟩
  have later : PoolsOk w₀ w' (Function.update pools ind (some pp')) (Function.update maps ind mine)
      (Function.update out ind (a :: out ind)) := ok.update kept ⟨rest, pool'⟩ before fresh
  have isTaken : a ∈ rest ++ a :: out ind := by simp
  refine ⟨⟨mine, later⟩, kept, (pool'.chunk isTaken).1, ?_⟩
  rintro ⟨j, qq, there, member⟩
  by_cases same : j = ind
  · subst same
    exact (List.nodup_cons.mp (List.nodup_append.mp pool'.nodup).2.1).1 member
  · -- The other pool is as it was, and its chunks are none of this one's.
    have now : Function.update pools ind (some pp') ind = some pp' := Function.update_self ..
    have unchanged : Function.update pools ind (some pp') j = some qq := by
      rwa [Function.update_of_ne same]
    obtain ⟨free', other⟩ := later.each j qq unchanged
    have mine' : PoolOk w' pp' rest (Function.update maps ind mine ind)
        (Function.update out ind (a :: out ind) ind) := by
      rwa [Function.update_self, Function.update_self]
    have isTaken' : a ∈ rest ++ Function.update out ind (a :: out ind) ind := by
      rwa [Function.update_self]
    have member' : a ∈ free' ++ Function.update out ind (a :: out ind) j := by
      rw [Function.update_of_ne same]
      exact List.mem_append_right _ member
    exact later.ne_of_mem now unchanged (Ne.symm same) mine' other isTaken' member' rfl

end Lsmalloc
