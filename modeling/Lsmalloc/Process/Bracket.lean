import Lsmalloc.Gc.Evacuation
import Lsmalloc.Process.Run
import Lsmalloc.Support.Bracket

/-!
# Write brackets and migration

`chunk_do_slowgc` migrates the regions of a chunk while it holds the `write_lock` of the
chunk's descriptor, and a user is to write to a block between `lswrite_before` and
`lswrite_after`. These take the base of the chunk in PMEM for the descriptor, so the mutex
they use is some bytes of the chunk, and nothing keeps the collector out.
-/

namespace Lsmalloc

/-- `&chunk->write_lock`. -/
def writeLock (chunk : Nat) : Nat := chunk + offsetofWriteLock

/-- The mutex that `lswrite_before` locks. -/
def lswriteBefore (ptr : Nat) : Nat := writeLock (chunkAddr2base ptr)

/-- The mutex that `lswrite_after` unlocks. -/
def lswriteAfter (ptr : Nat) : Nat := writeLock (chunkAddr2base ptr)

/-- The bytes of a mutex. -/
def mutexSpan (mutex : Nat) : Span := ⟨mutex, sizeofMutex⟩

/-- The thread that writes to a block, and the one that runs `chunk_do_slowgc`. -/
inductive BracketParty
  | user
  | collector
deriving DecidableEq, Repr

/-- A user that writes to the block `b` between its two calls, and a collector that
migrates dirty regions of the chunk `c` between its two. -/
def brackets (b : Span) (c : Nat) : Bracket.System BracketParty Nat Evacuation where
  lock
    | .user => lswriteBefore b.start
    | .collector => writeLock c
  work
    | .user, e, e' => ∃ pmem : Memory,
        (∀ x, x < b.start ∨ b.start + b.len ≤ x → pmem x = e.heap.pmem x) ∧
          e' = { e with heap := { e.heap with pmem := pmem } }
    | .collector, e, e' => ∃ region, (e.heap.regions region).chunk = c ∧
        (e.heap.regions region).attr = .dirty ∧ evacuateRegion e region = .ok e'

/-- The brackets of the block `b` in the chunk `c` use the `write_lock` of `c`, keep the
collector out, and have their mutex clear of every block. -/
structure BracketSafe (e : Evacuation) (live : List Span) (b : Span) (c : Nat) : Prop where
  acquires : lswriteBefore b.start = writeLock c
  releases : lswriteAfter b.start = writeLock c
  excludes : Bracket.Excludes (brackets b c) e .user .collector
  untouched : ∀ other ∈ live, (mutexSpan (lswriteBefore b.start)).Apart other

/-- The mutex of the brackets is not the one of the descriptor. -/
theorem Described.lswriteBefore_ne {h : Heap} {q c : Nat} (described : Described h q c) :
    lswriteBefore q ≠ writeLock c := by
  intro same
  exact described.base_ne described.isChunk (Nat.add_right_cancel same)

/-- **The brackets keep nothing out.** Every block that a run has returned is behind the
header of a chunk. The brackets of any such block, of a log chunk too, use another mutex than
the collector, which can do each of its migrations between the user's two calls. -/
theorem not_bracketSafe (e : Evacuation) (b : Span) :
    (∀ heap garbage nprocessors ops p live,
      processRun heap garbage nprocessors ops = .ok ⟨p, live⟩ → p.heap = e.heap → b ∈ live →
        ∃ c, Described e.heap b.start c) ∧
    ∀ c, Described e.heap b.start c →
      (∀ live, ¬ BracketSafe e live b c) ∧
      lswriteBefore b.start ≠ writeLock c ∧ lswriteAfter b.start ≠ writeLock c ∧
      ¬ Bracket.Excludes (brackets b c) e .user .collector ∧
      ∀ e', (brackets b c).work .collector e e' →
        ∃ s, Bracket.Reaches (brackets b c) e s ∧ s.inside .user = true ∧ s.data = e ∧
          Bracket.Step (brackets b c) s { s with data := e' } := by
  constructor
  · intro heap garbage nprocessors ops p live reached same member
    obtain ⟨c, described, _⟩ := ((processRun_inv reached).2 b member).described
    exact ⟨c, same ▸ described⟩
  · intro c described
    have mutexes := described.lswriteBefore_ne
    have different : (brackets b c).lock .user ≠ (brackets b c).lock .collector := mutexes
    refine ⟨fun _ safe => mutexes safe.acquires, mutexes, mutexes, ?_, ?_⟩
    · intro excludes
      exact different ((Bracket.excludes_iff (by decide) e).mp excludes)
    · intro e' migrates
      exact Bracket.exists_work_inside different migrates

/-- The theorem at a small block of a run, and at a block of a log chunk, of which another
region is migrated between the two calls. -/
theorem not_bracketSafe_of_blocks :
    (∃ p live c, processRun (.fresh [chunksize] [1024, 2048]) (fun _ => .zeroed) 1
        [.lsmalloc 0 100 0 0] = .ok ⟨p, live⟩ ∧ ⟨4194336, 100⟩ ∈ live ∧
        Described p.heap 4194336 c ∧
        ¬ BracketSafe ⟨p.heap, .zeroed, 0, []⟩ live ⟨4194336, 100⟩ c) ∧
      ∃ s h arena e', logRun (.fresh [chunksize] [1024, 2048, 3072, 4096, 5120, 6144, 7168]) .zeroed 0
          [.regionAlloc 240 0 0, .regionAlloc 240 0 0, .regionAlloc 4194296 0 0,
            .dallocLarge 1024 2048] = .ok s ∧
        gcAllocChunk s.heap s.arena = .ok (6144, h, arena) ∧ e'.migrated = [(2048, 7168)] ∧
        ∃ state, Bracket.Reaches (brackets ⟨4194560, 232⟩ 1024) ⟨h, arena, 6144, []⟩ state ∧
          state.inside .user = true ∧ state.data = ⟨h, arena, 6144, []⟩ ∧
          Bracket.Step (brackets ⟨4194560, 232⟩ 1024) state { state with data := e' } := by
  obtain ⟨⟨p, live⟩, reached, member⟩ :
      ∃ s, processRun (.fresh [chunksize] [1024, 2048]) (fun _ => .zeroed) 1
          [.lsmalloc 0 100 0 0] = .ok s ∧ ⟨4194336, 100⟩ ∈ s.live :=
    Execution.exists_eq_ok_and (by decide +kernel)
  obtain ⟨described, broken⟩ := not_bracketSafe ⟨p.heap, .zeroed, 0, []⟩ ⟨4194336, 100⟩
  obtain ⟨c, isDescribed⟩ := described _ _ _ _ p live reached rfl member
  refine ⟨⟨p, live, c, reached, member, isDescribed, (broken c isDescribed).1 live⟩, ?_⟩
  obtain ⟨⟨t, ⟨gc, h, arena⟩, e'⟩, ran, rfl, log, inChunk, owner, dirty⟩ :
      ∃ r : ArenaState × (Nat × Heap × Arena) × Evacuation,
        (logRun (.fresh [chunksize] [1024, 2048, 3072, 4096, 5120, 6144, 7168]) .zeroed 0
            [.regionAlloc 240 0 0, .regionAlloc 240 0 0, .regionAlloc 4194296 0 0,
              .dallocLarge 1024 2048] >>= fun s =>
          gcAllocChunk s.heap s.arena >>= fun made =>
          evacuateRegion ⟨made.2.1, made.2.2, made.1, []⟩ 2048 >>= fun e => .ok (s, made, e)) = .ok r ∧
        r.2.1.1 = 6144 ∧ r.2.2.migrated = [(2048, 7168)] ∧ Described r.2.1.2.1 4194560 1024 ∧
        (r.2.1.2.1.regions 2048).chunk = 1024 ∧ (r.2.1.2.1.regions 2048).attr = .dirty :=
    Execution.exists_eq_ok_and (by decide +kernel)
  obtain ⟨_, logged, ran⟩ := Execution.bind_eq_ok.mp ran
  obtain ⟨_, allocated, ran⟩ := Execution.bind_eq_ok.mp ran
  obtain ⟨_, migrated, ran⟩ := Execution.bind_eq_ok.mp ran
  cases ran
  obtain ⟨_, _, _, _, between⟩ :=
    (not_bracketSafe ⟨h, arena, 6144, []⟩ ⟨4194560, 232⟩).2 1024 inChunk
  exact ⟨t, h, arena, e', logged, allocated, log, between e' ⟨2048, owner, dirty, migrated⟩⟩

/-- The first block of 100 bytes: `lswrite_before` locks bytes of the block itself, and not
the `write_lock` of its chunk. -/
theorem not_bracketSafe_of_first :
    ∃ s, processRun (.fresh [chunksize] [1024, 2048]) (fun _ => .zeroed) 1
        [.lsmalloc 0 100 0 0] = .ok s ∧ ⟨4194336, 100⟩ ∈ s.live ∧
      Described s.heap 4194336 2048 ∧ ¬ (mutexSpan (lswriteBefore 4194336)).Apart ⟨4194336, 100⟩ ∧
      ∀ e : Evacuation, e.heap = s.heap → ¬ BracketSafe e s.live ⟨4194336, 100⟩ 2048 := by
  obtain ⟨s, reached, live, described⟩ :
      ∃ s, processRun (.fresh [chunksize] [1024, 2048]) (fun _ => .zeroed) 1
          [.lsmalloc 0 100 0 0] = .ok s ∧ ⟨4194336, 100⟩ ∈ s.live ∧ Described s.heap 4194336 2048 :=
    Execution.exists_eq_ok_and (by decide +kernel)
  exact ⟨s, reached, live, described, by decide,
    fun _ _ safe => described.lswriteBefore_ne safe.acquires⟩

end Lsmalloc
