import Lsmalloc.Support.Execution
import Lsmalloc.Support.Simulation
import Lsmalloc.Support.Span
import Lsmalloc.Support.Memory
import Lsmalloc.Support.Links
import Lsmalloc.Support.Bracket
import Lsmalloc.Support.Fifo
import Lsmalloc.Support.RedBlack
import Lsmalloc.Support.RedBlack.Insert
import Lsmalloc.Support.RedBlack.Remove
import Lsmalloc.Support.RedBlack.Order
import Lsmalloc.Layout
import Lsmalloc.Queue
import Lsmalloc.World
import Lsmalloc.Rb.Model
import Lsmalloc.Rb.Accessors
import Lsmalloc.Rb.Shows
import Lsmalloc.Rb.Rotate
import Lsmalloc.Rb.Insert
import Lsmalloc.Rb.Remove
import Lsmalloc.Rb.Successor
import Lsmalloc.Rb.Represents
import Lsmalloc.Rb.Lookup
import Lsmalloc.Rb.Iterate
import Lsmalloc.Rb.Run
import Lsmalloc.Pool.Model
import Lsmalloc.Pool.FreeRing
import Lsmalloc.Pool.Growth
import Lsmalloc.Pool.Safety
import Lsmalloc.Pool.Fifo
import Lsmalloc.Pool.Destroy
import Lsmalloc.Gc.Trigger
import Lsmalloc.Heap
import Lsmalloc.Arena.Model
import Lsmalloc.Arena.Effects
import Lsmalloc.Arena.Chunks
import Lsmalloc.Arena.Run
import Lsmalloc.Arena.Layout
import Lsmalloc.Arena.Progress
import Lsmalloc.Arena.NoOverlap
import Lsmalloc.Arena.Accounting
import Lsmalloc.Arena.RegionLinks
import Lsmalloc.Arena.LogChunks
import Lsmalloc.Arena.Slabs
import Lsmalloc.Gc.Evacuation
import Lsmalloc.Gc.Model
import Lsmalloc.Gc.Chunks
import Lsmalloc.Gc.PoolSound
import Lsmalloc.Gc.Leak
import Lsmalloc.Gc.LiveHead
import Lsmalloc.Gc.Shape
import Lsmalloc.Gc.Changes
import Lsmalloc.Gc.Workers
import Lsmalloc.Gc.Exclusive
import Lsmalloc.Gc.Completion
import Lsmalloc.Gc.Sweep
import Lsmalloc.Gc.Visits
import Lsmalloc.Gc.Constructors
import Lsmalloc.Gc.Headers
import Lsmalloc.Gc.QueueRun
import Lsmalloc.Gc.Strayed
import Lsmalloc.Gc.Migration
import Lsmalloc.Gc.Cursor
import Lsmalloc.Gc.Packing
import Lsmalloc.Gc.Reclaim
import Lsmalloc.Huge.Model
import Lsmalloc.Huge.Names
import Lsmalloc.Huge.Run
import Lsmalloc.Huge.Records
import Lsmalloc.Huge.Tree
import Lsmalloc.Huge.Files
import Lsmalloc.Huge.Trim
import Lsmalloc.Huge.Consumption
import Lsmalloc.Process.Model
import Lsmalloc.Process.Arenas
import Lsmalloc.Process.Progress
import Lsmalloc.Process.Run
import Lsmalloc.Process.NullSafe
import Lsmalloc.Process.Free
import Lsmalloc.Process.Bracket
import Lsmalloc.Process.Threads
import Lsmalloc.Process.Pools
import Lsmalloc.Process.NoOverlap
import Lsmalloc.Process.Interleaving
import Lsmalloc.Process.Linearize
import Lsmalloc.Process.Initialize
import Lsmalloc.Process.Oblivious
import Lsmalloc.Base.Mmap
import Lsmalloc.Base.Alloc
import Lsmalloc.Support.Numeral
import Lsmalloc.Util.Convert
import Lsmalloc.Util.Directives
import Lsmalloc.Util.Buffer
