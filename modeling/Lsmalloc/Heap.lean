import Lsmalloc.Gc.Trigger
import Lsmalloc.Support.Memory

/-!
# Descriptors in DRAM, payloads in PMEM

The program's memory: one map from addresses to fields for each descriptor type,
the link fields beside them, and the bytes of PMEM. Following a pointer is checked,
so a step that follows `NULL` or a pointer to no live object ends the run. The
fields of an object that `malloc` has just returned are whatever the map held
before, which no theorem restricts.
-/

namespace Lsmalloc

/-- What the `chunktype` of a descriptor may hold: `CHUNK_TYPE_SLAB`, `CHUNK_TYPE_LOG`,
`CHUNK_TYPE_GC`, or a byte that was stored there as part of something else. -/
inductive ChunkType
  | slab
  | log
  | gc
  | other (char : UInt8)
deriving DecidableEq, Repr

/-- The `char` a chunk type is stored as. -/
def ChunkType.char : ChunkType → UInt8
  | .slab => 0x73
  | .log => 0x6c
  | .gc => 0x67
  | .other char => char

/-- What a stored `char` is taken for when it is compared with the chunk types. -/
def ChunkType.ofChar (char : UInt8) : ChunkType :=
  if char = ChunkType.slab.char then .slab
  else if char = ChunkType.log.char then .log
  else if char = ChunkType.gc.char then .gc
  else .other char

theorem ChunkType.char_ofChar (char : UInt8) : (ChunkType.ofChar char).char = char := by
  unfold ChunkType.ofChar
  split
  · rename_i same
    exact same.symm
  · split
    · rename_i same
      exact same.symm
    · split
      · rename_i same
        exact same.symm
      · rfl

/-- `REGION_ALIVE` and `REGION_DIRTY`. -/
inductive RegionAttr
  | alive
  | dirty
deriving DecidableEq, Repr

/-- `SLAB_CLEAN`, the `char` of an allocated slab. -/
def slabClean : UInt8 := 0x63

/-- `SLAB_DIRTY`, the `char` of a freed slab. -/
def slabDirty : UInt8 := 0x64

/-- `chunk_t`, its list and lock fields apart. `regions` is `regions.qlh_first`. -/
structure Chunk where
  chunktype : ChunkType
  regions : Nat
  arena : Nat
  tail : Nat
  paddr : Nat
  availsize : Nat
  dirtysize : Nat
  live : Bool
  gcing : Bool
deriving DecidableEq, Repr

/-- `region_t`, its list field apart. -/
structure Region where
  attr : RegionAttr
  threadid : Nat
  size : Nat
  ptr : Nat
  paddr : Nat
  chunk : Nat
deriving DecidableEq, Repr

/-- `sregion_t`. -/
structure Sregion where
  size : Nat
  paddr : Nat
  ptail : Nat
deriving DecidableEq, Repr

/-- The process with its memory and the collector's thread pool. -/
structure Heap extends World where
  pmem : Memory
  chunks : Nat → Chunk
  regions : Nat → Region
  sregions : Nat → Sregion
  /-- The `avail_link` fields of the `chunk_t` objects. -/
  availLink : Links Nat
  /-- The `regions_link` fields of the `region_t` objects. -/
  regionsLink : Links Nat
  tpool : List GcJob

/-- The memory of a fresh process, all of it zero. -/
def Heap.fresh (mapAnswers mallocAnswers : List Nat) : Heap where
  toWorld := .fresh mapAnswers mallocAnswers
  pmem := fun _ => 0
  chunks := fun _ => ⟨.other 0, 0, 0, 0, 0, 0, 0, false, false⟩
  regions := fun _ => ⟨.alive, 0, 0, 0, 0, 0⟩
  sregions := fun _ => ⟨0, 0, 0⟩
  availLink := ⟨fun _ => 0, fun _ => 0⟩
  regionsLink := ⟨fun _ => 0, fun _ => 0⟩
  tpool := []

/-! ## Following pointers -/

/-- Follow a pointer to an object of the given type. -/
def Heap.deref (h : Heap) (object : Object) (p : Nat) : Except Fault Unit :=
  if p = 0 then .error .null
  else if ⟨p, object⟩ ∈ h.blocks then .ok ()
  else .error .wild

/-- Follow several pointers, in order. -/
def Heap.derefAll (h : Heap) (object : Object) : List Nat → Except Fault Unit
  | [] => .ok ()
  | p :: ps => do
      h.deref object p
      h.derefAll object ps

/-- Follow a pointer to bytes of PMEM. -/
def Heap.derefPmem (h : Heap) (p width : Nat) : Except Fault Unit :=
  if p = 0 then .error .null
  else if Mapped h.maps ⟨p, width⟩ then .ok ()
  else .error .wild

/-- Read a chunk descriptor. -/
def Heap.getChunk (h : Heap) (p : Nat) : Except Fault Chunk := do
  h.deref .chunk p
  .ok (h.chunks p)

/-- Read a region descriptor. -/
def Heap.getRegion (h : Heap) (p : Nat) : Except Fault Region := do
  h.deref .region p
  .ok (h.regions p)

/-- Read an sregion descriptor. -/
def Heap.getSregion (h : Heap) (p : Nat) : Except Fault Sregion := do
  h.deref .sregion p
  .ok (h.sregions p)

/-- Write the fields of a chunk descriptor that has been followed. -/
def Heap.putChunk (h : Heap) (p : Nat) (chunk : Chunk) : Heap :=
  { h with chunks := Function.update h.chunks p chunk }

/-- Write the fields of a region descriptor that has been followed. -/
def Heap.putRegion (h : Heap) (p : Nat) (region : Region) : Heap :=
  { h with regions := Function.update h.regions p region }

/-- Write the fields of an sregion descriptor that has been followed. -/
def Heap.putSregion (h : Heap) (p : Nat) (sregion : Sregion) : Heap :=
  { h with sregions := Function.update h.sregions p sregion }

/-- Load the word of PMEM a pointer points at. -/
def Heap.loadPmem (h : Heap) (p width : Nat) : Except Fault Nat := do
  h.derefPmem p width
  .ok (h.pmem.loadWord p width)

/-- Store a word of PMEM where a pointer points. -/
def Heap.storePmem (h : Heap) (p width value : Nat) : Except Fault Heap := do
  h.derefPmem p width
  .ok { h with pmem := h.pmem.storeWord p width value }

/-! ## Queues of descriptors -/

/-- The nodes an insertion at either end of a queue follows. -/
def qlInsertNodes (links : Links Nat) (first : Nat) : List Nat :=
  if first = 0 then [] else [first, links.prev first]

/-- The nodes a removal from a queue follows. -/
def qlRemoveNodes (links : Links Nat) (first elm : Nat) : List Nat :=
  let first := if first = elm then links.next first else first
  if first = elm then [elm] else [elm, links.prev elm, links.next elm]

/-- `ql_elm_new(chunk, avail_link)`. -/
def Heap.availElmNew (h : Heap) (elm : Nat) : Heap :=
  { h with availLink := qrNew h.availLink elm }

/-- `ql_head_insert(.., chunk, avail_link)`. -/
def Heap.availHeadInsert (h : Heap) (first elm : Nat) : Except Fault (Nat × Heap) := do
  h.derefAll .chunk (qlInsertNodes h.availLink first)
  let (links, first) := qlHeadInsert h.availLink first elm
  .ok (first, { h with availLink := links })

/-- `ql_tail_insert(.., chunk, avail_link)`. -/
def Heap.availTailInsert (h : Heap) (first elm : Nat) : Except Fault (Nat × Heap) := do
  h.derefAll .chunk (qlInsertNodes h.availLink first)
  let (links, first) := qlTailInsert h.availLink first elm
  .ok (first, { h with availLink := links })

/-- `ql_remove(.., chunk, avail_link)`. -/
def Heap.availRemove (h : Heap) (first elm : Nat) : Except Fault (Nat × Heap) := do
  h.derefAll .chunk (qlRemoveNodes h.availLink first elm)
  let (links, first) := qlRemove h.availLink first elm
  .ok (first, { h with availLink := links })

/-- `ql_elm_new(region, regions_link)`. -/
def Heap.regionsElmNew (h : Heap) (elm : Nat) : Heap :=
  { h with regionsLink := qrNew h.regionsLink elm }

/-- `ql_tail_insert(.., region, regions_link)`. -/
def Heap.regionsTailInsert (h : Heap) (first elm : Nat) : Except Fault (Nat × Heap) := do
  h.derefAll .region (qlInsertNodes h.regionsLink first)
  let (links, first) := qlTailInsert h.regionsLink first elm
  .ok (first, { h with regionsLink := links })

/-! ## What the checked accesses say -/

variable {h h' : Heap} {object : Object} {p q first elm width value : Nat}

theorem deref_eq_ok {u : Unit} :
    h.deref object p = .ok u ↔ p ≠ 0 ∧ ⟨p, object⟩ ∈ h.blocks := by
  unfold Heap.deref
  split
  · simp_all
  · split <;> simp_all

theorem derefAll_eq_ok {ps : List Nat} {u : Unit} :
    h.derefAll object ps = .ok u ↔ ∀ p ∈ ps, p ≠ 0 ∧ ⟨p, object⟩ ∈ h.blocks := by
  induction ps with
  | nil => simp [Heap.derefAll]
  | cons p ps ih =>
      rw [Heap.derefAll, Execution.bind_eq_ok]
      simp only [deref_eq_ok, ih, List.mem_cons, forall_eq_or_imp, exists_const]

theorem derefPmem_eq_ok {u : Unit} :
    h.derefPmem p width = .ok u ↔ p ≠ 0 ∧ Mapped h.maps ⟨p, width⟩ := by
  unfold Heap.derefPmem
  split
  · simp_all
  · split <;> simp_all

theorem getChunk_eq_ok {c : Chunk} :
    h.getChunk p = .ok c ↔ (p ≠ 0 ∧ ⟨p, .chunk⟩ ∈ h.blocks) ∧ h.chunks p = c := by
  rw [Heap.getChunk, Execution.bind_eq_ok]
  simp [deref_eq_ok]

theorem getRegion_eq_ok {r : Region} :
    h.getRegion p = .ok r ↔ (p ≠ 0 ∧ ⟨p, .region⟩ ∈ h.blocks) ∧ h.regions p = r := by
  rw [Heap.getRegion, Execution.bind_eq_ok]
  simp [deref_eq_ok]

theorem getSregion_eq_ok {s : Sregion} :
    h.getSregion p = .ok s ↔ (p ≠ 0 ∧ ⟨p, .sregion⟩ ∈ h.blocks) ∧ h.sregions p = s := by
  rw [Heap.getSregion, Execution.bind_eq_ok]
  simp [deref_eq_ok]

theorem loadPmem_eq_ok {word : Nat} :
    h.loadPmem p width = .ok word ↔
      (p ≠ 0 ∧ Mapped h.maps ⟨p, width⟩) ∧ h.pmem.loadWord p width = word := by
  rw [Heap.loadPmem, Execution.bind_eq_ok]
  simp [derefPmem_eq_ok]

theorem storePmem_eq_ok :
    h.storePmem p width value = .ok h' ↔
      (p ≠ 0 ∧ Mapped h.maps ⟨p, width⟩) ∧
        { h with pmem := h.pmem.storeWord p width value } = h' := by
  rw [Heap.storePmem, Execution.bind_eq_ok]
  simp only [derefPmem_eq_ok, exists_const, Except.ok.injEq]

theorem availHeadInsert_eq_ok :
    h.availHeadInsert first elm = .ok (q, h') ↔
      (∀ n ∈ qlInsertNodes h.availLink first, n ≠ 0 ∧ ⟨n, .chunk⟩ ∈ h.blocks) ∧
        (qlHeadInsert h.availLink first elm).2 = q ∧
        { h with availLink := (qlHeadInsert h.availLink first elm).1 } = h' := by
  rw [Heap.availHeadInsert, Execution.bind_eq_ok]
  simp only [derefAll_eq_ok, exists_const, Except.ok.injEq, Prod.mk.injEq]

theorem availTailInsert_eq_ok :
    h.availTailInsert first elm = .ok (q, h') ↔
      (∀ n ∈ qlInsertNodes h.availLink first, n ≠ 0 ∧ ⟨n, .chunk⟩ ∈ h.blocks) ∧
        (qlTailInsert h.availLink first elm).2 = q ∧
        { h with availLink := (qlTailInsert h.availLink first elm).1 } = h' := by
  rw [Heap.availTailInsert, Execution.bind_eq_ok]
  simp only [derefAll_eq_ok, exists_const, Except.ok.injEq, Prod.mk.injEq]

theorem availRemove_eq_ok :
    h.availRemove first elm = .ok (q, h') ↔
      (∀ n ∈ qlRemoveNodes h.availLink first elm, n ≠ 0 ∧ ⟨n, .chunk⟩ ∈ h.blocks) ∧
        (qlRemove h.availLink first elm).2 = q ∧
        { h with availLink := (qlRemove h.availLink first elm).1 } = h' := by
  rw [Heap.availRemove, Execution.bind_eq_ok]
  simp only [derefAll_eq_ok, exists_const, Except.ok.injEq, Prod.mk.injEq]

theorem regionsTailInsert_eq_ok :
    h.regionsTailInsert first elm = .ok (q, h') ↔
      (∀ n ∈ qlInsertNodes h.regionsLink first, n ≠ 0 ∧ ⟨n, .region⟩ ∈ h.blocks) ∧
        (qlTailInsert h.regionsLink first elm).2 = q ∧
        { h with regionsLink := (qlTailInsert h.regionsLink first elm).1 } = h' := by
  rw [Heap.regionsTailInsert, Execution.bind_eq_ok]
  simp only [derefAll_eq_ok, exists_const, Except.ok.injEq, Prod.mk.injEq]

/-- A removal follows the element it removes. -/
theorem mem_qlRemoveNodes (links : Links Nat) (first elm : Nat) :
    elm ∈ qlRemoveNodes links first elm := by
  unfold qlRemoveNodes
  generalize (if first = elm then _ else _) = entry
  by_cases single : entry = elm <;> simp [single]

/-- The nodes an insertion follows are elements of the queue. -/
theorem IsQl.mem_of_qlInsertNodes {links : Links Nat} {elms : List Nat}
    (ql : IsQl links first elms) {n : Nat} (member : n ∈ qlInsertNodes links first) : n ∈ elms := by
  cases elms with
  | nil =>
      have empty : first = 0 := ql.first_eq
      simp [qlInsertNodes, empty] at member
  | cons a rest =>
      have entry : first = a := ql.first_eq
      have present : a ≠ 0 := ql.nonnull a (by simp)
      obtain ⟨front, last, ends⟩ : ∃ front last, a :: rest = front ++ [last] :=
        ⟨_, _, (List.dropLast_append_getLast (List.cons_ne_nil a rest)).symm⟩
      have closed := ((ql.ring (by simp)).last_linked ends).2
      rw [qlInsertNodes, entry, if_neg present, closed] at member
      simp only [List.mem_cons, List.not_mem_nil, or_false] at member
      rcases member with rfl | rfl
      · simp
      · rw [ends]
        simp

/-- The nodes a removal of an element follows are elements of the queue. -/
theorem IsQl.mem_of_qlRemoveNodes {links : Links Nat} {elms : List Nat} (ql : IsQl links first elms)
    (inQueue : p ∈ elms) {n : Nat} (member : n ∈ qlRemoveNodes links first p) : n ∈ elms := by
  have ring := ql.ring (List.ne_nil_of_mem inQueue)
  have around : n = p ∨ n = links.prev p ∨ n = links.next p := by
    unfold qlRemoveNodes at member
    generalize (if first = p then links.next first else first) = entry at member
    by_cases single : entry = p
    · simp only [single, if_true, List.mem_singleton] at member
      exact .inl member
    · simpa only [single, if_false, List.mem_cons, List.not_mem_nil, or_false] using member
  rcases around with rfl | rfl | rfl
  · exact inQueue
  · exact ring.prev_mem inQueue
  · exact ring.next_mem inQueue

end Lsmalloc
