import Mathlib.Data.List.Basic
import Lsmalloc.Layout
import Lsmalloc.Queue
import Lsmalloc.Support.Execution
import Lsmalloc.Support.Span

/-!
# The process around the allocator

What the allocator asks of its environment: `pmem_map_file`, `pmem_unmap`,
`remove` and `malloc`. The environment answers with addresses it chooses, kept
here as the two lists of answers still to come. An answer its documentation rules
out (a mapping that is not page aligned or meets another mapping, a block that is
not aligned or meets another block) is no answer, so a run on such a list is no
run of the program: it ends with `Fault.contract`.
-/

namespace Lsmalloc

/-- Why a run ends early. -/
inductive Fault
  /-- A field of `NULL` is read or written. -/
  | null
  /-- A pointer to no live object of its type, or an address outside every PMEM
  mapping, is followed. The model does not go on from there. -/
  | wild
  /-- The program called `exit(1)` because a mapping failed. -/
  | exit
  /-- An assertion of the program failed. -/
  | abort
  /-- A loop did not end within its fuel. -/
  | fuel
  /-- The environment or the caller broke its documented contract. -/
  | contract
deriving DecidableEq, Repr

/-- The faults that the environment or the caller ends a run with. -/
def Fault.FromEnvironment (fault : Fault) : Prop := fault = .exit ∨ fault = .contract

/-- The kinds of object `malloc` is asked for whose addresses the program uses. -/
inductive Object
  | chunk
  | region
  | sregion
deriving DecidableEq, Repr

/-- `sizeof` the object. -/
def Object.size : Object → Nat
  | .chunk => sizeofChunk
  | .region => sizeofRegion
  | .sregion => sizeofSregion

theorem Object.size_pos (object : Object) : 0 < object.size := by
  cases object <;> decide

/-- An object in DRAM. -/
structure Block where
  addr : Nat
  object : Object
deriving DecidableEq, Repr

/-- The bytes of an object. -/
def Block.span (block : Block) : Span := ⟨block.addr, block.object.size⟩

/-- The backing files, by the format string that names them. -/
inductive PmemPath
  /-- `"/mnt/pmem/lspmemfile%d"`, a pool mapping. -/
  | lspmemfile (no : Nat)
  /-- `"/mnt/pmem/%d"`, a huge block. -/
  | huge (no : Nat)
deriving DecidableEq, Repr

/-- PMEM mappings and DRAM objects never meet, and objects are laid out as
`malloc` documents. -/
structure Placed (maps : List Span) (blocks : List Block) : Prop where
  separate : ∀ m ∈ maps, ∀ b ∈ blocks, m.Apart b.span
  distinct : blocks.Pairwise fun b c => b.span.Apart c.span
  nonnull : ∀ b ∈ blocks, b.addr ≠ 0
  aligned : ∀ b ∈ blocks, b.addr % 16 = 0
  word : ∀ b ∈ blocks, b.addr < 2 ^ 64

/-- The mappings, the objects, the environment's answers to come, the backing
files, and the program's own two global counters. -/
structure World where
  maps : List Span
  blocks : List Block
  mapAnswers : List Nat
  mallocAnswers : List Nat
  files : List PmemPath
  /-- `mmap_file`, an `unsigned int`. -/
  mmapFile : Nat
  /-- `pmem_consmp`, an `unsigned int`. -/
  pmemConsmp : Nat
  placed : Placed maps blocks

/-- A process that has mapped and allocated nothing yet. -/
def World.fresh (mapAnswers mallocAnswers : List Nat) : World where
  maps := []
  blocks := []
  mapAnswers := mapAnswers
  mallocAnswers := mallocAnswers
  files := []
  mmapFile := 0
  pmemConsmp := 0
  placed := ⟨by simp, by simp, by simp, by simp, by simp⟩

/-- Every byte of the span is PMEM the process has mapped. -/
def Mapped (maps : List Span) (r : Span) : Prop := ∃ m ∈ maps, r.Within m

instance (maps : List Span) (r : Span) : Decidable (Mapped maps r) := by
  unfold Mapped
  infer_instance

/-- What `pmem_map_file` documents of a mapping it returns. -/
structure MapContract (w : World) (addr len : Nat) : Prop where
  aligned : addr % page = 0
  ends : addr + pageCeiling len < 2 ^ 64
  clearMaps : ∀ m ∈ w.maps, (Span.mk addr (pageCeiling len)).Apart m
  clearBlocks : ∀ b ∈ w.blocks, (Span.mk addr (pageCeiling len)).Apart b.span

instance (w : World) (addr len : Nat) : Decidable (MapContract w addr len) :=
  decidable_of_iff
    (addr % page = 0 ∧ addr + pageCeiling len < 2 ^ 64 ∧
      (∀ m ∈ w.maps, (Span.mk addr (pageCeiling len)).Apart m) ∧
      ∀ b ∈ w.blocks, (Span.mk addr (pageCeiling len)).Apart b.span)
    ⟨fun ⟨a, e, m, b⟩ => ⟨a, e, m, b⟩, fun c => ⟨c.aligned, c.ends, c.clearMaps, c.clearBlocks⟩⟩

/-- `pmem_map_file(path, len, PMEM_FILE_CREATE, ..)`: the address of a fresh
mapping of whole pages, or `NULL`. -/
def pmemMapFile (w : World) (path : PmemPath) (len : Nat) : Except Fault (Nat × World) :=
  match w.mapAnswers with
  | [] => .error .contract
  | addr :: rest =>
      if addr = 0 then .ok (0, { w with mapAnswers := rest })
      else if contract : MapContract w addr len then
        .ok (addr, { w with
          maps := ⟨addr, pageCeiling len⟩ :: w.maps
          mapAnswers := rest
          files := path :: w.files.erase path
          placed := { w.placed with
            separate := fun m member b isBlock => by
              rcases List.mem_cons.mp member with rfl | old
              · exact contract.clearBlocks b isBlock
              · exact w.placed.separate m old b isBlock } })
      else .error .contract

/-- `pmem_unmap(addr, len)`: as `munmap`, it fails without effect on an unaligned
address or a zero length and otherwise unmaps whole pages. -/
def pmemUnmap (w : World) (addr len : Nat) : World :=
  if len = 0 ∨ addr % page ≠ 0 then w
  else
    { w with
      maps := w.maps.flatMap fun m => m.diff ⟨addr, pageCeiling len⟩
      placed := { w.placed with
        separate := fun m member b isBlock => by
          obtain ⟨whole, inMaps, piece⟩ := List.mem_flatMap.mp member
          exact (w.placed.separate whole inMaps b isBlock).mono (Span.within_of_mem_diff piece) } }

/-- `remove(path)`. -/
def removeFile (w : World) (path : PmemPath) : World :=
  { w with files := w.files.erase path }

/-- What `malloc` documents of a block it returns. -/
structure MallocContract (w : World) (block : Block) : Prop where
  nonnull : block.addr ≠ 0
  aligned : block.addr % 16 = 0
  word : block.addr < 2 ^ 64
  clearMaps : ∀ m ∈ w.maps, m.Apart block.span
  clearBlocks : ∀ b ∈ w.blocks, block.span.Apart b.span

instance (w : World) (block : Block) : Decidable (MallocContract w block) :=
  decidable_of_iff
    (block.addr ≠ 0 ∧ block.addr % 16 = 0 ∧ block.addr < 2 ^ 64 ∧
      (∀ m ∈ w.maps, m.Apart block.span) ∧ ∀ b ∈ w.blocks, block.span.Apart b.span)
    ⟨fun ⟨n, a, l, m, b⟩ => ⟨n, a, l, m, b⟩,
      fun c => ⟨c.nonnull, c.aligned, c.word, c.clearMaps, c.clearBlocks⟩⟩

/-- The world once `malloc` has returned the block. -/
def World.addBlock (w : World) (block : Block) (rest : List Nat)
    (contract : MallocContract w block) : World :=
  { w with
    blocks := block :: w.blocks
    mallocAnswers := rest
    placed := {
      separate := fun m member b isBlock => by
        rcases List.mem_cons.mp isBlock with rfl | old
        · exact contract.clearMaps m member
        · exact w.placed.separate m member b old
      distinct := List.pairwise_cons.mpr ⟨contract.clearBlocks, w.placed.distinct⟩
      nonnull := List.forall_mem_cons.mpr ⟨contract.nonnull, w.placed.nonnull⟩
      aligned := List.forall_mem_cons.mpr ⟨contract.aligned, w.placed.aligned⟩
      word := List.forall_mem_cons.mpr ⟨contract.word, w.placed.word⟩ } }

/-- `malloc(sizeof(object))`. The program does not check for `NULL`, so the
environment is taken not to run out of DRAM. -/
def malloc (w : World) (object : Object) : Except Fault (Nat × World) :=
  match w.mallocAnswers with
  | [] => .error .contract
  | addr :: rest =>
      if contract : MallocContract w ⟨addr, object⟩ then
        .ok (addr, w.addBlock ⟨addr, object⟩ rest contract)
      else .error .contract

/-! ## What the calls do -/

variable {w w' : World} {addr len : Nat} {path : PmemPath} {object : Object}

/-- A mapping that did not fail is new, whole pages, and clear of everything else. -/
theorem pmemMapFile_eq_ok (mapped : pmemMapFile w path len = .ok (addr, w')) (success : addr ≠ 0) :
    MapContract w addr len ∧ w'.maps = ⟨addr, pageCeiling len⟩ :: w.maps ∧
      w'.blocks = w.blocks ∧ w'.mallocAnswers = w.mallocAnswers := by
  unfold pmemMapFile at mapped
  split at mapped
  · cases mapped
  · split at mapped
    · simp only [Except.ok.injEq, Prod.mk.injEq] at mapped
      exact absurd mapped.1.symm success
    · split at mapped
      · rename_i contract
        simp only [Except.ok.injEq, Prod.mk.injEq] at mapped
        obtain ⟨rfl, rfl⟩ := mapped
        exact ⟨contract, rfl, rfl, rfl⟩
      · cases mapped

/-- A new object is clear of every mapping and object; nothing else changes. -/
theorem malloc_eq_ok (allocated : malloc w object = .ok (addr, w')) :
    ∃ rest contract, w' = w.addBlock ⟨addr, object⟩ rest contract := by
  unfold malloc at allocated
  split at allocated
  · cases allocated
  · split at allocated
    · rename_i rest contract
      simp only [Except.ok.injEq, Prod.mk.injEq] at allocated
      obtain ⟨rfl, rfl⟩ := allocated
      exact ⟨_, contract, rfl⟩
    · cases allocated

/-- What `malloc` returns is the environment's next answer. -/
theorem malloc_answer (allocated : malloc w object = .ok (addr, w')) :
    addr ∈ w.mallocAnswers.head? := by
  unfold malloc at allocated
  split at allocated
  · cases allocated
  · rename_i answer rest answers
    split at allocated
    · simp only [Except.ok.injEq, Prod.mk.injEq] at allocated
      rw [← allocated.1, answers]
      rfl
    · cases allocated

theorem pmemMapFile_failsOnly (w : World) (path : PmemPath) (len : Nat) :
    Execution.FailsOnly Fault.FromEnvironment (pmemMapFile w path len) := by
  intro fault failed
  unfold pmemMapFile at failed
  split at failed
  · cases failed
    exact .inr rfl
  · split at failed
    · cases failed
    · split at failed
      · cases failed
      · cases failed
        exact .inr rfl

theorem malloc_failsOnly (w : World) (object : Object) :
    Execution.FailsOnly Fault.FromEnvironment (malloc w object) := by
  intro fault failed
  unfold malloc at failed
  split at failed
  · cases failed
    exact .inr rfl
  · split at failed
    · cases failed
    · cases failed
      exact .inr rfl

/-- A part of a mapping that an unmapping misses stays mapped. -/
theorem Mapped.unmap {r : Span} (mapped : Mapped w.maps r) (nonempty : 0 < r.len)
    (apart : r.Apart ⟨addr, pageCeiling len⟩) : Mapped (pmemUnmap w addr len).maps r := by
  unfold pmemUnmap
  split
  · exact mapped
  · obtain ⟨m, member, inside⟩ := mapped
    obtain ⟨piece, inDiff, kept⟩ := Span.exists_mem_diff inside apart nonempty
    exact ⟨piece, List.mem_flatMap.mpr ⟨m, member, inDiff⟩, kept⟩

@[simp] theorem pmemUnmap_blocks (w : World) (addr len : Nat) :
    (pmemUnmap w addr len).blocks = w.blocks := by
  unfold pmemUnmap
  split <;> rfl

@[simp] theorem pmemUnmap_mallocAnswers (w : World) (addr len : Nat) :
    (pmemUnmap w addr len).mallocAnswers = w.mallocAnswers := by
  unfold pmemUnmap
  split <;> rfl

@[simp] theorem removeFile_blocks (w : World) (path : PmemPath) :
    (removeFile w path).blocks = w.blocks := rfl

@[simp] theorem removeFile_mallocAnswers (w : World) (path : PmemPath) :
    (removeFile w path).mallocAnswers = w.mallocAnswers := rfl

/-- A part of what is mapped is mapped. -/
theorem Mapped.mono {maps : List Span} {r r' : Span} (mapped : Mapped maps r)
    (inside : r'.Within r) : Mapped maps r' := by
  obtain ⟨m, inMaps, within⟩ := mapped
  exact ⟨m, inMaps, inside.trans within⟩

/-- No mapped PMEM is part of an object. -/
theorem Mapped.apart_block {r : Span} (mapped : Mapped w.maps r) {b : Block}
    (member : b ∈ w.blocks) : r.Apart b.span := by
  obtain ⟨m, inMaps, inside⟩ := mapped
  exact (w.placed.separate m inMaps b member).mono inside

/-- No mapped PMEM starts where an object does. -/
theorem Mapped.ne_block {r : Span} (mapped : Mapped w.maps r) (nonempty : 0 < r.len) {b : Block}
    (member : b ∈ w.blocks) : r.start ≠ b.addr :=
  (mapped.apart_block member).start_ne nonempty b.object.size_pos

/-- A new object is none of the objects there were. -/
theorem MallocContract.not_mem {block : Block} (contract : MallocContract w block) {old : Block}
    (member : old ∈ w.blocks) : old.addr ≠ block.addr := by
  have apart := contract.clearBlocks old member
  exact (apart.start_ne block.object.size_pos old.object.size_pos).symm

end Lsmalloc
