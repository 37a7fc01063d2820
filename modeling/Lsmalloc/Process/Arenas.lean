import Lsmalloc.Arena.Layout
import Lsmalloc.Process.Model

/-!
# The arenas of a process

In a process an arena has slab chunks only, as nothing gives it a first log chunk.
`SlabArena` is what the small path relies on: the queue of slab chunks is a ring, their
rooms and the open sregions lie in chunks that are mapped. `Others` is what a small
request on one arena keeps of everything else.
-/

namespace Lsmalloc

/-- The word at the base of a chunk, where its `pchunk_t` is. -/
def headerWord (h : Heap) (base : Nat) : Nat := h.pmem.loadWord base sizeofPchunk

/-- The header at the base of a chunk names the descriptor of a slab chunk. -/
def NamesSlab (h : Heap) (base : Nat) : Prop :=
  ⟨headerWord h base, .chunk⟩ ∈ h.blocks ∧ (h.chunks (headerWord h base)).chunktype = .slab

/-- A chunk with its header: aligned, mapped, and headed by the address of a slab descriptor. -/
structure Headed (h : Heap) (base : Nat) : Prop where
  isBase : IsBase base chunksize
  mapped : Mapped h.maps (chunkSpan base)
  header : NamesSlab h base

/-- A slab chunk of the arena with that index. -/
structure SlabChunk (h : Heap) (ind c : Nat) : Prop where
  isChunk : ⟨c, .chunk⟩ ∈ h.blocks
  arena : (h.chunks c).arena = ind
  headed : Headed h (h.chunks c).paddr
  bumped : (h.chunks c).Bumped

/-- An sregion that lies in a chunk, with its tail inside it. -/
structure OpenSregion (h : Heap) (s : Nat) : Prop where
  isSregion : ⟨s, .sregion⟩ ∈ h.blocks
  inside : ∃ base, Headed h base ∧ base + sizeofPchunk ≤ (h.sregions s).paddr ∧
    (h.sregions s).paddr + sregionSize ≤ base + chunksize
  started : (h.sregions s).paddr + sizeofPsregion ≤ (h.sregions s).ptail
  ends : (h.sregions s).ptail ≤ (h.sregions s).paddr + sregionSize

/-- An arena without log chunks. -/
structure SlabArena (h : Heap) (ind : Nat) (arena : Arena) : Prop where
  numbered : arena.ind = ind
  pool : ∃ free maps out, PoolOk h.toWorld arena.pool free maps out
  availChunks : arena.availChunks = 0
  slabs : ∃ slabs, IsQl h.availLink arena.availSchunks slabs ∧ ∀ c ∈ slabs, SlabChunk h ind c
  sregions : ∀ cls < classNum, arena.availSregion cls ≠ 0 → OpenSregion h (arena.availSregion cls)

/-- Mappings, objects and chunk headers stay. -/
structure HeapKept (h h' : Heap) : Prop where
  mapped : ∀ r : Span, 0 < r.len → Mapped h.maps r → Mapped h'.maps r
  blocks : ∀ b ∈ h.blocks, b ∈ h'.blocks
  headers : ∀ base, IsBase base chunksize → NamesSlab h base → NamesSlab h' base

/-- What a small request on the arena `ind` keeps of everything else. -/
structure Others (ind : Nat) (h h' : Heap) : Prop extends HeapKept h h' where
  chunks : ∀ c, ⟨c, .chunk⟩ ∈ h.blocks → (h.chunks c).arena ≠ ind →
    h'.chunks c = h.chunks c ∧ h'.availLink.next c = h.availLink.next c ∧
      h'.availLink.prev c = h.availLink.prev c
  sregions : ∀ s, OpenSregion h s → OpenSregion h' s

variable {h h' h'' : Heap} {arena arena' : Arena} {ind c sregion size ptr addr base : Nat}

/-- A chunk ends a chunk before the end of the address space. -/
theorem IsBase.word (isBase : IsBase base chunksize) : base + 8388608 ≤ 2 ^ 64 := by
  have aligned := isBase.aligned
  have ends := isBase.ends
  rw [chunksize_eq] at aligned ends
  omega

theorem HeapKept.headed (kept : HeapKept h h') (headed : Headed h base) : Headed h' base where
  isBase := headed.isBase
  mapped := by
    have positive : 0 < (chunkSpan base).len := by
      change 0 < chunksize
      decide
    exact kept.mapped _ positive headed.mapped
  header := kept.headers base headed.isBase headed.header

/-- A slab chunk whose descriptor stays as it is. -/
theorem HeapKept.slabChunk (kept : HeapKept h h') (slab : SlabChunk h ind c)
    (same : h'.chunks c = h.chunks c) : SlabChunk h' ind c where
  isChunk := kept.blocks _ slab.isChunk
  arena := by
    rw [same]
    exact slab.arena
  headed := by
    rw [same]
    exact kept.headed slab.headed
  bumped := by
    rw [same]
    exact slab.bumped

/-- An sregion whose descriptor stays as it is. -/
theorem HeapKept.openSregion {s : Nat} (kept : HeapKept h h') (opened : OpenSregion h s)
    (same : h'.sregions s = h.sregions s) : OpenSregion h' s where
  isSregion := kept.blocks _ opened.isSregion
  inside := by
    obtain ⟨base, headed, bounds⟩ := opened.inside
    exact ⟨base, kept.headed headed, by rwa [same]⟩
  started := by
    rw [same]
    exact opened.started
  ends := by
    rw [same]
    exact opened.ends

theorem HeapKept.refl (h : Heap) : HeapKept h h :=
  ⟨fun _ _ here => here, fun _ here => here, fun _ _ here => here⟩

theorem HeapKept.trans (first : HeapKept h h') (second : HeapKept h' h'') : HeapKept h h'' where
  mapped r nonempty here := second.mapped r nonempty (first.mapped r nonempty here)
  blocks b member := second.blocks b (first.blocks b member)
  headers base isBase here := second.headers base isBase (first.headers base isBase here)

theorem Others.refl (ind : Nat) (h : Heap) : Others ind h h :=
  ⟨.refl h, fun _ _ _ => ⟨rfl, rfl, rfl⟩, fun _ here => here⟩

theorem Others.trans (first : Others ind h h') (second : Others ind h' h'') : Others ind h h'' where
  toHeapKept := first.toHeapKept.trans second.toHeapKept
  chunks c member other := by
    obtain ⟨chunk, next, prev⟩ := first.chunks c member other
    obtain ⟨chunk', next', prev'⟩ := second.chunks c (first.blocks _ member) (by rwa [chunk])
    exact ⟨chunk'.trans chunk, next'.trans next, prev'.trans prev⟩
  sregions s here := second.sregions s (first.sregions s here)

/-- A request on one arena keeps the others. -/
theorem SlabArena.others {other : Nat} (ok : SlabArena h other arena) (different : other ≠ ind)
    (others : Others ind h h') : SlabArena h' other arena where
  numbered := ok.numbered
  pool := by
    obtain ⟨free, maps, out, pool⟩ := ok.pool
    exact ⟨free, maps, out, pool.mono others.mapped⟩
  availChunks := ok.availChunks
  slabs := by
    obtain ⟨slabs, ring, slab⟩ := ok.slabs
    have same : ∀ c ∈ slabs, h'.chunks c = h.chunks c ∧
        h'.availLink.next c = h.availLink.next c ∧ h'.availLink.prev c = h.availLink.prev c :=
      fun c member => others.chunks c (slab c member).isChunk (by rw [(slab c member).arena]; exact different)
    exact ⟨slabs, ring.congr fun c member => (same c member).2, fun c member =>
      others.slabChunk (slab c member) (same c member).1⟩
  sregions cls inside nonnull := others.sregions _ (ok.sregions cls inside nonnull)

/-- An arena depends on some of its fields only. -/
theorem SlabArena.of_fields (ok : SlabArena h ind arena) (sameInd : arena'.ind = arena.ind)
    (pool : arena'.pool = arena.pool) (availChunks : arena'.availChunks = arena.availChunks)
    (availSchunks : arena'.availSchunks = arena.availSchunks)
    (availSregion : arena'.availSregion = arena.availSregion) : SlabArena h ind arena' where
  numbered := sameInd.trans ok.numbered
  pool := by rw [pool]; exact ok.pool
  availChunks := availChunks.trans ok.availChunks
  slabs := by rw [availSchunks]; exact ok.slabs
  sregions := by rw [availSregion]; exact ok.sregions

/-! ## New objects and new mappings -/

/-- Objects and mappings are added, and what is there stays. -/
theorem Others.of_world {w : World} (blocks : ∀ b ∈ h.blocks, b ∈ w.blocks)
    (mapped : ∀ r : Span, 0 < r.len → Mapped h.maps r → Mapped w.maps r) (ind : Nat) :
    Others ind h { h with toWorld := w } := by
  have kept : HeapKept h { h with toWorld := w } :=
    ⟨mapped, blocks, fun _ _ here => ⟨blocks _ here.1, here.2⟩⟩
  exact ⟨kept, fun _ _ _ => ⟨rfl, rfl, rfl⟩, fun _ opened => kept.openSregion opened rfl⟩

theorem Others.newBlock {w : World} {object : Object} {p : Nat}
    (new : NewBlock h.toWorld w object p) (ind : Nat) : Others ind h { h with toWorld := w } := by
  refine .of_world ?_ ?_ ind
  · intro b member
    rw [new.blocks]
    exact List.mem_cons_of_mem _ member
  · intro r _ here
    rwa [new.maps]

/-- What keeps every arena's surroundings keeps every arena. -/
theorem SlabArena.of_all (ok : SlabArena h ind arena) (all : ∀ ind, Others ind h h') :
    SlabArena h' ind arena := ok.others (Nat.ne_of_lt (Nat.lt_succ_self ind)) (all (ind + 1))

/-- `arena_new` makes an arena without chunks, and keeps the others. -/
theorem arenaNew_slabArena (made : arenaNew h arena ind = .ok (h', arena')) :
    SlabArena h' ind arena' ∧ ∀ other, Others other h h' := by
  obtain ⟨⟨w, pool⟩, created, made⟩ := Execution.bind_eq_ok.mp made
  simp only [Except.ok.injEq, Prod.mk.injEq] at made
  obtain ⟨rfl, rfl⟩ := made
  obtain ⟨base, grows, ok⟩ := PoolOk.create created
  refine ⟨⟨rfl, ⟨_, _, _, ok⟩, rfl, ⟨[], isQl_nil _, by simp⟩, ?_⟩, ?_⟩
  · intro cls inside nonnull
    simp [inside] at nonnull
  · refine .of_world ?_ fun r nonempty here => (grows.keeps r nonempty here).1
    intro b member
    rwa [grows.blocks]

/-! ## New slab chunks -/

/-- A stored word stays where it is when the store is at its address. -/
theorem loadWord_header (memory : Memory) {value : Nat} (word : value < 2 ^ 64) :
    (memory.storeWord addr sizeofPchunk value).loadWord addr sizeofPchunk = value := by
  rw [Memory.loadWord_storeWord, sizeofPchunk]
  exact Nat.mod_eq_of_lt word

/-- A store inside a chunk, behind its header, changes no header. -/
theorem header_storeWord {memory : Memory} {b x width value : Nat}
    (isBase : IsBase base chunksize) (isBase' : IsBase b chunksize)
    (lower : b + sizeofPchunk ≤ x) (upper : x + width ≤ b + chunksize) :
    (memory.storeWord x width value).loadWord base sizeofPchunk =
      memory.loadWord base sizeofPchunk := by
  have aligned := isBase.aligned
  have aligned' := isBase'.aligned
  rw [chunksize_eq] at *
  rw [sizeofPchunk] at *
  exact Memory.loadWord_storeWord_outside memory (by omega)

/-- A chunk of the pool is given a header, and what was there stays. -/
theorem ChunkAllocated.headed {free maps out : List Nat}
    (allocated : ChunkAllocated h h' arena arena' .slab c addr)
    (pool : PoolOk h.toWorld arena.pool free maps out) :
    (∃ rest maps', PoolOk h'.toWorld arena'.pool rest maps' (addr :: out)) ∧
      HeapKept h h' ∧ Headed h' addr := by
  obtain ⟨later, fresh, _⟩ := chunkTaken_objects allocated.pool
  obtain ⟨w, taken, new⟩ := allocated.pool
  -- Whether or not the pool grew, what was mapped is.
  obtain ⟨rest, maps', kept, mapped⟩ : ∃ rest maps',
      PoolOk w arena'.pool rest maps' (addr :: out) ∧
        ∀ r : Span, 0 < r.len → Mapped h.maps r → Mapped w.maps r := by
    rcases pool.chunkAlloc taken with ⟨rest, _, rfl, kept⟩ | ⟨base, rest, _, _, grows, kept⟩
    · exact ⟨rest, maps, kept, fun _ _ here => here⟩
    · exact ⟨rest, base :: maps, kept, fun r nonempty here => (grows.keeps r nonempty here).1⟩
  have isBlock : (⟨c, .chunk⟩ : Block) ∈ h'.blocks := by
    rw [later]
    exact List.mem_cons_self
  have inPool : addr ∈ rest ++ addr :: out := by simp
  have isBase := (kept.chunk inPool).1
  have stored : headerWord h' addr = c := by
    rw [headerWord, allocated.pmem]
    exact loadWord_header _ (h'.placed.word _ isBlock)
  obtain ⟨garbage, chunks, _⟩ := allocated.chunks
  have named : NamesSlab h' addr := by
    rw [NamesSlab, stored]
    refine ⟨isBlock, ?_⟩
    rw [chunks, Function.update_self]
    rfl
  refine ⟨⟨rest, maps', kept.of_maps new.maps⟩, ⟨?_, ?_, ?_⟩, ⟨isBase, ?_, ?_⟩⟩
  · intro r nonempty here
    rw [new.maps]
    exact mapped r nonempty here
  · intro b member
    rw [later]
    exact List.mem_cons_of_mem _ member
  · intro base isBase' here
    by_cases same : base = addr
    · rw [same]
      exact named
    · have aligned := isBase.aligned
      have aligned' := isBase'.aligned
      have elsewhere : base + sizeofPchunk ≤ addr ∨ addr + sizeofPchunk ≤ base := by
        rw [chunksize_eq] at aligned aligned'
        rw [sizeofPchunk]
        omega
      have kept : headerWord h' base = headerWord h base := by
        rw [headerWord, allocated.pmem]
        exact Memory.loadWord_storeWord_outside _ elsewhere
      rw [NamesSlab, kept, later, chunks, Function.update_of_ne (fresh _ here.1)]
      exact ⟨List.mem_cons_of_mem _ here.1, here.2⟩
  · rw [new.maps]
    exact kept.chunk_mapped inPool
  · exact named

/-- A new slab chunk comes first in the queue of its arena. -/
theorem SlabArena.chunkAllocated (ok : SlabArena h ind arena)
    (allocated : ChunkAllocated h h' arena arena' .slab c addr) :
    SlabArena h' ind arena' ∧ Others ind h h' ∧ SlabChunk h' ind c ∧
      sregionSize ≤ (h'.chunks c).availsize := by
  obtain ⟨free, maps, out, pool⟩ := ok.pool
  obtain ⟨slabs, ring, slab⟩ := ok.slabs
  obtain ⟨later, fresh, nonnull⟩ := chunkTaken_objects allocated.pool
  obtain ⟨⟨rest, maps', pool'⟩, kept, headed⟩ := allocated.headed pool
  obtain ⟨garbage, chunks, _⟩ := allocated.chunks
  obtain ⟨sameChunks, link, first⟩ := allocated.slab (by decide)
  obtain ⟨bumped, room⟩ := newChunk_bumped headed.isBase garbage arena.ind .slab true
  have absent : c ∉ slabs := fun member => fresh _ (slab c member).isChunk rfl
  have self : h'.chunks c = newChunk garbage addr arena.ind .slab true := by
    rw [chunks, Function.update_self]
  have old : ∀ d, ⟨d, .chunk⟩ ∈ h.blocks → h'.chunks d = h.chunks d := by
    intro d member
    rw [chunks, Function.update_of_ne (fresh _ member)]
  have newSlab : SlabChunk h' ind c := by
    refine ⟨?_, ?_, ?_, ?_⟩
    · rw [later]
      exact List.mem_cons_self
    · rw [self]
      exact ok.numbered
    · rw [self]
      exact headed
    · rw [self]
      exact bumped
  have oldSlabs : ∀ d ∈ slabs, SlabChunk h' ind d := fun d member =>
    kept.slabChunk (slab d member) (old d (slab d member).isChunk)
  have sregions : ∀ s, OpenSregion h s → OpenSregion h' s := fun s opened =>
    kept.openSregion opened (by rw [allocated.sregions])
  have linked : IsQl (qrNew h.availLink c) arena.availSchunks slabs :=
    ring.congr fun x member => qrNew_other (by rintro rfl; exact absent member)
  refine ⟨⟨allocated.ind.trans ok.numbered, ⟨rest, maps', addr :: out, pool'⟩,
    sameChunks.trans ok.availChunks, ⟨c :: slabs, ?_, ?_⟩, ?_⟩, ⟨kept, ?_, sregions⟩, newSlab, ?_⟩
  · rw [link, first]
    exact linked.headInsert absent nonnull (isRing_qrNew _ _)
  · exact List.forall_mem_cons.mpr ⟨newSlab, oldSlabs⟩
  · intro cls inside nonnull
    rw [allocated.availSregion] at nonnull ⊢
    exact sregions _ (ok.sregions cls inside nonnull)
  · intro d member other
    have outside : d ∉ slabs := fun inSlabs => other (slab d inSlabs).arena
    have inserted := linked.headInsert_other outside (fresh _ member)
    have selfLinked : (qrNew h.availLink c).next d = h.availLink.next d ∧
        (qrNew h.availLink c).prev d = h.availLink.prev d := qrNew_other (fresh _ member)
    rw [link]
    exact ⟨old d member, inserted.1.trans selfLinked.1, inserted.2.trans selfLinked.2⟩
  · have avail : (newChunk garbage addr arena.ind .slab true).availsize = chunksize - 8 :=
      congrArg Span.len room
    rw [self, avail, chunksize_eq]
    decide

/-- The chunk `arena_malloc_small_hard` carves has the room. -/
theorem SlabArena.sregionChunk (ok : SlabArena h ind arena)
    (chosen : sregionChunk h arena = .ok (c, h', arena')) :
    SlabArena h' ind arena' ∧ Others ind h h' ∧ SlabChunk h' ind c ∧
      sregionSize ≤ (h'.chunks c).availsize := by
  rcases sregionChunk_effect chosen with ⟨rfl, rfl, rfl, nonnull, _, room, _⟩ | ⟨addr, allocated⟩
  · obtain ⟨slabs, ring, slab⟩ := ok.slabs
    exact ⟨ok, .refl _ _, slab _ (ring.first_mem nonnull), room⟩
  · exact ok.chunkAllocated allocated

/-! ## New slabs -/

/-- A returned block lies behind the header of a chunk. -/
def InChunk (h : Heap) (p : Nat) : Prop :=
  ∃ base, Headed h base ∧ base + sizeofPchunk ≤ p ∧ p < base + chunksize

theorem Others.inChunk {p : Nat} (others : Others ind h h') (inside : InChunk h p) :
    InChunk h' p := by
  obtain ⟨base, headed, bounds⟩ := inside
  exact ⟨base, others.headed headed, bounds⟩

/-- Stores behind the headers keep the heap. -/
theorem HeapKept.of_stores (world : h'.toWorld = h.toWorld)
    (chunktypes : ∀ c, (h'.chunks c).chunktype = (h.chunks c).chunktype)
    (headers : ∀ base, IsBase base chunksize → headerWord h' base = headerWord h base) :
    HeapKept h h' where
  mapped r _ here := by rwa [world]
  blocks b member := by rwa [world]
  headers base isBase here := by rwa [NamesSlab, headers base isBase, chunktypes, world]

/-- Carving an sregion writes behind the header of its chunk. -/
theorem SregionCarved.headerWord_eq (carved : SregionCarved h h' c sregion size ptr)
    (bumped : (h.chunks c).Bumped) (room : sregionSize ≤ (h.chunks c).availsize)
    (small : size ≤ arenaMaxsmall) (isBase' : IsBase base chunksize) :
    headerWord h' base = headerWord h base := by
  obtain ⟨_, _, pmem, _⟩ := carved.fields bumped room small
  obtain ⟨isBase, started, ends⟩ := bumped
  have sregionBytes : sregionSize = 1024 := rfl
  rw [sregionBytes] at room
  rw [headerWord, pmem, header_storeWord isBase' isBase (by omega) (by omega),
    header_storeWord isBase' isBase (by omega) (by omega),
    header_storeWord isBase' isBase (by omega) (by omega)]
  rfl

/-- **The first slab.** An sregion that fits is carved off a slab chunk. -/
theorem SlabArena.sregionCarved (ok : SlabArena h ind arena) (slab : SlabChunk h ind c)
    (room : sregionSize ≤ (h.chunks c).availsize) (isSregion : ⟨sregion, .sregion⟩ ∈ h.blocks)
    (small : size ≤ arenaMaxsmall) (carved : SregionCarved h h' c sregion size ptr) (cls : Nat) :
    SlabArena h' ind { arena with
        availSregion := Function.update arena.availSregion cls sregion } ∧
      Others ind h h' ∧
      InChunk h' (szAdd (szAdd (h.chunks c).tail sizeofPsregion) sizeofPslab) := by
  obtain ⟨chunks, made, _, block⟩ := carved.fields slab.bumped room small
  have self : h'.chunks c = { h.chunks c with
      tail := (h.chunks c).tail + 1024
      availsize := (h.chunks c).availsize - 1024 } := by rw [chunks, Function.update_self]
  have chunktypes : ∀ d, (h'.chunks d).chunktype = (h.chunks d).chunktype := by
    intro d
    by_cases same : d = c
    · rw [same, self]
    · rw [chunks, Function.update_of_ne same]
  have kept : HeapKept h h' := .of_stores carved.world chunktypes fun _ isBase =>
    carved.headerWord_eq slab.bumped room small isBase
  have newSregion : h'.sregions sregion =
      ⟨size, (h.chunks c).tail, (h.chunks c).tail + 24 + size⟩ := by rw [made, Function.update_self]
  have inChunk := kept.headed slab.headed
  obtain ⟨isBase, started, ends⟩ := slab.bumped
  have sizes : sizeofPsregion = 8 ∧ sizeofPchunk = 8 ∧ sregionSize = 1024 ∧ arenaMaxsmall = 224 :=
    ⟨rfl, rfl, rfl, rfl⟩
  obtain ⟨psregion, pchunk, sregionBytes, smallBytes⟩ := sizes
  rw [smallBytes] at small
  rw [sregionBytes] at room
  rw [pchunk] at started
  have opened : OpenSregion h' sregion := by
    refine ⟨kept.blocks _ isSregion, ⟨_, inChunk, ?_⟩, ?_, ?_⟩ <;> rw [newSregion] <;> simp only
    · omega
    · omega
    · omega
  have sregions : ∀ s, OpenSregion h s → OpenSregion h' s := by
    intro s before
    by_cases same : s = sregion
    · rwa [same]
    · exact kept.openSregion before (by rw [carved.sregions, Function.update_of_ne same])
  have slabChunk : ∀ d, SlabChunk h ind d → SlabChunk h' ind d := by
    intro d before
    by_cases same : d = c
    · rw [same]
      refine ⟨kept.blocks _ slab.isChunk, ?_, ?_, ?_⟩ <;> rw [self]
      · exact slab.arena
      · exact inChunk
      · exact slab.bumped.take room rfl rfl rfl
    · exact kept.slabChunk before (by rw [carved.chunks, Function.update_of_ne same])
  obtain ⟨slabs, ring, allSlabs⟩ := ok.slabs
  obtain ⟨free, maps, out, pool⟩ := ok.pool
  refine ⟨⟨ok.numbered, ⟨free, maps, out, pool.of_maps (by rw [carved.world])⟩, ok.availChunks,
    ⟨slabs, by rw [carved.availLink]; exact ring, fun d member => slabChunk d (allSlabs d member)⟩,
    ?_⟩, ⟨kept, ?_, sregions⟩, ⟨_, inChunk, ?_, ?_⟩⟩
  · intro other inside nonnull
    change OpenSregion h' (Function.update arena.availSregion cls sregion other)
    change Function.update arena.availSregion cls sregion other ≠ 0 at nonnull
    by_cases same : other = cls
    · rwa [same, Function.update_self]
    · rw [Function.update_of_ne same] at nonnull ⊢
      exact sregions _ (ok.sregions other inside nonnull)
  · intro d _ other
    have different : d ≠ c := by
      rintro rfl
      exact other slab.arena
    rw [carved.chunks, Function.update_of_ne different, carved.availLink]
    exact ⟨rfl, rfl, rfl⟩
  · rw [block]
    omega
  · rw [block]
    omega

/-- An sregion ends a chunk before the end of the address space. -/
theorem OpenSregion.word (opened : OpenSregion h sregion) :
    (h.sregions sregion).paddr + sregionSize + chunksize ≤ 2 ^ 64 := by
  obtain ⟨base, headed, lower, upper⟩ := opened.inside
  have word := headed.isBase.word
  rw [chunksize_eq] at upper ⊢
  omega

/-- Carving a slab writes behind the header of its chunk. -/
theorem SlabCarved.headerWord_eq (carved : SlabCarved h h' sregion size ptr)
    (opened : OpenSregion h sregion) (small : size ≤ arenaMaxsmall)
    (fits : (h.sregions sregion).ptail + 16 + size ≤ (h.sregions sregion).paddr + 1024)
    (isBase' : IsBase base chunksize) : headerWord h' base = headerWord h base := by
  obtain ⟨_, pmem⟩ := carved.fields opened.ends opened.word small
  obtain ⟨_, ⟨b, inside, lower, upper⟩, started, _⟩ := opened
  have sregionBytes : sregionSize = 1024 := rfl
  rw [sregionBytes] at upper
  rw [headerWord, pmem, header_storeWord isBase' inside.isBase (by omega) (by omega),
    header_storeWord isBase' inside.isBase (by omega) (by omega)]
  rfl

/-- **The next slab.** A slab that fits is carved off an open sregion. -/
theorem SlabArena.slabCarved (ok : SlabArena h ind arena) (opened : OpenSregion h sregion)
    (nonempty : 1 ≤ size) (small : size ≤ arenaMaxsmall) (carved : SlabCarved h h' sregion size ptr)
    (fits : szAdd (szAdd (h.sregions sregion).ptail sizeofPslab) size ≤
      szAdd (h.sregions sregion).paddr sregionSize) :
    SlabArena h' ind arena ∧ Others ind h h' ∧
      InChunk h' (szAdd (h.sregions sregion).ptail sizeofPslab) := by
  obtain ⟨block, next, limit, _⟩ := Sregion.sums opened.ends opened.word small
  obtain ⟨made, _⟩ := carved.fields opened.ends opened.word small
  rw [block, next, limit] at fits
  have kept : HeapKept h h' := .of_stores carved.world (fun c => by rw [carved.chunks]) fun _ isBase =>
    carved.headerWord_eq opened small fits isBase
  have newSregion : h'.sregions sregion = { h.sregions sregion with
      ptail := (h.sregions sregion).ptail + 16 + size } := by rw [made, Function.update_self]
  obtain ⟨isSregion, ⟨base, inside, lower, upper⟩, started, ends⟩ := opened
  have sizes : sregionSize = 1024 := rfl
  rw [sizes] at upper
  have sregions : ∀ s, OpenSregion h s → OpenSregion h' s := by
    intro s before
    by_cases same : s = sregion
    · rw [same]
      refine ⟨kept.blocks _ isSregion, ⟨base, kept.headed inside, ?_⟩, ?_, ?_⟩ <;>
        rw [newSregion] <;> simp only
      · omega
      · omega
      · omega
    · exact kept.openSregion before (by rw [carved.sregions, Function.update_of_ne same])
  obtain ⟨slabs, ring, allSlabs⟩ := ok.slabs
  obtain ⟨free, maps, out, pool⟩ := ok.pool
  refine ⟨⟨ok.numbered, ⟨free, maps, out, pool.of_maps (by rw [carved.world])⟩, ok.availChunks,
    ⟨slabs, by rw [carved.availLink]; exact ring, ?_⟩,
    fun cls inClass nonnull => sregions _ (ok.sregions cls inClass nonnull)⟩,
    ⟨kept, ?_, sregions⟩, ⟨base, kept.headed inside, ?_, ?_⟩⟩
  · exact fun d member => kept.slabChunk (allSlabs d member) (by rw [carved.chunks])
  · intro d _ _
    rw [carved.chunks, carved.availLink]
    exact ⟨rfl, rfl, rfl⟩
  · rw [block]
    omega
  · rw [block]
    omega

/-- **A small request** keeps its arena and everything else, and returns a block in a chunk. -/
theorem SlabArena.arenaMallocSmall {ret : Nat} (ok : SlabArena h ind arena)
    (nonempty : 1 ≤ size) (small : size < arenaMaxsmall)
    (allocated : arenaMallocSmall h arena size ptr = .ok (ret, h', arena')) :
    SlabArena h' ind arena' ∧ Others ind h h' ∧ InChunk h' ret := by
  obtain ⟨isClass, holds, bound⟩ := sizeToClass_spec small
  rcases arenaMallocSmall_effect allocated with ⟨rfl, nonnull, carved, rfl, fits⟩ | hard
  · exact ok.slabCarved (ok.sregions _ isClass nonnull) (nonempty.trans holds) bound carved fits
  · obtain ⟨sregion, w, c, h₁, arena₁, new, chosen, carved, rfl, rfl⟩ :=
      arenaMallocSmallHard_effect hard
    have first : SlabArena { h with toWorld := w } ind arena := ok.of_all (.newBlock new)
    obtain ⟨second, others, slab, room⟩ := first.sregionChunk chosen
    have isSregion : (⟨sregion, .sregion⟩ : Block) ∈ h₁.blocks := by
      apply others.blocks
      change _ ∈ w.blocks
      rw [new.blocks]
      exact List.mem_cons_self
    obtain ⟨third, others', inside⟩ :=
      second.sregionCarved slab room isSregion bound carved (sizeToClass size)
    exact ⟨third, (Others.newBlock new ind).trans (others.trans others'), inside⟩

end Lsmalloc
