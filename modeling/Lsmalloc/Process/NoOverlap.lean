import Lsmalloc.Arena.NoOverlap
import Lsmalloc.Process.NullSafe
import Lsmalloc.Process.Pools

/-!
# Blocks of different threads do not overlap

Every thread allocates from the arena it was given, each arena carves its own chunks, and the
chunks of all arenas lie in one address space. `SlabLayout` accounts for the bytes of all of them
at once, and every call of any thread keeps it, also the call that makes an arena.
-/

namespace Lsmalloc

open Span (Tagged)

/-- The chunks `cs` of all arenas, with the sregions `ss` carved off them. Each is outstanding in
a pool, and the heads of the arenas' queues and their open sregions are among them. -/
structure SlabLayout (w₀ : World) (h : Heap) (arenas : Nat → Option Arena)
    (payloads : List Payload) (maps out : Nat → List Nat) (cs ss : List Nat)
    (items : List (Tagged Role)) : Prop where
  pools : PoolsOk w₀ h.toWorld (arenaPools arenas) maps out
  laid : Laid h cs [] ss payloads items
  taken : ∀ c ∈ cs, TakenFrom (arenaPools arenas) out (h.chunks c).paddr
  isChunk : ∀ c, c ∈ cs ↔ ⟨c, .chunk⟩ ∈ h.blocks ∧ ⟨c, .chunk⟩ ∉ w₀.blocks
  regions : ∀ r, ⟨r, .region⟩ ∈ h.blocks → ⟨r, .region⟩ ∈ w₀.blocks
  isSregion : ∀ s ∈ ss, ⟨s, .sregion⟩ ∈ h.blocks
  old : ∀ b ∈ w₀.blocks, b ∈ h.blocks
  before : ∀ r : Span, 0 < r.len → Mapped w₀.maps r → Mapped h.maps r
  slabs : ∀ ind arena, arenas ind = some arena → arena.availSchunks ≠ 0 → arena.availSchunks ∈ cs
  opened : ∀ ind arena, arenas ind = some arena → ∀ cls < classNum,
    arena.availSregion cls ≠ 0 → arena.availSregion cls ∈ ss
  returned : ∀ p ∈ payloads, 0 < p.size ∧ p.small = true

/-- Every sregion that was made is accounted for. -/
def AllSregions (w₀ : World) (h : Heap) (ss : List Nat) : Prop :=
  ∀ s, ⟨s, .sregion⟩ ∈ h.blocks → ⟨s, .sregion⟩ ∈ w₀.blocks ∨ s ∈ ss

/-- The outstanding blocks of all threads lie in chunks made in the run, apart from each other,
from their headers, from the headers of all that was made, and from what was mapped before. The
chunks of any two descriptors that were made, by one arena or by two, are apart. -/
structure ProcessRun.NoOverlap (w₀ : World) (s : ProcessRun) : Prop where
  inside : ∀ b ∈ s.live, ∃ c, ⟨c, .chunk⟩ ∈ s.heap.blocks ∧ ⟨c, .chunk⟩ ∉ w₀.blocks ∧
    (s.heap.chunks c).paddr = chunkAddr2base b.start ∧
    b.Within (chunkSpan (s.heap.chunks c).paddr) ∧
    Mapped s.heap.maps (chunkSpan (s.heap.chunks c).paddr)
  apart : s.live.Pairwise Span.Apart
  headers : ∀ b ∈ s.live, ∀ o ∈ s.heap.blocks, o ∉ w₀.blocks → b.Apart (s.heap.header o)
  pslabs : ∀ b ∈ s.live, ∀ b' ∈ s.live, b.Apart ⟨szSub b'.start sizeofPslab, sizeofPslab⟩
  before : ∀ b ∈ s.live, ∀ r : Span, 0 < r.len → Mapped w₀.maps r → b.Apart r
  chunks : ∀ c d, c ≠ d → ⟨c, .chunk⟩ ∈ s.heap.blocks → ⟨c, .chunk⟩ ∉ w₀.blocks →
    ⟨d, .chunk⟩ ∈ s.heap.blocks → ⟨d, .chunk⟩ ∉ w₀.blocks →
    (chunkSpan (s.heap.chunks c).paddr).Apart (chunkSpan (s.heap.chunks d).paddr)

variable {w₀ : World} {h h' : Heap} {arenas : Nat → Option Arena} {arena arena' : Arena}
  {payloads : List Payload} {maps out : Nat → List Nat} {cs ss : List Nat}
  {items : List (Tagged Role)} {c ind : Nat}

/-! ## Parts of a call -/

/-- A chunk handed out by a pool lies in one of its mappings. -/
theorem SlabLayout.chunk (layout : SlabLayout w₀ h arenas payloads maps out cs ss items)
    (member : c ∈ cs) : Mapped h.maps (chunkSpan (h.chunks c).paddr) ∧
      ∀ r : Span, 0 < r.len → Mapped w₀.maps r → r.Apart (chunkSpan (h.chunks c).paddr) := by
  obtain ⟨ind, pp, here, taken⟩ := layout.taken c member
  obtain ⟨free, pool⟩ := layout.pools.each ind pp here
  obtain ⟨isBase, base, inMaps, within⟩ := pool.chunk (List.mem_append_right free taken)
  refine ⟨(pool.mapped base inMaps).mono within, ?_⟩
  intro r nonempty mapped
  exact ((layout.pools.clear ind pp here r nonempty mapped).2 base inMaps).mono₂ (.refl r) within

/-- Two descriptors have two chunks, of one pool or of two. -/
theorem SlabLayout.chunk_apart {d : Nat}
    (layout : SlabLayout w₀ h arenas payloads maps out cs ss items) (member : c ∈ cs)
    (member' : d ∈ cs) (other : c ≠ d) :
    (chunkSpan (h.chunks c).paddr).Apart (chunkSpan (h.chunks d).paddr) := by
  have laid := layout.laid
  have headers : (h.chunks c).header.Apart (h.chunks d).header := by
    refine Span.apart_of_mem laid.apart (laid.chunks c member).1 (laid.chunks d member').1 ?_
    exact fun same => other (Role.pchunk.inj (congrArg Tagged.tag same))
  have positive : 0 < sizeofPchunk := by decide
  have different : (h.chunks c).paddr ≠ (h.chunks d).paddr :=
    headers.start_ne positive positive
  exact chunkSpan_apart (laid.bumped c member).isBase.aligned (laid.bumped d member').isBase.aligned
    different

/-- The header of an object that was made is accounted for, as what it is. -/
theorem SlabLayout.header_item {o : Block}
    (layout : SlabLayout w₀ h arenas payloads maps out cs ss items) (all : AllSregions w₀ h ss)
    (isBlock : o ∈ h.blocks) (isNew : o ∉ w₀.blocks) :
    ∃ i ∈ items, i.tag ≠ .payload ∧ i.tag ≠ .pslab ∧ i.span = h.header o := by
  rcases o with ⟨a, object⟩
  cases object with
  | chunk =>
      have inCs : a ∈ cs := (layout.isChunk a).mpr ⟨isBlock, isNew⟩
      exact ⟨_, (layout.laid.chunks a inCs).1, by simp, by simp, rfl⟩
  | region => exact absurd (layout.regions a isBlock) isNew
  | sregion =>
      have inSs := (all a isBlock).resolve_left isNew
      exact ⟨_, (layout.laid.sregions a inSs).1, by simp, by simp, rfl⟩

/-- The layout gives the property. -/
theorem SlabLayout.noOverlap {s : ProcessRun}
    (layout : SlabLayout w₀ s.heap s.arenas payloads maps out cs ss items)
    (all : AllSregions w₀ s.heap ss) (live : s.live.Sublist (payloads.map Payload.span)) :
    s.NoOverlap w₀ := by
  have laid := layout.laid
  have isPayload : ∀ b ∈ s.live, ∃ p ∈ payloads, p.span = b := fun b member =>
    List.mem_map.mp (live.subset member)
  have isItem : ∀ p ∈ payloads, p.item ∈ items := fun p member =>
    laid.returned.subset (List.mem_map_of_mem member)
  have inChunk : ∀ p ∈ payloads, ∃ c ∈ cs, p.span.Within (chunkSpan (s.heap.chunks c).paddr) :=
    fun p member => laid.inside _ (isItem p member)
  have apartFrom : ∀ p ∈ payloads, ∀ i ∈ items, i.tag ≠ .payload → p.span.Apart i.span := by
    intro p member i other notPayload
    refine Span.apart_of_mem laid.apart (isItem p member) other ?_
    rintro rfl
    exact notPayload rfl
  constructor
  case inside =>
    intro b member
    obtain ⟨p, isPayload, rfl⟩ := isPayload b member
    obtain ⟨c, inCs, within⟩ := inChunk p isPayload
    have isBase := (laid.bumped c inCs).isBase
    have ends := isBase.ends
    have positive := (layout.returned p isPayload).1
    obtain ⟨isChunk, isNew⟩ := (layout.isChunk c).mp inCs
    refine ⟨c, isChunk, isNew, ?_, within, (layout.chunk inCs).1⟩
    rw [Payload.span, chunkSpan, Span.within_mk] at within
    exact (chunkAddr2base_of_within isBase.aligned within.1 (by omega) (by omega)).symm
  case apart =>
    have returned : payloads.Pairwise fun p q => p.item.Apart q.item :=
      List.pairwise_map.mp (laid.apart.sublist laid.returned)
    have spans : (payloads.map Payload.span).Pairwise Span.Apart := List.pairwise_map.mpr returned
    exact spans.sublist live
  case headers =>
    intro b member o isBlock isNew
    obtain ⟨p, isPayload, rfl⟩ := isPayload b member
    obtain ⟨i, isItem, notPayload, _, header⟩ := layout.header_item all isBlock isNew
    rw [← header]
    exact apartFrom p isPayload i isItem notPayload
  case pslabs =>
    intro b member b' member'
    obtain ⟨p, isPayload', rfl⟩ := isPayload b member
    obtain ⟨q, other, rfl⟩ := isPayload b' member'
    exact apartFrom p isPayload' ⟨.pslab, q.pslab⟩
      (laid.pslabs q other (layout.returned q other).2) (by simp)
  case before =>
    intro b member r nonempty mapped
    obtain ⟨p, isPayload, rfl⟩ := isPayload b member
    obtain ⟨c, inCs, within⟩ := inChunk p isPayload
    exact ((layout.chunk inCs).2 r nonempty mapped).symm.mono within
  case chunks =>
    intro c d other isBlock isNew isBlock' isNew'
    exact layout.chunk_apart ((layout.isChunk c).mpr ⟨isBlock, isNew⟩)
      ((layout.isChunk d).mpr ⟨isBlock', isNew'⟩) other

/-- A new sregion descriptor lies in DRAM. -/
theorem SlabLayout.newSregion (layout : SlabLayout w₀ h arenas payloads maps out cs ss items)
    {w : World} {sregion : Nat} (new : NewBlock h.toWorld w .sregion sregion) :
    SlabLayout w₀ { h with toWorld := w } arenas payloads maps out cs ss items := by
  have blocks : ∀ b : Block, b ∈ w.blocks ↔ b = ⟨sregion, .sregion⟩ ∨ b ∈ h.blocks := by
    intro b
    rw [new.blocks, List.mem_cons]
  constructor
  case pools => exact layout.pools.of_maps new.maps
  case laid =>
    exact layout.laid.congr (fun _ _ => ⟨rfl, rfl, rfl⟩) (fun _ _ => rfl) fun _ _ => rfl
  case taken => exact layout.taken
  case isChunk =>
    intro c
    rw [layout.isChunk c]
    change _ ↔ (⟨c, .chunk⟩ : Block) ∈ w.blocks ∧ _
    rw [blocks]
    simp
  case regions =>
    intro r isBlock
    rcases (blocks _).mp isBlock with same | old
    · cases same
    · exact layout.regions r old
  case isSregion => exact fun s member => (blocks _).mpr (.inr (layout.isSregion s member))
  case old => exact fun b member => (blocks b).mpr (.inr (layout.old b member))
  case before =>
    intro r nonempty mapped
    change Mapped w.maps r
    rw [new.maps]
    exact layout.before r nonempty mapped
  case slabs => exact layout.slabs
  case opened => exact layout.opened
  case returned => exact layout.returned

/-- The tail of a new chunk is behind its header. -/
theorem newChunk_tail {addr : Nat} (isBase : IsBase addr chunksize) (garbage : Chunk) (ind : Nat)
    (chunktype : ChunkType) (live : Bool) :
    (newChunk garbage addr ind chunktype live).tail = addr + sizeofPchunk := by
  have ends := isBase.ends
  rw [chunksize_eq] at ends
  refine szAdd_of_lt ?_
  simp only [sizeofPchunk]
  omega

/-- A chunk that is outstanding stays so when one more is taken. -/
theorem TakenFrom.cons {pools : Nat → Option Pmempool} {a addr : Nat} {pp : Pmempool}
    (taken : TakenFrom pools out a) :
    TakenFrom (Function.update pools ind (some pp))
      (Function.update out ind (addr :: out ind)) a := by
  obtain ⟨i, qq, here, member⟩ := taken
  by_cases same : i = ind
  · subst same
    refine ⟨i, pp, Function.update_self .., ?_⟩
    rw [Function.update_self]
    exact List.mem_cons_of_mem _ member
  · refine ⟨i, qq, ?_, ?_⟩
    · rwa [Function.update_of_ne same]
    · rwa [Function.update_of_ne same]

/-- A slab chunk for an arena joins the layout. -/
theorem SlabLayout.allocate (layout : SlabLayout w₀ h arenas payloads maps out cs ss items)
    (here : arenas ind = some arena) {addr : Nat}
    (allocated : ChunkAllocated h h' arena arena' .slab c addr) :
    (∃ maps' out' items', SlabLayout w₀ h' (Function.update arenas ind (some arena')) payloads
      maps' out' (c :: cs) ss items') ∧ (h'.chunks c).tail = (h'.chunks c).paddr + sizeofPchunk := by
  obtain ⟨blocks, fresh, nonnull⟩ := chunkTaken_objects allocated.pool
  obtain ⟨w, took, new⟩ := allocated.pool
  have pool : arenaPools arenas ind = some arena.pool := by rw [arenaPools, here]; rfl
  obtain ⟨⟨mine, pools⟩, kept, isBase, untaken⟩ :=
    layout.pools.chunkAlloc pool layout.before took
  obtain ⟨garbage, chunks, _⟩ := allocated.chunks
  have self : h'.chunks c = newChunk garbage addr arena.ind .slab true := by
    rw [chunks, Function.update_self]
  have notNew : c ∉ cs := by
    intro member
    exact fresh _ ((layout.isChunk c).mp member).1 rfl
  have others : ∀ d ∈ cs, h'.chunks d = h.chunks d := by
    intro d member
    rw [chunks, Function.update_of_ne (by rintro rfl; exact notNew member)]
  have different : ∀ d ∈ cs, (h.chunks d).paddr ≠ addr := by
    rintro d member rfl
    exact untaken (layout.taken d member)
  obtain ⟨items', laid⟩ := layout.laid.addChunk notNew isBase different chunks allocated.regions
    allocated.sregions
  have head : arena'.availSchunks = c := (allocated.slab (by decide)).2.2
  have inBlocks : ∀ b : Block, b.object ≠ .chunk → (b ∈ h'.blocks ↔ b ∈ h.blocks) :=
    fun b other => allocated.mem_blocks other
  refine ⟨⟨Function.update maps ind mine, Function.update out ind (addr :: out ind), items', ?_⟩, ?_⟩
  · constructor
    case pools =>
      rw [arenaPools_update]
      exact pools.of_maps new.maps
    case laid => exact laid
    case taken =>
      intro d member
      rw [arenaPools_update]
      rcases List.mem_cons.mp member with rfl | old
      · refine ⟨ind, arena'.pool, Function.update_self .., ?_⟩
        rw [self, Function.update_self]
        exact List.mem_cons_self
      · rw [others d old]
        exact (layout.taken d old).cons
    case isChunk =>
      intro d
      rw [List.mem_cons, blocks, List.mem_cons, layout.isChunk d]
      have isNew : (⟨c, .chunk⟩ : Block) ∉ w₀.blocks := fun old => fresh _ (layout.old _ old) rfl
      constructor
      · rintro (rfl | ⟨old, made⟩)
        · exact ⟨.inl rfl, isNew⟩
        · exact ⟨.inr old, made⟩
      · rintro ⟨same | old, made⟩
        · cases same
          exact .inl rfl
        · exact .inr ⟨old, made⟩
    case regions => exact fun r isBlock => layout.regions r ((inBlocks _ (by simp)).mp isBlock)
    case isSregion => exact fun s member => (inBlocks _ (by simp)).mpr (layout.isSregion s member)
    case old =>
      intro b member
      rw [blocks]
      exact List.mem_cons_of_mem _ (layout.old b member)
    case before =>
      intro r nonempty mapped
      rw [new.maps]
      exact kept r nonempty (layout.before r nonempty mapped)
    case slabs =>
      intro i a there nonempty
      by_cases same : i = ind
      · subst same
        rw [Function.update_self] at there
        cases there
        rw [head]
        exact List.mem_cons_self
      · rw [Function.update_of_ne same] at there
        exact List.mem_cons_of_mem _ (layout.slabs i a there nonempty)
    case opened =>
      intro i a there cls isClass
      by_cases same : i = ind
      · subst same
        rw [Function.update_self] at there
        cases there
        rw [allocated.availSregion]
        exact layout.opened i arena here cls isClass
      · rw [Function.update_of_ne same] at there
        exact layout.opened i a there cls isClass
    case returned => exact layout.returned
  · rw [self, newChunk_tail isBase]
    rfl

/-- An arena changes in its open sregions, and in fields that the layout does not speak of. -/
theorem SlabLayout.putArena (layout : SlabLayout w₀ h arenas payloads maps out cs ss items)
    (here : arenas ind = some arena) (pool : arena'.pool = arena.pool)
    (schunks : arena'.availSchunks = arena.availSchunks)
    (opened : ∀ cls < classNum, arena'.availSregion cls ≠ 0 → arena'.availSregion cls ∈ ss) :
    SlabLayout w₀ h (Function.update arenas ind (some arena')) payloads maps out cs ss items := by
  have pools : arenaPools (Function.update arenas ind (some arena')) = arenaPools arenas := by
    have mine : some arena'.pool = arenaPools arenas ind := by rw [arenaPools, here, pool]; rfl
    rw [arenaPools_update, mine, Function.update_eq_self]
  refine ⟨by rw [pools]; exact layout.pools, layout.laid, by rw [pools]; exact layout.taken,
    layout.isChunk, layout.regions, layout.isSregion, layout.old, layout.before, ?_, ?_,
    layout.returned⟩
  · intro i a there nonempty
    by_cases same : i = ind
    · subst same
      rw [Function.update_self] at there
      cases there
      rw [schunks] at nonempty ⊢
      exact layout.slabs i arena here nonempty
    · rw [Function.update_of_ne same] at there
      exact layout.slabs i a there nonempty
  · intro i a there
    by_cases same : i = ind
    · subst same
      rw [Function.update_self] at there
      cases there
      exact opened
    · rw [Function.update_of_ne same] at there
      exact layout.opened i a there

/-- The chunk `arena_malloc_small_hard` carves. -/
theorem SlabLayout.sregionChunk (layout : SlabLayout w₀ h arenas payloads maps out cs ss items)
    (here : arenas ind = some arena) (chosen : sregionChunk h arena = .ok (c, h', arena')) :
    ∃ maps' out' cs' items',
      SlabLayout w₀ h' (Function.update arenas ind (some arena')) payloads maps' out' cs' ss items' ∧
        c ∈ cs' ∧ HasRoom (h'.chunks c) sregionSize ∧ arena'.availSregion = arena.availSregion ∧
        ∀ b : Block, b.object ≠ .chunk → (b ∈ h'.blocks ↔ b ∈ h.blocks) := by
  rcases sregionChunk_effect chosen with
    ⟨rfl, rfl, rfl, nonnull, _, room, _⟩ | ⟨addr, allocated⟩
  · exact ⟨maps, out, cs, items, layout.putArena here rfl rfl
      (layout.opened ind _ here), layout.slabs ind _ here nonnull,
      .inl room, rfl, fun _ _ => Iff.rfl⟩
  · obtain ⟨⟨maps', out', items', kept⟩, fresh⟩ := layout.allocate here allocated
    exact ⟨maps', out', c :: cs, items', kept, List.mem_cons_self, .inr fresh,
      allocated.availSregion, fun _ other => allocated.mem_blocks other⟩

/-! ## Requests -/

/-- Bytes of a chunk are carved for a block; no chunk is made and no pool changes. -/
theorem SlabLayout.carved {p : Payload} {ss' : List Nat} {items' : List (Tagged Role)}
    (layout : SlabLayout w₀ h arenas payloads maps out cs ss items) (same : SameChunks h h')
    (blocks : h'.blocks = h.blocks) (laid : Laid h' cs [] ss' (p :: payloads) items')
    (isSregion : ∀ s ∈ ss', ⟨s, .sregion⟩ ∈ h'.blocks) (more : ∀ s ∈ ss, s ∈ ss')
    (nonempty : 0 < p.size) (small : p.small = true) :
    SlabLayout w₀ h' arenas (p :: payloads) maps out cs ss' items' where
  pools := layout.pools.of_maps same.maps
  laid := laid
  taken c member := by
    rw [same.paddr]
    exact layout.taken c member
  isChunk := by
    rw [blocks]
    exact layout.isChunk
  regions := by
    rw [blocks]
    exact layout.regions
  isSregion := isSregion
  old := by
    rw [blocks]
    exact layout.old
  before := by
    rw [same.maps]
    exact layout.before
  slabs := layout.slabs
  opened i a there cls isClass nonnull := more _ (layout.opened i a there cls isClass nonnull)
  returned := List.forall_mem_cons.mpr ⟨⟨nonempty, small⟩, layout.returned⟩

/-- A new sregion, with its first slab given out, keeps the layout. -/
theorem SlabLayout.smallHard {size user ptr cls ret : Nat}
    (layout : SlabLayout w₀ h arenas payloads maps out cs ss items) (all : AllSregions w₀ h ss)
    (here : arenas ind = some arena) (nonempty : 1 ≤ user) (holds : user ≤ size)
    (small : size ≤ arenaMaxsmall)
    (allocated : arenaMallocSmallHard h arena size ptr cls = .ok (ret, h', arena')) :
    ∃ maps' out' cs' ss' items',
      SlabLayout w₀ h' (Function.update arenas ind (some arena')) (⟨ret, user, true⟩ :: payloads)
        maps' out' cs' ss' items' ∧ AllSregions w₀ h' ss' := by
  obtain ⟨sregion, w, c, h₁, arena₁, new, chosen, carved, rfl, rfl⟩ :=
    arenaMallocSmallHard_effect allocated
  obtain ⟨maps', out', cs', items₁, layout₁, member, room, sameOpened, sameBlocks⟩ :=
    (layout.newSregion new).sregionChunk here chosen
  have fits : sregionSize ≤ (h₁.chunks c).availsize := by
    refine room.fits (layout₁.laid.bumped c member) ?_
    rw [chunksize_eq]
    decide
  have fresh : sregion ∉ ss := fun old => new.fresh _ (layout.isSregion sregion old) rfl
  obtain ⟨items₂, laid⟩ := layout₁.laid.carveSregion member fresh carved fits holds small
  have blocks : ∀ s, (⟨s, .sregion⟩ : Block) ∈ h'.blocks ↔ s = sregion ∨ ⟨s, .sregion⟩ ∈ h.blocks := by
    intro s
    rw [carved.world, sameBlocks _ (by simp)]
    change (⟨s, .sregion⟩ : Block) ∈ w.blocks ↔ _
    rw [new.blocks, List.mem_cons, Block.mk.injEq]
    simp
  have isSregion : ∀ s ∈ sregion :: ss, (⟨s, .sregion⟩ : Block) ∈ h'.blocks := by
    intro s member
    rw [blocks]
    exact (List.mem_cons.mp member).imp_right (layout.isSregion s)
  have layout₂ := layout₁.carved carved.sameChunks (by rw [carved.world]) laid isSregion
    (fun _ => List.mem_cons_of_mem _) nonempty rfl
  have now : Function.update arenas ind (some arena₁) ind = some arena₁ := Function.update_self ..
  have opened : ∀ other < classNum, Function.update arena₁.availSregion cls sregion other ≠ 0 →
      Function.update arena₁.availSregion cls sregion other ∈ sregion :: ss := by
    intro other isClass
    by_cases same : other = cls
    · subst same
      simp
    · rw [Function.update_of_ne same]
      exact layout₂.opened ind arena₁ now other isClass
  have layout₃ : SlabLayout w₀ h' (Function.update (Function.update arenas ind (some arena₁)) ind
      (some { arena₁ with availSregion := Function.update arena₁.availSregion cls sregion }))
      _ maps' out' cs' (sregion :: ss) items₂ := layout₂.putArena now rfl rfl opened
  rw [Function.update_idem] at layout₃
  refine ⟨maps', out', cs', sregion :: ss, items₂, layout₃, ?_⟩
  intro s isBlock
  rcases (blocks s).mp isBlock with rfl | old
  · exact .inr List.mem_cons_self
  · exact (all s old).imp_right (List.mem_cons_of_mem _)

/-- Every small request keeps the layout. -/
theorem SlabLayout.small {size ptr ret : Nat}
    (layout : SlabLayout w₀ h arenas payloads maps out cs ss items) (all : AllSregions w₀ h ss)
    (here : arenas ind = some arena) (nonempty : 1 ≤ size) (small : size < arenaMaxsmall)
    (allocated : arenaMallocSmall h arena size ptr = .ok (ret, h', arena')) :
    ∃ maps' out' cs' ss' items',
      SlabLayout w₀ h' (Function.update arenas ind (some arena')) (⟨ret, size, true⟩ :: payloads)
        maps' out' cs' ss' items' ∧ AllSregions w₀ h' ss' := by
  obtain ⟨isClass, holds, bound⟩ := sizeToClass_spec small
  rcases arenaMallocSmall_effect allocated with ⟨rfl, nonnull, carved, rfl, fits⟩ | hard
  · have isOpen := layout.opened ind _ here _ isClass nonnull
    obtain ⟨items', laid⟩ := layout.laid.carveSlab isOpen carved bound fits holds
    have sameBlocks : h'.blocks = h.blocks := by rw [carved.world]
    have isSregion : ∀ s ∈ ss, (⟨s, .sregion⟩ : Block) ∈ h'.blocks := by
      rw [sameBlocks]
      exact layout.isSregion
    have later := layout.carved carved.sameChunks sameBlocks laid isSregion (fun _ => id)
      nonempty rfl
    refine ⟨maps, out, cs, ss, items', later.putArena here rfl rfl (later.opened ind _ here), ?_⟩
    intro s isBlock
    rw [sameBlocks] at isBlock
    exact all s isBlock
  · exact layout.smallHard all here nonempty holds bound hard

/-! ## Arenas -/

/-- An arena is made at an index that had none. -/
theorem SlabLayout.arenaNew (layout : SlabLayout w₀ h arenas payloads maps out cs ss items)
    (vacant : arenas ind = none) (made : arenaNew h arena ind = .ok (h', arena')) :
    ∃ maps' out', SlabLayout w₀ h' (Function.update arenas ind (some arena')) payloads maps' out'
      cs ss items ∧ h'.blocks = h.blocks := by
  obtain ⟨_, _, sameBlocks, _, closed⟩ := arenaNew_chunks made
  obtain ⟨⟨w, pool⟩, created, made⟩ := Execution.bind_eq_ok.mp made
  simp only [Except.ok.injEq, Prod.mk.injEq] at made
  obtain ⟨rfl, rfl⟩ := made
  obtain ⟨base, pools, kept⟩ := layout.pools.create ind layout.before created
  refine ⟨Function.update maps ind [base], Function.update out ind [], ?_, sameBlocks⟩
  have none : arenaPools arenas ind = none := by rw [arenaPools, vacant]; rfl
  constructor
  case pools =>
    rw [arenaPools_update]
    exact pools
  case laid =>
    exact layout.laid.congr (fun _ _ => ⟨rfl, rfl, rfl⟩) (fun _ _ => rfl) fun _ _ => rfl
  case taken =>
    intro c member
    obtain ⟨i, pp, there, taken⟩ := layout.taken c member
    have different : i ≠ ind := by
      rintro rfl
      rw [none] at there
      cases there
    refine ⟨i, pp, ?_, ?_⟩
    · rwa [arenaPools_update, Function.update_of_ne different]
    · rwa [Function.update_of_ne different]
  case isChunk =>
    change ∀ c, c ∈ cs ↔ ⟨c, .chunk⟩ ∈ w.blocks ∧ _
    rw [sameBlocks]
    exact layout.isChunk
  case regions =>
    rw [sameBlocks]
    exact layout.regions
  case isSregion =>
    rw [sameBlocks]
    exact layout.isSregion
  case old =>
    rw [sameBlocks]
    exact layout.old
  case before => exact fun r nonempty mapped => kept r nonempty (layout.before r nonempty mapped)
  case slabs =>
    intro i a there nonempty
    by_cases same : i = ind
    · subst same
      rw [Function.update_self] at there
      cases there
      exact absurd rfl nonempty
    · rw [Function.update_of_ne same] at there
      exact layout.slabs i a there nonempty
  case opened =>
    intro i a there cls isClass nonnull
    by_cases same : i = ind
    · subst same
      rw [Function.update_self] at there
      cases there
      exact absurd (closed cls isClass) nonnull
    · rw [Function.update_of_ne same] at there
      exact layout.opened i a there cls isClass nonnull
  case returned => exact layout.returned

/-! ## Calls -/

/-- The layout of a process, which accounts for the outstanding blocks `live`. -/
def Process.Laid (w₀ : World) (p : Process) (live : List Span) : Prop :=
  ∃ payloads maps out cs ss items, SlabLayout w₀ p.heap p.arenas payloads maps out cs ss items ∧
    AllSregions w₀ p.heap ss ∧ live.Sublist (payloads.map Payload.span)

variable {p p' : Process} {live : List Span} {thread ret : Nat}

/-- `arenas_extend` at an index that has no arena. -/
theorem Process.Laid.arenasExtend (laid : p.Laid w₀ live) (vacant : p.arenas ind = none)
    (extended : arenasExtend p ind = .ok p') : p'.Laid w₀ live := by
  obtain ⟨payloads, maps, out, cs, ss, items, layout, all, sub⟩ := laid
  obtain ⟨⟨heap, arena⟩, made, extended⟩ := Execution.bind_eq_ok.mp extended
  cases extended
  obtain ⟨maps', out', later, sameBlocks⟩ := layout.arenaNew vacant made
  refine ⟨payloads, maps', out', cs, ss, items, later, ?_, sub⟩
  intro s isBlock
  change (⟨s, .sregion⟩ : Block) ∈ heap.blocks at isBlock
  rw [sameBlocks] at isBlock
  exact all s isBlock

/-- Giving a thread an arena counts it there. -/
theorem Process.Laid.assignArena {i : Nat} (laid : p.Laid w₀ live)
    (assigned : assignArena p thread ind = .ok (i, p')) : p'.Laid w₀ live := by
  obtain ⟨payloads, maps, out, cs, ss, items, layout, all, sub⟩ := laid
  obtain ⟨arena, read, assigned⟩ := Execution.bind_eq_ok.mp assigned
  simp only [Except.ok.injEq, Prod.mk.injEq] at assigned
  obtain ⟨rfl, rfl⟩ := assigned
  have here := Process.arenas_eq_some read
  exact ⟨payloads, maps, out, cs, ss, items, layout.putArena here rfl rfl
    (layout.opened ind arena here), all, sub⟩

/-- The loop of `choose_arena_hard` notes an index only if it has no arena. -/
theorem chooseRound_foldl_vacant (p : Process) (is : List Nat) (found : Nat × Nat)
    (vacant : found.2 = p.narenasAuto ∨ p.arenas found.2 = none) :
    (is.foldl (chooseRound p) found).2 = p.narenasAuto ∨
      p.arenas (is.foldl (chooseRound p) found).2 = none := by
  induction is generalizing found with
  | nil => exact vacant
  | cons i is ih =>
      refine ih _ ?_
      unfold chooseRound
      cases here : p.arenas i with
      | none =>
          simp only
          split
          · exact .inr here
          · exact vacant
      | some arena =>
          simp only
          split <;> exact vacant

/-- `choose_arena` keeps the layout, whether or not it makes an arena. -/
theorem Process.Laid.chooseArena {i : Nat} (laid : p.Laid w₀ live)
    (chosen : chooseArena p thread = .ok (i, p')) : p'.Laid w₀ live := by
  unfold Lsmalloc.chooseArena at chosen
  split at chosen
  · cases chosen
    exact laid
  unfold chooseArenaHard at chosen
  split at chosen
  · split at chosen
    · cases chosen
    have noted := chooseRound_foldl_vacant p (List.range' 1 (p.narenasAuto - 1))
      (0, p.narenasAuto) (.inl rfl)
    simp only at chosen
    split at chosen
    · exact laid.assignArena chosen
    · rename_i extend
      obtain ⟨p₁, extended, assigned⟩ := Execution.bind_eq_ok.mp chosen
      have vacant := noted.resolve_left fun none => extend (.inr none)
      exact (laid.arenasExtend vacant extended).assignArena assigned
  · exact laid.assignArena chosen

/-- A small request of any thread adds its block to the layout. -/
theorem Process.Laid.threadMalloc {size ptr : Nat} (laid : p.Laid w₀ live) (nonempty : 1 ≤ size)
    (small : size < arenaMaxsmall) (served : threadMalloc p thread size ptr = .ok (ret, p')) :
    p'.Laid w₀ (⟨ret, size⟩ :: live) := by
  obtain ⟨⟨ind, p₁⟩, chosen, served⟩ := Execution.bind_eq_ok.mp served
  obtain ⟨arena, read, served⟩ := Execution.bind_eq_ok.mp served
  obtain ⟨⟨ret', heap, arena'⟩, allocated, served⟩ := Execution.bind_eq_ok.mp served
  simp only [Except.ok.injEq, Prod.mk.injEq] at served
  obtain ⟨rfl, rfl⟩ := served
  obtain ⟨payloads, maps, out, cs, ss, items, layout, all, sub⟩ := laid.chooseArena chosen
  have here := Process.arenas_eq_some read
  rw [arenaMalloc, if_pos small] at allocated
  obtain ⟨maps', out', cs', ss', items', later, all'⟩ :=
    layout.small all here nonempty small allocated
  exact ⟨⟨ret', size, true⟩ :: payloads, maps', out', cs', ss', items', later, all',
    sub.cons_cons _⟩

/-! ## Runs -/

/-- What a call that completes was: a small request that its thread's arena served, or a free that
did nothing. -/
theorem ProcessRun.Inv.step_cases {s s' : ProcessRun} {op : ProcessOp} (inv : s.Inv)
    (stepped : s.step op = .ok s') :
    (∃ thread size ptr node ret p, op = .lsmalloc thread size ptr node ∧ 1 ≤ requestSize size ∧
        requestSize size < arenaMaxsmall ∧
        threadMalloc s.toProcess thread (requestSize size) ptr = .ok (ret, p) ∧
        s' = ⟨p, ⟨ret, requestSize size⟩ :: s.live⟩) ∨
      ∃ ptr, op = .lsfree ptr ∧ (∃ b ∈ s.live, b.start = ptr) ∧
        s' = { s with live := s.live.eraseP fun b => b.start = ptr } := by
  have small : op.Small := by
    by_contra large
    exact (inv.step_large large).2 s' stepped
  cases op with
  | lsmalloc thread size ptr node =>
      obtain ⟨⟨ret, p⟩, called, stepped⟩ := Execution.bind_eq_ok.mp stepped
      cases stepped
      obtain ⟨nonempty, sameSmall⟩ := requestSize_spec size
      have fits : requestSize size ≤ arenaMaxlarge := by
        have bound : arenaMaxsmall ≤ arenaMaxlarge := by decide
        exact (sameSmall.mpr small).le.trans bound
      have initialized : ¬ s.mallocInitialized = false := by rw [inv.1.initialized]; simp
      rw [Lsmalloc.lsmalloc, if_neg initialized] at called
      change imalloct s.toProcess thread (requestSize size) ptr node = _ at called
      rw [imalloct, if_pos fits] at called
      exact .inl ⟨thread, size, ptr, node, ret, p, rfl, nonempty, sameSmall.mpr small, called, rfl⟩
  | lsfree ptr =>
      simp only [ProcessRun.step] at stepped
      split at stepped
      · rename_i outstanding
        obtain ⟨b, member, rfl⟩ := outstanding
        obtain ⟨c, described, behind, _⟩ := (inv.2 b member).described
        rw [described.lsfree_inert behind] at stepped
        cases stepped
        exact .inr ⟨b.start, rfl, ⟨b, member, rfl⟩, rfl⟩
      · cases stepped

/-- A call that completes keeps the layout. -/
theorem ProcessRun.step_laid {s s' : ProcessRun} {op : ProcessOp} (inv : s.Inv)
    (laid : s.toProcess.Laid w₀ s.live) (stepped : s.step op = .ok s') :
    s'.toProcess.Laid w₀ s'.live := by
  rcases inv.step_cases stepped with ⟨_, _, _, _, _, _, rfl, nonempty, small, served, rfl⟩ |
    ⟨ptr, rfl, _, rfl⟩
  · exact laid.threadMalloc nonempty small served
  · obtain ⟨payloads, maps, out, cs, ss, items, layout, all, sub⟩ := laid
    exact ⟨payloads, maps, out, cs, ss, items, layout, all, List.eraseP_sublist.trans sub⟩

/-- `malloc_init_hard` makes the first arena. -/
theorem mallocInitHard_laid {garbage : Nat → Arena} {nprocessors : Int}
    (started : mallocInitHard (.loaded h garbage nprocessors) = .ok p) :
    p.Laid h.toWorld [] := by
  obtain ⟨p₁, extended, _, rfl⟩ := mallocInitHard_effect rfl started
  have pools : PoolsOk h.toWorld h.toWorld (arenaPools fun _ => none) (fun _ => []) fun _ => [] :=
    ⟨by simp [arenaPools], by simp [arenaPools], by simp [arenaPools]⟩
  have nothing : Lsmalloc.Laid h [] [] [] [] [] :=
    ⟨by simp, by simp, by simp, by simp, by simp, by simp, by simp, by simp⟩
  have empty : SlabLayout h.toWorld h (fun _ => none) [] (fun _ => []) (fun _ => []) [] [] [] :=
    ⟨pools, nothing, by simp, by simp, fun _ => id, by simp, fun _ => id, fun _ _ => id, by simp,
      by simp, by simp⟩
  have start : Process.Laid h.toWorld
      { Process.loaded h garbage nprocessors with narenasAuto := 1, arenas := fun _ => none } [] :=
    ⟨[], _, _, [], [], [], empty, fun _ => .inl, by simp⟩
  have later : p₁.Laid h.toWorld [] := start.arenasExtend rfl extended
  exact later

/-- **Blocks of all threads.** However the calls of the threads are ordered, and whichever arenas
they make, no outstanding block overlaps another, a header, or what was mapped before. -/
theorem processRun_noOverlap {garbage : Nat → Arena} {nprocessors : Int} {ops : List ProcessOp}
    {s : ProcessRun} (reached : processRun h garbage nprocessors ops = .ok s) :
    s.NoOverlap h.toWorld := by
  obtain ⟨p, started, ran⟩ := Execution.bind_eq_ok.mp reached
  have start : ProcessRun.Inv ⟨p, []⟩ ∧ Process.Laid h.toWorld p [] :=
    ⟨⟨(mallocInitHard_ok h garbage nprocessors).2 p started, by simp⟩, mallocInitHard_laid started⟩
  have kept : ∀ (s : ProcessRun) op s', s.Inv ∧ s.toProcess.Laid h.toWorld s.live →
      s.step op = .ok s' → s'.Inv ∧ s'.toProcess.Laid h.toWorld s'.live :=
    fun _ _ _ ⟨inv, laid⟩ stepped => ⟨inv.step stepped, ProcessRun.step_laid inv laid stepped⟩
  obtain ⟨_, _, _, _, _, _, _, layout, all, sub⟩ := Execution.run_kept kept start ran
  exact layout.noOverlap all sub

/-- Two threads on arenas of their own, three blocks and a free. -/
theorem processRun_noOverlap_of_twoThreads :
    ∃ s, processRun (.fresh [chunksize, 2 ^ 30] [1024, 2048, 4096, 8192]) (fun _ => .zeroed) 2
        [.lsmalloc 0 100 0 0, .lsmalloc 1 100 0 0, .lsmalloc 0 100 0 0, .lsfree 4194336] = .ok s ∧
      s.NoOverlap (World.fresh [chunksize, 2 ^ 30] [1024, 2048, 4096, 8192]) := by
  obtain ⟨s, reached⟩ : ∃ s, processRun (.fresh [chunksize, 2 ^ 30] [1024, 2048, 4096, 8192])
      (fun _ => .zeroed) 2 [.lsmalloc 0 100 0 0, .lsmalloc 1 100 0 0, .lsmalloc 0 100 0 0,
        .lsfree 4194336] = .ok s := Execution.exists_eq_ok (by decide +kernel)
  exact ⟨s, reached, processRun_noOverlap reached⟩

end Lsmalloc
