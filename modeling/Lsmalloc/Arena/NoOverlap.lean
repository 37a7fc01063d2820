import Lsmalloc.Arena.Layout

/-!
# Returned blocks do not overlap

`Layout` joins the layout of an arena's chunks to its queues. Every request of at
most `chunksize - 16` bytes keeps it, and so keeps returned blocks apart from each
other and from every header. A larger request does not fit the fresh chunk
`arena_region_alloc` takes for it, and the block it returns runs past the chunk's end
(`Layout.oversize`). So a run keeps `NoOverlap` exactly when it makes no such request
(`arenaRun_noOverlap_iff`).
-/

namespace Lsmalloc

open Span (Tagged)

/-- The header an object of the arena has in PMEM. -/
def Heap.header (h : Heap) (b : Block) : Span :=
  match b.object with
  | .chunk => (h.chunks b.addr).header
  | .region => (h.regions b.addr).header
  | .sregion => (h.sregions b.addr).header

/-- Every returned block lies in a chunk of the arena, apart from the other blocks,
from all headers, and from all that was mapped before. -/
structure NoOverlap (w₀ : World) (s : ArenaRun) : Prop where
  inside : ∀ p ∈ s.payloads, p.span.Within (chunkSpan (chunkAddr2base p.addr)) ∧
    ∃ c, ⟨c, .chunk⟩ ∈ s.heap.blocks ∧ ⟨c, .chunk⟩ ∉ w₀.blocks ∧
      (s.heap.chunks c).paddr = chunkAddr2base p.addr
  apart : s.payloads.Pairwise fun p q => p.span.Apart q.span
  headers : ∀ p ∈ s.payloads, ∀ b ∈ s.heap.blocks, b ∉ w₀.blocks →
    p.span.Apart (s.heap.header b)
  pslabs : ∀ p ∈ s.payloads, ∀ q ∈ s.payloads, q.small = true → p.span.Apart q.pslab
  before : ∀ p ∈ s.payloads, ∀ r : Span, 0 < r.len → Mapped w₀.maps r → p.span.Apart r

/-! ## The invariant -/

/-- The layout of the chunks on the two queues, which accounts for every region and
sregion made since `w₀` and for the open sregion of every class. -/
structure Layout (w₀ : World) (h : Heap) (arena : Arena) (payloads : List Payload)
    (logs slabs rs ss : List Nat) (items : List (Tagged Role)) : Prop where
  chunks : ChunksOk w₀ h arena logs slabs
  laid : Laid h (logs ++ slabs) rs ss payloads items
  regions : ∀ r, ⟨r, .region⟩ ∈ h.blocks → ⟨r, .region⟩ ∈ w₀.blocks ∨ r ∈ rs
  sregions : ∀ s, ⟨s, .sregion⟩ ∈ h.blocks → ⟨s, .sregion⟩ ∈ w₀.blocks ∨ s ∈ ss
  isRegion : ∀ r ∈ rs, ⟨r, .region⟩ ∈ h.blocks
  isSregion : ∀ s ∈ ss, ⟨s, .sregion⟩ ∈ h.blocks
  opened : ∀ cls < classNum, arena.availSregion cls ≠ 0 → arena.availSregion cls ∈ ss
  positive : ∀ p ∈ payloads, 0 < p.size

variable {w₀ : World} {h h' : Heap} {arena arena' : Arena} {payloads : List Payload}
  {logs slabs rs ss : List Nat} {items : List (Tagged Role)} {c : Nat}

/-- The order of the chunks does not matter. -/
theorem Laid.of_mem {cs cs' : List Nat} (laid : Laid h cs rs ss payloads items)
    (same : ∀ c, c ∈ cs' ↔ c ∈ cs) : Laid h cs' rs ss payloads items where
  apart := laid.apart
  inside i member := by
    obtain ⟨c, inCs, within⟩ := laid.inside i member
    exact ⟨c, (same c).mpr inCs, within⟩
  returned := laid.returned
  pslabs := laid.pslabs
  bumped c member := laid.bumped c ((same c).mp member)
  chunks c member := laid.chunks c ((same c).mp member)
  regions := laid.regions
  sregions := laid.sregions

/-- The invariant gives the property. -/
theorem Layout.noOverlap {s : ArenaRun}
    (layout : Layout w₀ s.heap s.arena s.payloads logs slabs rs ss items) : NoOverlap w₀ s := by
  have laid := layout.laid
  have isItem : ∀ p ∈ s.payloads, p.item ∈ items := fun p member =>
    laid.returned.subset (List.mem_map_of_mem member)
  have inChunk : ∀ p ∈ s.payloads, ∃ c ∈ logs ++ slabs,
      p.span.Within (chunkSpan (s.heap.chunks c).paddr) :=
    fun p member => laid.inside _ (isItem p member)
  have apartFrom : ∀ p ∈ s.payloads, ∀ i ∈ items, i.tag ≠ .payload → p.span.Apart i.span := by
    intro p member i other notPayload
    refine Span.apart_of_mem laid.apart (isItem p member) other ?_
    rintro rfl
    exact notPayload rfl
  refine ⟨?_, ?_, ?_, ?_, ?_⟩
  · intro p member
    obtain ⟨c, inCs, within⟩ := inChunk p member
    have isBase := (laid.bumped c inCs).isBase
    have ends := isBase.ends
    have positive := layout.positive p member
    have base : chunkAddr2base p.addr = (s.heap.chunks c).paddr := by
      rw [Payload.span, chunkSpan, Span.within_mk] at within
      exact chunkAddr2base_of_within isBase.aligned within.1 (by omega) (by omega)
    rw [base]
    obtain ⟨isChunk, isNew⟩ := (layout.chunks.out.new c).mp inCs
    exact ⟨within, c, isChunk, isNew, rfl⟩
  · have all : s.payloads.Pairwise fun p q => p.item.Apart q.item :=
      List.pairwise_map.mp (laid.apart.sublist laid.returned)
    exact all
  · intro p member b isBlock isNew
    rcases b with ⟨a, object⟩
    cases object with
    | chunk =>
        have inCs : a ∈ logs ++ slabs := (layout.chunks.out.new a).mpr ⟨isBlock, isNew⟩
        exact apartFrom p member _ (laid.chunks a inCs).1 (by simp)
    | region =>
        have inRs := (layout.regions a isBlock).resolve_left isNew
        exact apartFrom p member _ (laid.regions a inRs) (by simp)
    | sregion =>
        have inSs := (layout.sregions a isBlock).resolve_left isNew
        exact apartFrom p member _ (laid.sregions a inSs).1 (by simp)
  · intro p member q other small
    exact apartFrom p member ⟨.pslab, q.pslab⟩ (laid.pslabs q other small) (by simp)
  · intro p member r nonempty mapped
    obtain ⟨c, inCs, within⟩ := inChunk p member
    exact (((layout.chunks.out.chunk inCs).2.2 r nonempty mapped).symm.mono within)

/-! ## A chunk for a request -/

/-- A chunk with the room asked for, or a fresh one. -/
def HasRoom (chunk : Chunk) (size : Nat) : Prop :=
  size ≤ chunk.availsize ∨ chunk.tail = chunk.paddr + sizeofPchunk

/-- A new chunk joins the layout. -/
theorem Laid.allocate {cs : List Nat} {chunktype : ChunkType} {addr : Nat}
    (laid : Laid h cs rs ss payloads items) (out : ChunksOut w₀ h' arena' (c :: cs))
    (allocated : ChunkAllocated h h' arena arena' chunktype c addr) :
    (∃ items', Laid h' (c :: cs) rs ss payloads items') ∧
      (h'.chunks c).tail = (h'.chunks c).paddr + sizeofPchunk := by
  obtain ⟨garbage, chunks, _⟩ := allocated.chunks
  obtain ⟨paddr, others⟩ := newChunk_paddr chunks
  have fresh : c ∉ cs := (List.nodup_cons.mp out.distinct).1
  have isBase := (out.chunk (c := c) (by simp)).1
  rw [paddr] at isBase
  have different : ∀ d ∈ cs, (h.chunks d).paddr ≠ addr := by
    intro d member same
    have notNew : d ≠ c := by rintro rfl; exact fresh member
    have both : (h'.chunks d).paddr = (h'.chunks c).paddr := by rw [others d notNew, same, paddr]
    exact notNew (out.paddr_inj (List.mem_cons_of_mem _ member) (by simp) both)
  obtain ⟨items', kept⟩ :=
    laid.addChunk fresh isBase different chunks allocated.regions allocated.sregions
  refine ⟨⟨items', kept⟩, ?_⟩
  have ends := isBase.ends
  rw [paddr, chunks, Function.update_self]
  apply szAdd_of_lt
  rw [chunksize_eq] at ends
  simp only [sizeofPchunk]
  omega

/-- The chunk `arena_region_alloc` appends to. -/
theorem Laid.regionChunk {size : Nat} (laid : Laid h (logs ++ slabs) rs ss payloads items)
    (ok : ChunksOk w₀ h arena logs slabs)
    (chosen : regionChunk h arena size = .ok (c, h', arena')) :
    ∃ logs' items', ChunksOk w₀ h' arena' logs' slabs ∧
      Laid h' (logs' ++ slabs) rs ss payloads items' ∧ c ∈ logs' ∧
      HasRoom (h'.chunks c) size ∧ arena'.availSregion = arena.availSregion ∧
      ∀ b : Block, b.object ≠ .chunk → (b ∈ h'.blocks ↔ b ∈ h.blocks) := by
  rcases regionChunk_effect chosen with
    ⟨rfl, rfl, rfl, nonnull, _, room, _⟩ | ⟨_, _, addr, allocated⟩
  · exact ⟨logs, items, ok, laid, ok.logRing.first_mem nonnull, .inl room, rfl,
      fun _ _ => Iff.rfl⟩
  · have retired := ok.of_same (SameChunks.retire h arena.availChunks) rfl rfl rfl
    have laidRetired : Laid (h.putChunk arena.availChunks
        { h.chunks arena.availChunks with live := false }) (logs ++ slabs) rs ss payloads items := by
      refine laid.congr ?_ (fun _ _ => rfl) fun _ _ => rfl
      intro d _
      by_cases same : d = arena.availChunks <;> simp [Heap.putChunk, same]
    have later := retired.allocLog allocated
    obtain ⟨⟨items', kept⟩, fresh⟩ := laidRetired.allocate (by simpa using later.out) allocated
    exact ⟨c :: logs, items', later, by simpa using kept, by simp, .inr fresh,
      allocated.availSregion, fun _ other => allocated.mem_blocks other⟩

/-- The chunk `arena_malloc_small_hard` carves. -/
theorem Laid.sregionChunk (laid : Laid h (logs ++ slabs) rs ss payloads items)
    (ok : ChunksOk w₀ h arena logs slabs)
    (chosen : sregionChunk h arena = .ok (c, h', arena')) :
    ∃ slabs' items', ChunksOk w₀ h' arena' logs slabs' ∧
      Laid h' (logs ++ slabs') rs ss payloads items' ∧ c ∈ slabs' ∧
      HasRoom (h'.chunks c) sregionSize ∧ arena'.availSregion = arena.availSregion ∧
      ∀ b : Block, b.object ≠ .chunk → (b ∈ h'.blocks ↔ b ∈ h.blocks) := by
  rcases sregionChunk_effect chosen with
    ⟨rfl, rfl, rfl, nonnull, _, room, _⟩ | ⟨addr, allocated⟩
  · exact ⟨slabs, items, ok, laid, ok.slabRing.first_mem nonnull, .inl room, rfl,
      fun _ _ => Iff.rfl⟩
  · have later := ok.allocSlab allocated
    have perm : (logs ++ c :: slabs).Perm (c :: (logs ++ slabs)) := List.perm_middle
    obtain ⟨⟨items', kept⟩, fresh⟩ := laid.allocate (later.out.of_perm perm) allocated
    exact ⟨c :: slabs, items', later, kept.of_mem fun d => perm.mem_iff, by simp, .inr fresh,
      allocated.availSregion, fun _ other => allocated.mem_blocks other⟩

/-- A fresh chunk has room for whatever fits behind a chunk header. -/
theorem HasRoom.fits {chunk : Chunk} {size : Nat} (room : HasRoom chunk size)
    (bumped : chunk.Bumped) (bound : size ≤ chunksize - sizeofPchunk) :
    size ≤ chunk.availsize := by
  rcases room with enough | fresh
  · exact enough
  · have ends := bumped.ends
    omega

/-! ## Requests -/

/-- The bytes `arena_malloc_large` reserves. -/
theorem regionSize_eq {size : Nat} (admitted : size ≤ arenaMaxlarge) :
    regionSize size = (size + 15) / 8 * 8 := by
  have bound : arenaMaxlarge = 4194304 := rfl
  rw [bound] at admitted
  have header : szAdd size sizeofPregion = size + 8 := szAdd_of_lt (by simp only [sizeofPregion]; omega)
  rw [regionSize, header, alignmentCeiling_eight (by omega)]

/-- A request that leaves room for both headers of a chunk keeps the layout. -/
theorem Layout.large {size ptr threadid ret : Nat}
    (layout : Layout w₀ h arena payloads logs slabs rs ss items) (nonempty : 1 ≤ size)
    (bound : size ≤ chunksize - sizeofPchunk - sizeofPregion)
    (allocated : arenaMallocLarge h arena size ptr threadid = .ok (ret, h', arena')) :
    ∃ logs' rs' items', Layout w₀ h' arena' (⟨ret, size, false⟩ :: payloads)
      logs' slabs rs' ss items' := by
  have headers : sizeofPchunk = 8 ∧ sizeofPregion = 8 := ⟨rfl, rfl⟩
  rw [headers.1, headers.2] at bound
  have reserved : regionSize size = (size + 15) / 8 * 8 := regionSize_eq (by
    have : arenaMaxlarge = chunksize := rfl
    omega)
  obtain ⟨region, w, c, h₁, new, chosen, placed, rfl⟩ := arenaRegionAlloc_effect allocated
  have sameNew := SameChunks.newBlock new (by decide)
  have ok₀ : ChunksOk w₀ { h with toWorld := w } arena logs slabs :=
    layout.chunks.of_same sameNew rfl rfl rfl
  have laid₀ : Laid { h with toWorld := w } (logs ++ slabs) rs ss payloads items :=
    layout.laid.congr (fun _ _ => ⟨rfl, rfl, rfl⟩) (fun _ _ => rfl) fun _ _ => rfl
  obtain ⟨logs', items₁, ok₁, laid₁, member, room, sameOpened, sameBlocks⟩ :=
    laid₀.regionChunk ok₀ chosen
  have inCs : c ∈ logs' ++ slabs := List.mem_append_left _ member
  have fits : regionSize size ≤ (h₁.chunks c).availsize := by
    refine room.fits (laid₁.bumped c inCs) ?_
    rw [reserved, headers.1]
    rw [chunksize_eq] at bound ⊢
    omega
  have fresh : region ∉ rs := fun old => new.fresh _ (layout.isRegion region old) rfl
  have holds : size + sizeofPregion ≤ regionSize size := by
    rw [reserved, headers.2]
    omega
  obtain ⟨items₂, laid₂⟩ := laid₁.place inCs fresh placed fits holds
  -- The blocks other than chunks are those before, and the new region.
  have blocks : ∀ b : Block, b.object ≠ .chunk →
      (b ∈ h'.blocks ↔ b = ⟨region, .region⟩ ∨ b ∈ h.blocks) := by
    intro b other
    rw [placed.world, sameBlocks b other]
    change b ∈ w.blocks ↔ _
    rw [new.blocks, List.mem_cons]
  refine ⟨logs', region :: rs, items₂, ok₁.of_same placed.sameChunks rfl rfl rfl, laid₂,
    ?_, ?_, ?_, ?_, ?_, ?_⟩
  · intro r isBlock
    rcases (blocks _ (by simp)).mp isBlock with same | old
    · cases same
      exact .inr (by simp)
    · exact (layout.regions r old).imp_right (List.mem_cons_of_mem _)
  · intro s isBlock
    rcases (blocks _ (by simp)).mp isBlock with same | old
    · cases same
    · exact layout.sregions s old
  · intro r isRegion
    rw [blocks _ (by simp)]
    rcases List.mem_cons.mp isRegion with rfl | old
    · exact .inl rfl
    · exact .inr (layout.isRegion r old)
  · intro s isSregion
    exact (blocks _ (by simp)).mpr (.inr (layout.isSregion s isSregion))
  · intro cls inside
    rw [sameOpened]
    exact layout.opened cls inside
  · exact List.forall_mem_cons.mpr ⟨nonempty, layout.positive⟩

/-- A larger request returns a block that runs past the end of its chunk. -/
theorem Layout.oversize {size ptr threadid ret : Nat}
    (layout : Layout w₀ h arena payloads logs slabs rs ss items) (admitted : size ≤ arenaMaxlarge)
    (bound : chunksize - sizeofPchunk - sizeofPregion < size)
    (allocated : arenaMallocLarge h arena size ptr threadid = .ok (ret, h', arena')) :
    ¬ (Span.mk ret size).Within (chunkSpan (chunkAddr2base ret)) := by
  have headers : sizeofPchunk = 8 ∧ sizeofPregion = 8 := ⟨rfl, rfl⟩
  rw [headers.1, headers.2] at bound
  have reserved := regionSize_eq admitted
  have sizes : arenaMaxlarge = chunksize := rfl
  rw [sizes] at admitted
  obtain ⟨region, w, c, h₁, new, chosen, placed, rfl⟩ := arenaRegionAlloc_effect allocated
  have ok₀ : ChunksOk w₀ { h with toWorld := w } arena logs slabs :=
    layout.chunks.of_same (SameChunks.newBlock new (by decide)) rfl rfl rfl
  have laid₀ : Laid { h with toWorld := w } (logs ++ slabs) rs ss payloads items :=
    layout.laid.congr (fun _ _ => ⟨rfl, rfl, rfl⟩) (fun _ _ => rfl) fun _ _ => rfl
  obtain ⟨logs', items₁, ok₁, laid₁, member, room, _, _⟩ := laid₀.regionChunk ok₀ chosen
  obtain ⟨isBase, headed, ends⟩ := laid₁.bumped c (List.mem_append_left _ member)
  have word := isBase.ends
  have aligned := isBase.aligned
  -- No room is that large, so the chunk is fresh and the block starts 16 bytes into it.
  have tail : (h₁.chunks c).tail = (h₁.chunks c).paddr + 8 := by
    rcases room with enough | fresh
    · rw [reserved, headers.1, chunksize_eq] at *
      omega
    · exact fresh
  have start : szAdd (h₁.chunks c).tail sizeofPregion = (h₁.chunks c).paddr + 16 := by
    rw [tail, headers.2]
    rw [chunksize_eq] at word
    exact szAdd_of_lt (by omega)
  have base : chunkAddr2base ((h₁.chunks c).paddr + 16) = (h₁.chunks c).paddr := by
    rw [chunksize_eq] at word
    refine chunkAddr2base_of_within aligned (by omega) ?_ (by omega)
    rw [chunksize_eq]
    omega
  rw [start, base]
  rw [chunkSpan, Span.within_mk]
  omega

/-- A new sregion, with its first slab given out, keeps the layout. -/
theorem Layout.smallHard {size user ptr cls ret : Nat}
    (layout : Layout w₀ h arena payloads logs slabs rs ss items) (nonempty : 1 ≤ user)
    (holds : user ≤ size) (small : size ≤ arenaMaxsmall) (isClass : cls < classNum)
    (allocated : arenaMallocSmallHard h arena size ptr cls = .ok (ret, h', arena')) :
    ∃ slabs' ss' items', Layout w₀ h' arena' (⟨ret, user, true⟩ :: payloads)
      logs slabs' rs ss' items' := by
  obtain ⟨sregion, w, c, h₁, arena₁, new, chosen, carved, rfl, rfl⟩ :=
    arenaMallocSmallHard_effect allocated
  have ok₀ : ChunksOk w₀ { h with toWorld := w } arena logs slabs :=
    layout.chunks.of_same (SameChunks.newBlock new (by decide)) rfl rfl rfl
  have laid₀ : Laid { h with toWorld := w } (logs ++ slabs) rs ss payloads items :=
    layout.laid.congr (fun _ _ => ⟨rfl, rfl, rfl⟩) (fun _ _ => rfl) fun _ _ => rfl
  obtain ⟨slabs', items₁, ok₁, laid₁, member, room, sameOpened, sameBlocks⟩ :=
    laid₀.sregionChunk ok₀ chosen
  have inCs : c ∈ logs ++ slabs' := List.mem_append_right _ member
  have fits : sregionSize ≤ (h₁.chunks c).availsize := by
    refine room.fits (laid₁.bumped c inCs) ?_
    rw [chunksize_eq]
    decide
  have fresh : sregion ∉ ss := fun old => new.fresh _ (layout.isSregion sregion old) rfl
  obtain ⟨items₂, laid₂⟩ := laid₁.carveSregion inCs fresh carved fits holds small
  have blocks : ∀ b : Block, b.object ≠ .chunk →
      (b ∈ h'.blocks ↔ b = ⟨sregion, .sregion⟩ ∨ b ∈ h.blocks) := by
    intro b other
    rw [carved.world, sameBlocks b other]
    change b ∈ w.blocks ↔ _
    rw [new.blocks, List.mem_cons]
  refine ⟨slabs', sregion :: ss, items₂, ok₁.of_same carved.sameChunks rfl rfl rfl, laid₂,
    ?_, ?_, ?_, ?_, ?_, ?_⟩
  · intro r isBlock
    rcases (blocks _ (by simp)).mp isBlock with same | old
    · cases same
    · exact layout.regions r old
  · intro s isBlock
    rcases (blocks _ (by simp)).mp isBlock with same | old
    · cases same
      exact .inr (by simp)
    · exact (layout.sregions s old).imp_right (List.mem_cons_of_mem _)
  · intro r isRegion
    exact (blocks _ (by simp)).mpr (.inr (layout.isRegion r isRegion))
  · intro s isSregion
    rw [blocks _ (by simp)]
    rcases List.mem_cons.mp isSregion with rfl | old
    · exact .inl rfl
    · exact .inr (layout.isSregion s old)
  · intro other inside
    change Function.update arena₁.availSregion cls sregion other ≠ 0 →
      Function.update arena₁.availSregion cls sregion other ∈ sregion :: ss
    rw [sameOpened]
    by_cases same : other = cls
    · subst same
      simp
    · rw [Function.update_of_ne same]
      exact fun nonnull => List.mem_cons_of_mem _ (layout.opened other inside nonnull)
  · exact List.forall_mem_cons.mpr ⟨nonempty, layout.positive⟩

/-- Every small request keeps the layout. -/
theorem Layout.small {size ptr ret : Nat}
    (layout : Layout w₀ h arena payloads logs slabs rs ss items) (nonempty : 1 ≤ size)
    (small : size < arenaMaxsmall)
    (allocated : arenaMallocSmall h arena size ptr = .ok (ret, h', arena')) :
    ∃ slabs' ss' items', Layout w₀ h' arena' (⟨ret, size, true⟩ :: payloads)
      logs slabs' rs ss' items' := by
  obtain ⟨isClass, holds, bound⟩ := sizeToClass_spec small
  rcases arenaMallocSmall_effect allocated with ⟨rfl, nonnull, carved, rfl, fits⟩ | hard
  · have isOpen := layout.opened _ isClass nonnull
    obtain ⟨items', laid⟩ := layout.laid.carveSlab isOpen carved bound fits holds
    have sameBlocks : h'.blocks = h.blocks := by rw [carved.world]
    exact ⟨slabs, ss, items', layout.chunks.of_same carved.sameChunks rfl rfl rfl, laid,
      by rw [sameBlocks]; exact layout.regions, by rw [sameBlocks]; exact layout.sregions,
      by rw [sameBlocks]; exact layout.isRegion, by rw [sameBlocks]; exact layout.isSregion,
      layout.opened, List.forall_mem_cons.mpr ⟨nonempty, layout.positive⟩⟩
  · exact layout.smallHard nonempty holds bound isClass hard

/-- Frees of any kind keep the layout. -/
theorem Layout.free {s s' : ArenaRun}
    (layout : Layout w₀ s.heap s.arena s.payloads logs slabs rs ss items) (freed : s.Freed s') :
    Layout w₀ s'.heap s'.arena s'.payloads logs slabs rs ss items := by
  have sameChunks := freed.sameChunks
  obtain ⟨sameArena, samePayloads, effect⟩ := freed
  have fields : s'.heap.toWorld = s.heap.toWorld ∧ s'.heap.sregions = s.heap.sregions ∧
      (∀ c, (s'.heap.chunks c).tail = (s.heap.chunks c).tail ∧
        (s'.heap.chunks c).availsize = (s.heap.chunks c).availsize) ∧
      ∀ r, (s'.heap.regions r).paddr = (s.heap.regions r).paddr := by
    rcases effect with only | ⟨c, region, freed⟩
    · rw [only.chunks, only.regions]
      exact ⟨only.world, only.sregions, fun _ => ⟨rfl, rfl⟩, fun _ => rfl⟩
    · refine ⟨freed.world, freed.sregions, ?_, ?_⟩
      · intro d
        rw [freed.chunks]
        by_cases same : d = c <;> simp [same]
      · intro r
        rw [freed.regions]
        by_cases same : r = region <;> simp [same]
  obtain ⟨world, sregions, chunks, regions⟩ := fields
  rw [sameArena, samePayloads]
  have sameBlocks : s'.heap.blocks = s.heap.blocks := by rw [world]
  refine ⟨layout.chunks.of_same sameChunks rfl rfl rfl, ?_, by rw [sameBlocks]; exact layout.regions,
    by rw [sameBlocks]; exact layout.sregions, by rw [sameBlocks]; exact layout.isRegion,
    by rw [sameBlocks]; exact layout.isSregion, layout.opened, layout.positive⟩
  exact layout.laid.congr (fun c _ => ⟨sameChunks.paddr c, chunks c⟩) (fun r _ => regions r)
    fun s _ => by rw [sregions]

/-! ## Whole runs -/

/-- The layout of a run. -/
def ArenaRun.Laid (w₀ : World) (s : ArenaRun) : Prop :=
  ∃ logs slabs rs ss items, Layout w₀ s.heap s.arena s.payloads logs slabs rs ss items

/-- Requests that leave room for the headers of a chunk and a region. -/
def ArenaOp.Fits : ArenaOp → Prop
  | .malloc size _ _ => size ≤ chunksize - sizeofPchunk - sizeofPregion
  | _ => True

theorem arenaBoot_laid {ind : Nat} {s : ArenaRun} (booted : arenaBoot h arena ind = .ok s) :
    s.Laid h.toWorld := by
  obtain ⟨⟨h₁, arena₁⟩, made, booted⟩ := Execution.bind_eq_ok.mp booted
  obtain ⟨⟨c, h₂, arena₂⟩, allocated, booted⟩ := Execution.bind_eq_ok.mp booted
  cases booted
  obtain ⟨empty, same, sameBlocks, _, closed⟩ := arenaNew_chunks made
  obtain ⟨addr, effect⟩ := arenaChunkAlloc_effect allocated
  have one := empty.allocLog effect
  have nothing : Lsmalloc.Laid h₁ ([] ++ []) [] [] [] [] :=
    ⟨by simp, by simp, by simp, by simp, by simp, by simp, by simp, by simp⟩
  obtain ⟨⟨items, laid⟩, _⟩ := nothing.allocate (by simpa using one.out) effect
  have old : ∀ b : Block, b.object ≠ .chunk → b ∈ h₂.blocks → b ∈ h.toWorld.blocks := by
    intro b other isBlock
    rw [← sameBlocks]
    exact (effect.mem_blocks other).mp isBlock
  refine ⟨[c], [], [], [], items, one, by simpa using laid,
    fun r isBlock => .inl (old _ (by simp) isBlock), fun s isBlock => .inl (old _ (by simp) isBlock),
    by simp, by simp, ?_, by simp⟩
  intro cls inside nonnull
  rw [effect.availSregion] at nonnull
  exact absurd (closed cls inside) nonnull

/-- A step that asks for no more than a chunk holds keeps the layout. -/
theorem ArenaRun.step_laid {s s' : ArenaRun} {op : ArenaOp} (laid : s.Laid w₀) (fits : op.Fits)
    (stepped : s.step op = .ok s') : s'.Laid w₀ := by
  obtain ⟨logs, slabs, rs, ss, items, layout⟩ := laid
  rcases ArenaRun.step_cases stepped with
    ⟨size, ptr, threadid, ret, rfl, nonempty, admitted, allocated, returned⟩ | ⟨_, freed⟩
  · unfold ArenaRun.Laid
    rw [returned]
    unfold arenaMalloc at allocated
    split at allocated
    · rename_i small
      obtain ⟨slabs', ss', items', kept⟩ := layout.small nonempty small allocated
      exact ⟨logs, slabs', rs, ss', items', by rwa [decide_eq_true small]⟩
    · rename_i large
      obtain ⟨logs', rs', items', kept⟩ := layout.large nonempty fits allocated
      exact ⟨logs', slabs, rs', ss, items', by rwa [decide_eq_false large]⟩
  · exact ⟨logs, slabs, rs, ss, items, layout.free freed⟩

/-- A returned block that runs past the end of its chunk. -/
def ArenaRun.PastEnd (s : ArenaRun) : Prop :=
  ∃ p ∈ s.payloads, ¬ p.span.Within (chunkSpan (chunkAddr2base p.addr))

/-- A larger request returns a block that runs past the end of its chunk. -/
theorem ArenaRun.step_pastEnd {s s' : ArenaRun} {op : ArenaOp} (laid : s.Laid w₀)
    (oversize : ¬ op.Fits) (stepped : s.step op = .ok s') : s'.PastEnd := by
  obtain ⟨logs, slabs, rs, ss, items, layout⟩ := laid
  rcases ArenaRun.step_cases stepped with
    ⟨size, ptr, threadid, ret, rfl, nonempty, admitted, allocated, returned⟩ | ⟨noMalloc, _⟩
  · have bound : chunksize - sizeofPchunk - sizeofPregion < size := Nat.lt_of_not_le oversize
    have large : ¬ size < arenaMaxsmall := by
      have smallBytes : arenaMaxsmall = 224 := rfl
      have headers : sizeofPchunk = 8 ∧ sizeofPregion = 8 := ⟨rfl, rfl⟩
      rw [chunksize_eq, headers.1, headers.2] at bound
      omega
    rw [arenaMalloc, if_neg large] at allocated
    exact ⟨⟨ret, size, decide (size < arenaMaxsmall)⟩, by rw [returned]; simp,
      layout.oversize admitted bound allocated⟩
  · cases op with
    | malloc size ptr threadid => exact absurd rfl (noMalloc size ptr threadid)
    | dalloc ptr => exact absurd trivial oversize
    | dallocLarge chunk region => exact absurd trivial oversize
    | dallocSmall ptr => exact absurd trivial oversize

/-- No step takes a returned block back. -/
theorem ArenaRun.PastEnd.step {s s' : ArenaRun} {op : ArenaOp} (pastEnd : s.PastEnd)
    (stepped : s.step op = .ok s') : s'.PastEnd := by
  obtain ⟨p, member, outside⟩ := pastEnd
  refine ⟨p, ?_, outside⟩
  rcases ArenaRun.step_cases stepped with ⟨_, _, _, _, _, _, _, _, returned⟩ | ⟨_, freed⟩
  · rw [returned]
    exact List.mem_cons_of_mem _ member
  · rw [freed.2.1]
    exact member

/-- **Large requests of the last bytes.** A run keeps returned blocks apart exactly
when no request is for more than `chunksize - sizeof(pchunk_t) - sizeof(pregion_t)`
bytes. -/
theorem arenaRun_noOverlap_iff {h : Heap} {arena : Arena} {ind : Nat} {s : ArenaRun}
    {ops : List ArenaOp} (reached : arenaRun h arena ind ops = .ok s) :
    NoOverlap h.toWorld s ↔ ∀ size ptr threadid, .malloc size ptr threadid ∈ ops →
      size ≤ chunksize - sizeofPchunk - sizeofPregion := by
  obtain ⟨s₀, booted, ran⟩ := Execution.bind_eq_ok.mp reached
  have preserved : ∀ s op s', ArenaRun.Laid h.toWorld s → op.Fits → s.step op = .ok s' →
      s'.Laid h.toWorld := fun _ _ _ laid fits stepped => ArenaRun.step_laid laid fits stepped
  have breaks : ∀ s op s', ArenaRun.Laid h.toWorld s → ¬ op.Fits → s.step op = .ok s' →
      s'.PastEnd := fun _ _ _ laid oversize stepped => ArenaRun.step_pastEnd laid oversize stepped
  have stays : ∀ s op s', ArenaRun.PastEnd s → s.step op = .ok s' → s'.PastEnd :=
    fun _ _ _ pastEnd stepped => pastEnd.step stepped
  have fitsIff : (∀ op ∈ ops, op.Fits) ↔ ∀ size ptr threadid, .malloc size ptr threadid ∈ ops →
      size ≤ chunksize - sizeofPchunk - sizeofPregion := by
    constructor
    · exact fun all size ptr threadid member => all _ member
    · intro all op member
      cases op with
      | malloc size ptr threadid => exact all size ptr threadid member
      | dalloc ptr => trivial
      | dallocLarge chunk region => trivial
      | dallocSmall ptr => trivial
  rw [← fitsIff]
  rcases Execution.run_split preserved breaks stays (arenaBoot_laid booted) ran with
    ⟨allFit, _, _, _, _, _, layout⟩ | ⟨⟨op, member, oversize⟩, p, returned, outside⟩
  · exact ⟨fun _ => allFit, fun _ => layout.noOverlap⟩
  · constructor
    · intro noOverlap
      exact absurd (noOverlap.inside p returned).1 outside
    · intro allFit
      exact absurd (allFit op member) oversize

/-- Small and large requests, the largest one that fits, and frees. -/
theorem arenaRun_noOverlap_of_fits :
    ∃ s, arenaRun (.fresh [chunksize] [1024, 2048, 3072, 4096, 5120, 6144, 7168]) .zeroed 0
        [.malloc 100 0 0, .malloc 1000 0 0, .malloc 4194288 0 0, .dallocLarge 1024 4096] = .ok s ∧
      NoOverlap (World.fresh [chunksize] [1024, 2048, 3072, 4096, 5120, 6144, 7168]) s := by
  obtain ⟨s, reached⟩ : ∃ s, arenaRun
      (.fresh [chunksize] [1024, 2048, 3072, 4096, 5120, 6144, 7168]) .zeroed 0
      [.malloc 100 0 0, .malloc 1000 0 0, .malloc 4194288 0 0, .dallocLarge 1024 4096] = .ok s :=
    Execution.exists_eq_ok (by decide +kernel)
  refine ⟨s, reached, (arenaRun_noOverlap_iff reached).mpr ?_⟩
  intro size ptr threadid member
  rw [chunksize_eq]
  simp only [List.mem_cons, List.not_mem_nil, or_false, ArenaOp.malloc.injEq, reduceCtorEq] at member
  simp only [sizeofPchunk, sizeofPregion]
  omega

/-- A request for all but 15 of a chunk's bytes. -/
theorem not_noOverlap_of_oversize :
    ∃ s, arenaRun (.fresh [chunksize] [1024, 2048, 3072, 4096]) .zeroed 0
        [.malloc (chunksize - 15) 0 0] = .ok s ∧
      ¬ NoOverlap (World.fresh [chunksize] [1024, 2048, 3072, 4096]) s := by
  obtain ⟨s, reached⟩ : ∃ s, arenaRun (.fresh [chunksize] [1024, 2048, 3072, 4096]) .zeroed 0
      [.malloc (chunksize - 15) 0 0] = .ok s :=
    Execution.exists_eq_ok (by decide +kernel)
  obtain ⟨s₀, booted, ran⟩ := Execution.bind_eq_ok.mp reached
  obtain ⟨s₁, stepped, ended⟩ := Execution.run_cons_eq_ok.mp ran
  cases ended
  have oversize : ¬ ArenaOp.Fits (.malloc (chunksize - 15) 0 0) := by
    change ¬ chunksize - 15 ≤ chunksize - sizeofPchunk - sizeofPregion
    rw [chunksize_eq]
    decide
  obtain ⟨p, returned, outside⟩ := ArenaRun.step_pastEnd (arenaBoot_laid booted) oversize stepped
  exact ⟨_, reached, fun noOverlap => outside (noOverlap.inside p returned).1⟩

end Lsmalloc
