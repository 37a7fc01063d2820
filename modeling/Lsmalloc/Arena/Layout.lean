import Lsmalloc.Arena.Run

/-!
# The layout of an arena's chunks

`Laid` accounts for the bytes of an arena's chunks by a list of spans that are
pairwise apart: the headers, the blocks returned, and the room that is left at the
tail of each chunk and of each sregion. Every allocation that fits carves one of the
rooms, and a new chunk brings a header and a room (`Laid.place`, `Laid.carveSregion`,
`Laid.carveSlab`, `Laid.addChunk`).
-/

namespace Lsmalloc

/-- What a span of a chunk is used for. -/
inductive Role
  | payload
  | pslab
  | pregion (region : Nat)
  | psregion (sregion : Nat)
  | pchunk (chunk : Nat)
  /-- The room behind the tail of a chunk. -/
  | room (chunk : Nat)
  /-- The room behind the tail of an sregion. -/
  | slabRoom (sregion : Nat)
deriving DecidableEq

open Span (Tagged)

/-- The span of a returned block. -/
def Payload.item (p : Payload) : Tagged Role := ⟨.payload, p.span⟩

/-- The header of a chunk. -/
def Chunk.header (chunk : Chunk) : Span := ⟨chunk.paddr, sizeofPchunk⟩

/-- The room behind the tail of a chunk. -/
def Chunk.room (chunk : Chunk) : Span := ⟨chunk.tail, chunk.availsize⟩

/-- The header of a region. -/
def Region.header (region : Region) : Span := ⟨region.paddr, sizeofPregion⟩

/-- The header of an sregion. -/
def Sregion.header (sregion : Sregion) : Span := ⟨sregion.paddr, sizeofPsregion⟩

/-- The room behind the tail of an sregion. -/
def Sregion.room (sregion : Sregion) : Span :=
  ⟨sregion.ptail, sregion.paddr + sregionSize - sregion.ptail⟩

/-- The room of a chunk is behind its header and runs to its end. -/
structure Chunk.Bumped (chunk : Chunk) : Prop where
  isBase : IsBase chunk.paddr chunksize
  headed : chunk.paddr + sizeofPchunk ≤ chunk.tail
  ends : chunk.tail + chunk.availsize = chunk.paddr + chunksize

/-- A chunk whose room is taken from the front. -/
theorem Chunk.Bumped.take {chunk chunk' : Chunk} {taken : Nat} (bumped : chunk.Bumped)
    (fits : taken ≤ chunk.availsize) (paddr : chunk'.paddr = chunk.paddr)
    (tail : chunk'.tail = chunk.tail + taken)
    (availsize : chunk'.availsize = chunk.availsize - taken) : chunk'.Bumped where
  isBase := by
    rw [paddr]
    exact bumped.isBase
  headed := by
    have headed := bumped.headed
    rw [paddr, tail]
    omega
  ends := by
    have ends := bumped.ends
    rw [paddr, tail, availsize]
    omega

/-- The sums of a new sregion. A chunk ends before the end of the address space. -/
theorem Chunk.Bumped.sums {chunk : Chunk} (bumped : chunk.Bumped)
    (fits : sregionSize ≤ chunk.availsize) :
    szAdd chunk.tail sizeofPsregion = chunk.tail + 8 ∧
      szAdd chunk.tail sregionSize = chunk.tail + 1024 ∧
      szSub chunk.availsize sregionSize = chunk.availsize - 1024 := by
  obtain ⟨isBase, headed, ends⟩ := bumped
  have word := isBase.ends
  have sizes : sizeofPsregion = 8 ∧ sregionSize = 1024 := ⟨rfl, rfl⟩
  obtain ⟨psregion, sregionBytes⟩ := sizes
  rw [sregionBytes] at fits
  rw [psregion, sregionBytes]
  exact ⟨szAdd_of_lt (by omega), szAdd_of_lt (by omega), szSub_of_le (by omega) fits⟩

/-- A new chunk is all room behind its header. -/
theorem newChunk_bumped {addr : Nat} (isBase : IsBase addr chunksize) (garbage : Chunk) (ind : Nat)
    (chunktype : ChunkType) (live : Bool) :
    (newChunk garbage addr ind chunktype live).Bumped ∧
      (newChunk garbage addr ind chunktype live).room = ⟨addr + 8, chunksize - 8⟩ := by
  have ends := isBase.ends
  have tail : szAdd addr sizeofPchunk = addr + 8 := by
    apply szAdd_of_lt
    rw [chunksize_eq] at ends
    simp only [sizeofPchunk]
    omega
  have avail : szSub chunksize sizeofPchunk = chunksize - 8 := by
    refine szSub_of_le ?_ ?_
    · rw [chunksize_eq]
      omega
    · rw [chunksize_eq, sizeofPchunk]
      omega
  have large : 8 ≤ chunksize := by rw [chunksize_eq]; omega
  refine ⟨⟨isBase, Nat.le_of_eq tail.symm, ?_⟩, ?_⟩
  · change szAdd addr sizeofPchunk + szSub chunksize sizeofPchunk = addr + chunksize
    rw [tail, avail]
    omega
  · simp [newChunk, Chunk.room, tail, avail]

/-- The spans account for the chunks `cs`, the regions `rs`, the sregions `ss` and the
blocks returned. -/
structure Laid (h : Heap) (cs rs ss : List Nat) (payloads : List Payload)
    (items : List (Tagged Role)) : Prop where
  apart : items.Pairwise Tagged.Apart
  inside : ∀ i ∈ items, ∃ c ∈ cs, i.span.Within (chunkSpan (h.chunks c).paddr)
  returned : (payloads.map Payload.item).Sublist items
  pslabs : ∀ p ∈ payloads, p.small = true → ⟨.pslab, p.pslab⟩ ∈ items
  bumped : ∀ c ∈ cs, (h.chunks c).Bumped
  chunks : ∀ c ∈ cs, ⟨.pchunk c, (h.chunks c).header⟩ ∈ items ∧
    ⟨.room c, (h.chunks c).room⟩ ∈ items
  regions : ∀ r ∈ rs, ⟨.pregion r, (h.regions r).header⟩ ∈ items
  sregions : ∀ s ∈ ss, ⟨.psregion s, (h.sregions s).header⟩ ∈ items ∧
    ⟨.slabRoom s, (h.sregions s).room⟩ ∈ items ∧
    (h.sregions s).ptail ≤ (h.sregions s).paddr + sregionSize ∧
    (h.sregions s).paddr + sregionSize + chunksize ≤ 2 ^ 64

variable {h h' : Heap} {cs rs ss : List Nat} {payloads : List Payload}
  {items : List (Tagged Role)} {c addr : Nat}

/-- The layout depends on the descriptors alone. -/
theorem Laid.congr (laid : Laid h cs rs ss payloads items)
    (chunks : ∀ c ∈ cs, (h'.chunks c).paddr = (h.chunks c).paddr ∧
      (h'.chunks c).tail = (h.chunks c).tail ∧ (h'.chunks c).availsize = (h.chunks c).availsize)
    (regions : ∀ r ∈ rs, (h'.regions r).paddr = (h.regions r).paddr)
    (sregions : ∀ s ∈ ss, h'.sregions s = h.sregions s) : Laid h' cs rs ss payloads items where
  apart := laid.apart
  inside i member := by
    obtain ⟨c, inCs, within⟩ := laid.inside i member
    exact ⟨c, inCs, by rwa [(chunks c inCs).1]⟩
  returned := laid.returned
  pslabs := laid.pslabs
  bumped c member := by
    obtain ⟨paddr, tail, availsize⟩ := chunks c member
    obtain ⟨isBase, headed, ends⟩ := laid.bumped c member
    exact ⟨by rwa [paddr], by rwa [paddr, tail], by rwa [paddr, tail, availsize]⟩
  chunks c member := by
    obtain ⟨paddr, tail, availsize⟩ := chunks c member
    simpa only [Chunk.header, Chunk.room, paddr, tail, availsize] using laid.chunks c member
  regions r member := by
    simpa only [Region.header, regions r member] using laid.regions r member
  sregions s member := by
    rw [sregions s member]
    exact laid.sregions s member

/-! ## Sums that do not wrap -/

/-- What carving an sregion writes. -/
theorem SregionCarved.fields {sregion size ptr : Nat} (carved : SregionCarved h h' c sregion size ptr)
    (bumped : (h.chunks c).Bumped) (fits : sregionSize ≤ (h.chunks c).availsize)
    (small : size ≤ arenaMaxsmall) :
    h'.chunks = Function.update h.chunks c { h.chunks c with
        tail := (h.chunks c).tail + 1024
        availsize := (h.chunks c).availsize - 1024 } ∧
      h'.sregions = Function.update h.sregions sregion
        ⟨size, (h.chunks c).tail, (h.chunks c).tail + 24 + size⟩ ∧
      h'.pmem = ((h.pmem.storeWord (h.chunks c).tail 8 sregion).storeWord
        ((h.chunks c).tail + 8) 8 ptr).storeWord ((h.chunks c).tail + 16) 1 slabClean.toNat ∧
      szAdd (szAdd (h.chunks c).tail sizeofPsregion) sizeofPslab = (h.chunks c).tail + 24 := by
  obtain ⟨header, tail, avail⟩ := bumped.sums fits
  obtain ⟨isBase, headed, ends⟩ := bumped
  have word := isBase.ends
  have sizes : sizeofPsregion = 8 ∧ sizeofPslab = 16 ∧ sregionSize = 1024 ∧ arenaMaxsmall = 224 :=
    ⟨rfl, rfl, rfl, rfl⟩
  obtain ⟨psregion, pslab, sregionBytes, smallBytes⟩ := sizes
  rw [sregionBytes] at fits
  rw [smallBytes] at small
  have attr : szAdd ((h.chunks c).tail + 8) 8 = (h.chunks c).tail + 16 := szAdd_of_lt (by omega)
  have block : szAdd ((h.chunks c).tail + 8) sizeofPslab = (h.chunks c).tail + 24 := by
    rw [pslab]
    exact szAdd_of_lt (by omega)
  have ptail : szAdd ((h.chunks c).tail + 24) size = (h.chunks c).tail + 24 + size :=
    szAdd_of_lt (by omega)
  refine ⟨?_, ?_, ?_, ?_⟩
  · rw [carved.chunks, tail, avail]
  · rw [carved.sregions, header, block, ptail]
  · rw [carved.pmem, header, attr, psregion]
  · rw [header, block]

/-- The sums of the test for the next slab. An sregion ends a chunk before the end of the
address space. -/
theorem Sregion.sums {s : Sregion} {size : Nat} (below : s.ptail ≤ s.paddr + sregionSize)
    (word : s.paddr + sregionSize + chunksize ≤ 2 ^ 64) (small : size ≤ arenaMaxsmall) :
    szAdd s.ptail sizeofPslab = s.ptail + 16 ∧ szAdd (s.ptail + 16) size = s.ptail + 16 + size ∧
      szAdd s.paddr sregionSize = s.paddr + 1024 ∧ szAdd s.ptail 8 = s.ptail + 8 := by
  have sizes : sizeofPslab = 16 ∧ sregionSize = 1024 ∧ arenaMaxsmall = 224 := ⟨rfl, rfl, rfl⟩
  obtain ⟨pslab, sregionBytes, smallBytes⟩ := sizes
  rw [smallBytes] at small
  rw [sregionBytes] at below word
  rw [chunksize_eq] at word
  rw [pslab, sregionBytes]
  exact ⟨szAdd_of_lt (by omega), szAdd_of_lt (by omega), szAdd_of_lt (by omega),
    szAdd_of_lt (by omega)⟩

/-- What carving a slab writes. -/
theorem SlabCarved.fields {sregion size ptr : Nat} (carved : SlabCarved h h' sregion size ptr)
    (below : (h.sregions sregion).ptail ≤ (h.sregions sregion).paddr + sregionSize)
    (word : (h.sregions sregion).paddr + sregionSize + chunksize ≤ 2 ^ 64)
    (small : size ≤ arenaMaxsmall) :
    h'.sregions = Function.update h.sregions sregion { h.sregions sregion with
        ptail := (h.sregions sregion).ptail + 16 + size } ∧
      h'.pmem = (h.pmem.storeWord (h.sregions sregion).ptail 8 ptr).storeWord
        ((h.sregions sregion).ptail + 8) 1 slabClean.toNat := by
  obtain ⟨block, ptail, _, attr⟩ := Sregion.sums below word small
  constructor
  · rw [carved.sregions, block, ptail]
  · rw [carved.pmem, attr]

/-! ## Carving -/

/-- Carving the span with one role leaves every span with another role in place. -/
theorem mem_carved {pieces : List (Tagged Role)} {role : Role} {i : Tagged Role}
    (member : i ∈ items) (other : i.tag ≠ role) :
    i ∈ pieces ++ items.filter fun j => decide (j.tag ≠ role) :=
  List.mem_append_right _ (List.mem_filter.mpr ⟨member, by simpa using other⟩)

/-- The returned blocks stay in order behind a new one. -/
theorem returned_carved {pieces : List (Tagged Role)} {role : Role} {p : Payload}
    (returned : (payloads.map Payload.item).Sublist items) (other : role ≠ .payload) :
    ((p :: payloads).map Payload.item).Sublist
      ((p.item :: pieces) ++ items.filter fun j => decide (j.tag ≠ role)) := by
  have kept : (payloads.map Payload.item).Sublist
      (items.filter fun j => decide (j.tag ≠ role)) := by
    have all : (payloads.map Payload.item).filter (fun j => decide (j.tag ≠ role)) =
        payloads.map Payload.item := by
      rw [List.filter_eq_self]
      intro i member
      obtain ⟨q, _, rfl⟩ := List.mem_map.mp member
      exact decide_eq_true (Ne.symm other)
    rw [← all]
    exact returned.filter _
  exact (kept.trans (List.sublist_append_right pieces _)).cons_cons _

/-- A new chunk brings its header and the room behind it. -/
theorem Laid.addChunk (laid : Laid h cs rs ss payloads items) {garbage : Chunk} {ind : Nat}
    {chunktype : ChunkType} {live : Bool} (fresh : c ∉ cs) (isBase : IsBase addr chunksize)
    (different : ∀ d ∈ cs, (h.chunks d).paddr ≠ addr)
    (chunks : h'.chunks = Function.update h.chunks c (newChunk garbage addr ind chunktype live))
    (regions : h'.regions = h.regions) (sregions : h'.sregions = h.sregions) :
    ∃ items', Laid h' (c :: cs) rs ss payloads items' := by
  obtain ⟨bumped, allRoom⟩ := newChunk_bumped isBase garbage ind chunktype live
  have self : h'.chunks c = newChunk garbage addr ind chunktype live := by
    rw [chunks, Function.update_self]
  have others : ∀ d ∈ cs, h'.chunks d = h.chunks d := by
    intro d member
    rw [chunks, Function.update_of_ne (by rintro rfl; exact fresh member)]
  have kept : Laid h' cs rs ss payloads items :=
    laid.congr (fun d member => by rw [others d member]; exact ⟨rfl, rfl, rfl⟩)
      (fun r _ => by rw [regions]) (fun s _ => by rw [sregions])
  have header : (h'.chunks c).header = ⟨addr, 8⟩ := by rw [self]; rfl
  have room : (h'.chunks c).room = ⟨addr + 8, chunksize - 8⟩ := by rw [self, allRoom]
  have large : 8 ≤ chunksize := by rw [chunksize_eq]; omega
  have headerInside : (Span.mk addr 8).Within (chunkSpan addr) := ⟨Nat.le_refl _, Nat.add_le_add_left large _⟩
  have roomInside : (Span.mk (addr + 8) (chunksize - 8)).Within (chunkSpan addr) := by
    rw [chunkSpan, Span.within_mk]
    omega
  have clear : ∀ i ∈ items, i.span.Apart (chunkSpan addr) := by
    intro i member
    obtain ⟨d, inCs, within⟩ := laid.inside i member
    exact (chunkSpan_apart (laid.bumped d inCs).isBase.aligned isBase.aligned
      (different d inCs)).mono within
  refine ⟨[⟨.pchunk c, ⟨addr, 8⟩⟩, ⟨.room c, ⟨addr + 8, chunksize - 8⟩⟩] ++ items,
    ?_, ?_, ?_, ?_, ?_, ?_, ?_, ?_⟩
  · refine Span.extend_pairwise kept.apart clear ?_ ?_
    · simp [Tagged.Apart, Span.Apart]
    · simpa using ⟨headerInside, roomInside⟩
  · intro i member
    simp only [List.cons_append, List.nil_append, List.mem_cons] at member
    rcases member with rfl | rfl | old
    · exact ⟨c, by simp, by rw [self]; exact headerInside⟩
    · exact ⟨c, by simp, by rw [self]; exact roomInside⟩
    · obtain ⟨d, inCs, within⟩ := kept.inside i old
      exact ⟨d, List.mem_cons_of_mem _ inCs, within⟩
  · exact kept.returned.trans (List.sublist_append_right _ _)
  · exact fun p member small => List.mem_append_right _ (kept.pslabs p member small)
  · intro d member
    rcases List.mem_cons.mp member with rfl | old
    · rw [self]
      exact bumped
    · exact kept.bumped d old
  · intro d member
    rcases List.mem_cons.mp member with rfl | old
    · rw [header, room]
      simp
    · exact ⟨List.mem_append_right _ (kept.chunks d old).1,
        List.mem_append_right _ (kept.chunks d old).2⟩
  · exact fun r member => List.mem_append_right _ (kept.regions r member)
  · intro s member
    obtain ⟨header, room, bounds⟩ := kept.sregions s member
    exact ⟨List.mem_append_right _ header, List.mem_append_right _ room, bounds⟩

/-- Carve a new block, and other pieces, out of the span with one role. -/
theorem Laid.carve (laid : Laid h cs rs ss payloads items) {whole : Tagged Role}
    (member : whole ∈ items) (notPayload : whole.tag ≠ .payload) (p : Payload)
    (pieces : List (Tagged Role)) (apart : (p.item :: pieces).Pairwise Tagged.Apart)
    (inside : ∀ i ∈ p.item :: pieces, i.span.Within whole.span) :
    ((p.item :: pieces) ++ items.filter fun j => decide (j.tag ≠ whole.tag)).Pairwise
        Tagged.Apart ∧
      (∀ i ∈ (p.item :: pieces) ++ items.filter fun j => decide (j.tag ≠ whole.tag),
        ∃ c ∈ cs, i.span.Within (chunkSpan (h.chunks c).paddr)) ∧
      ((p :: payloads).map Payload.item).Sublist
        ((p.item :: pieces) ++ items.filter fun j => decide (j.tag ≠ whole.tag)) := by
  refine ⟨Span.carve_pairwise laid.apart member _ (by simp) apart inside, ?_,
    returned_carved laid.returned notPayload⟩
  intro i isItem
  rcases List.mem_append.mp isItem with isPiece | isOld
  · obtain ⟨c, inCs, within⟩ := laid.inside whole member
    exact ⟨c, inCs, (inside i isPiece).trans within⟩
  · exact laid.inside i (List.mem_filter.mp isOld).1

/-- Room is taken off the front of a chunk. The other chunks stay, and the room that is left
is one of the pieces. -/
theorem Laid.takeFront (laid : Laid h cs rs ss payloads items) (h' : Heap) (member : c ∈ cs)
    {taken : Nat} (fits : taken ≤ (h.chunks c).availsize) (paddr : (h'.chunks c).paddr = (h.chunks c).paddr)
    (tail : (h'.chunks c).tail = (h.chunks c).tail + taken)
    (availsize : (h'.chunks c).availsize = (h.chunks c).availsize - taken)
    (other : ∀ d, d ≠ c → h'.chunks d = h.chunks d) :
    (∀ d, (h'.chunks d).paddr = (h.chunks d).paddr) ∧ (∀ d ∈ cs, (h'.chunks d).Bumped) ∧
      ∀ pieces : List (Tagged Role),
        ⟨.room c, ⟨(h.chunks c).tail + taken, (h.chunks c).availsize - taken⟩⟩ ∈ pieces →
        ∀ d ∈ cs,
          ⟨.pchunk d, (h'.chunks d).header⟩ ∈
              pieces ++ items.filter (fun j => decide (j.tag ≠ .room c)) ∧
            ⟨.room d, (h'.chunks d).room⟩ ∈
              pieces ++ items.filter fun j => decide (j.tag ≠ .room c) := by
  have samePaddr : ∀ d, (h'.chunks d).paddr = (h.chunks d).paddr := by
    intro d
    by_cases same : d = c
    · rw [same, paddr]
    · rw [other d same]
  refine ⟨samePaddr, ?_, ?_⟩
  · intro d inCs
    by_cases same : d = c
    · rw [same]
      exact (laid.bumped c member).take fits paddr tail availsize
    · rw [other d same]
      exact laid.bumped d inCs
  · intro pieces left d inCs
    constructor
    · have kept := (laid.chunks d inCs).1
      rw [Chunk.header, samePaddr]
      exact mem_carved kept (by simp)
    · by_cases same : d = c
      · rw [same, Chunk.room, tail, availsize]
        exact List.mem_append_left _ left
      · rw [other d same]
        exact mem_carved (laid.chunks d inCs).2 (by simpa using same)

/-- **A large block.** A region that fits the room of a chunk is carved off its front: the
header, then the block. -/
theorem Laid.place (laid : Laid h cs rs ss payloads items) {region size ptr threadid user : Nat}
    (member : c ∈ cs) (fresh : region ∉ rs)
    (placed : RegionPlaced h h' c region size ptr threadid)
    (fits : size ≤ (h.chunks c).availsize) (holds : user + sizeofPregion ≤ size) :
    ∃ items', Laid h' cs (region :: rs) ss
      (⟨szAdd (h.chunks c).tail sizeofPregion, user, false⟩ :: payloads) items' := by
  obtain ⟨isBase, headed, ends⟩ := laid.bumped c member
  have word := isBase.ends
  have pregion : sizeofPregion = 8 := rfl
  rw [pregion] at holds
  have start : szAdd (h.chunks c).tail sizeofPregion = (h.chunks c).tail + 8 :=
    szAdd_of_lt (by omega)
  have tail : szAdd (h.chunks c).tail size = (h.chunks c).tail + size := szAdd_of_lt (by omega)
  have avail : szSub (h.chunks c).availsize size = (h.chunks c).availsize - size :=
    szSub_of_le (by omega) fits
  rw [start]
  have self := placed.chunks
  rw [tail, avail] at self
  have header : (h'.regions region).header = ⟨(h.chunks c).tail, 8⟩ := by
    rw [placed.regions, Function.update_self]
    rfl
  have whole := (laid.chunks c member).2
  obtain ⟨apart, inside, returned⟩ := laid.carve whole (by simp)
    ⟨(h.chunks c).tail + 8, user, false⟩
    [⟨.pregion region, ⟨(h.chunks c).tail, 8⟩⟩,
      ⟨.room c, ⟨(h.chunks c).tail + size, (h.chunks c).availsize - size⟩⟩]
    (by
      simp only [List.pairwise_cons, List.mem_cons, List.not_mem_nil, or_false, forall_eq_or_imp,
        forall_eq, false_implies, implies_true, List.Pairwise.nil, and_true]
      simp only [Tagged.Apart, Span.Apart, Payload.item, Payload.span]
      omega)
    (by
      simp only [List.mem_cons, List.not_mem_nil, or_false, forall_eq_or_imp, forall_eq]
      simp only [Span.Within, Payload.item, Payload.span, Chunk.room]
      omega)
  obtain ⟨samePaddr, bumped, chunks⟩ := laid.takeFront h' member fits
    (by rw [self, Function.update_self]) (by rw [self, Function.update_self])
    (by rw [self, Function.update_self]) fun d different => by
      rw [self, Function.update_of_ne different]
  refine ⟨_, apart, ?_, returned, ?_, bumped, chunks _ (by simp), ?_, ?_⟩
  · intro i isItem
    obtain ⟨d, inCs, within⟩ := inside i isItem
    exact ⟨d, inCs, by rwa [samePaddr]⟩
  · intro q isPayload small
    rcases List.mem_cons.mp isPayload with rfl | old
    · cases small
    · exact mem_carved (laid.pslabs q old small) (by simp)
  · intro r isRegion
    rcases List.mem_cons.mp isRegion with rfl | old
    · rw [header]
      simp
    · have different : r ≠ region := by rintro rfl; exact fresh old
      rw [placed.regions, Function.update_of_ne different]
      exact mem_carved (laid.regions r old) (by simp)
  · intro s isSregion
    rw [placed.sregions]
    obtain ⟨header, room, bounds⟩ := laid.sregions s isSregion
    exact ⟨mem_carved header (by simp), mem_carved room (by simp), bounds⟩

/-- **The first slab.** An sregion that fits the room of a chunk is carved off its front:
its header, then a slab with the block, then the room for more slabs. -/
theorem Laid.carveSregion (laid : Laid h cs rs ss payloads items) {sregion size ptr user : Nat}
    (member : c ∈ cs) (fresh : sregion ∉ ss) (carved : SregionCarved h h' c sregion size ptr)
    (fits : sregionSize ≤ (h.chunks c).availsize) (holds : user ≤ size)
    (small : size ≤ arenaMaxsmall) :
    ∃ items', Laid h' cs rs (sregion :: ss)
      (⟨szAdd (szAdd (h.chunks c).tail sizeofPsregion) sizeofPslab, user, true⟩ :: payloads)
      items' := by
  obtain ⟨self, made, _, start⟩ := carved.fields (laid.bumped c member) fits small
  obtain ⟨isBase, headed, ends⟩ := laid.bumped c member
  have word := isBase.ends
  have aligned := isBase.aligned
  have sregionBytes : sregionSize = 1024 := rfl
  have smallBytes : arenaMaxsmall = 224 := rfl
  rw [sregionBytes] at fits
  rw [smallBytes] at small
  have slab : szSub ((h.chunks c).tail + 24) sizeofPslab = (h.chunks c).tail + 8 := by
    rw [szSub_of_le (by omega) (by simp only [sizeofPslab]; omega)]
    rfl
  rw [start]
  have slabRoom : (h'.sregions sregion).room = ⟨(h.chunks c).tail + 24 + size,
      (h.chunks c).tail + 1024 - ((h.chunks c).tail + 24 + size)⟩ := by
    rw [made, Function.update_self]
    rfl
  have header : (h'.sregions sregion).header = ⟨(h.chunks c).tail, 8⟩ := by
    rw [made, Function.update_self]
    rfl
  have whole := (laid.chunks c member).2
  obtain ⟨apart, inside, returned⟩ := laid.carve whole (by simp)
    ⟨(h.chunks c).tail + 24, user, true⟩
    [⟨.pslab, ⟨(h.chunks c).tail + 8, 16⟩⟩, ⟨.psregion sregion, ⟨(h.chunks c).tail, 8⟩⟩,
      ⟨.slabRoom sregion, ⟨(h.chunks c).tail + 24 + size,
        (h.chunks c).tail + 1024 - ((h.chunks c).tail + 24 + size)⟩⟩,
      ⟨.room c, ⟨(h.chunks c).tail + 1024, (h.chunks c).availsize - 1024⟩⟩]
    (by
      simp only [List.pairwise_cons, List.mem_cons, List.not_mem_nil, or_false, forall_eq_or_imp,
        forall_eq, false_implies, implies_true, List.Pairwise.nil, and_true]
      simp only [Tagged.Apart, Span.Apart, Payload.item, Payload.span]
      omega)
    (by
      simp only [List.mem_cons, List.not_mem_nil, or_false, forall_eq_or_imp, forall_eq]
      simp only [Span.Within, Payload.item, Payload.span, Chunk.room]
      omega)
  obtain ⟨samePaddr, bumped, chunks⟩ := laid.takeFront h' member fits
    (by rw [self, Function.update_self]) (by rw [self, Function.update_self])
    (by rw [self, Function.update_self]) fun d different => by
      rw [self, Function.update_of_ne different]
  refine ⟨_, apart, ?_, returned, ?_, bumped, chunks _ (by simp), ?_, ?_⟩
  · intro i isItem
    obtain ⟨d, inCs, within⟩ := inside i isItem
    exact ⟨d, inCs, by rwa [samePaddr]⟩
  · intro q isPayload isSmall
    rcases List.mem_cons.mp isPayload with rfl | old
    · rw [Payload.pslab, slab]
      simp [sizeofPslab]
    · exact mem_carved (laid.pslabs q old isSmall) (by simp)
  · intro r isRegion
    rw [carved.regions]
    exact mem_carved (laid.regions r isRegion) (by simp)
  · intro s isSregion
    rcases List.mem_cons.mp isSregion with rfl | old
    · rw [header, slabRoom, made, Function.update_self, sregionBytes]
      refine ⟨by simp, by simp, ?_, ?_⟩
      · change (h.chunks c).tail + 24 + size ≤ (h.chunks c).tail + 1024
        omega
      · change (h.chunks c).tail + 1024 + chunksize ≤ 2 ^ 64
        rw [chunksize_eq] at *
        omega
    · have different : s ≠ sregion := by rintro rfl; exact fresh old
      rw [made, Function.update_of_ne different]
      obtain ⟨header, room, bounds⟩ := laid.sregions s old
      exact ⟨mem_carved header (by simp), mem_carved room (by simp), bounds⟩

/-- **The next slab.** A slab that fits the room of an sregion is carved off its front. -/
theorem Laid.carveSlab (laid : Laid h cs rs ss payloads items) {sregion size ptr user : Nat}
    (member : sregion ∈ ss) (carved : SlabCarved h h' sregion size ptr)
    (small : size ≤ arenaMaxsmall)
    (fits : szAdd (szAdd (h.sregions sregion).ptail sizeofPslab) size ≤
      szAdd (h.sregions sregion).paddr sregionSize) (holds : user ≤ size) :
    ∃ items', Laid h' cs rs ss
      (⟨szAdd (h.sregions sregion).ptail sizeofPslab, user, true⟩ :: payloads) items' := by
  obtain ⟨_, whole, below, word⟩ := laid.sregions sregion member
  obtain ⟨made, _⟩ := carved.fields below word small
  obtain ⟨start, ptail, limit, _⟩ := Sregion.sums below word small
  have pslabBytes : sizeofPslab = 16 := rfl
  have sregionBytes : sregionSize = 1024 := rfl
  rw [start, ptail, limit] at fits
  rw [chunksize_eq] at word
  have slab : szSub ((h.sregions sregion).ptail + 16) sizeofPslab = (h.sregions sregion).ptail := by
    rw [szSub_of_le (by omega) (by rw [pslabBytes]; omega), pslabBytes]
    exact Nat.add_sub_cancel _ _
  rw [start]
  have room : (h'.sregions sregion).room = ⟨(h.sregions sregion).ptail + 16 + size,
      (h.sregions sregion).paddr + sregionSize - ((h.sregions sregion).ptail + 16 + size)⟩ := by
    rw [made, Function.update_self]
    rfl
  obtain ⟨apart, inside, returned⟩ := laid.carve whole (by simp)
    ⟨(h.sregions sregion).ptail + 16, user, true⟩
    [⟨.pslab, ⟨(h.sregions sregion).ptail, 16⟩⟩,
      ⟨.slabRoom sregion, ⟨(h.sregions sregion).ptail + 16 + size,
        (h.sregions sregion).paddr + sregionSize - ((h.sregions sregion).ptail + 16 + size)⟩⟩]
    (by
      simp only [List.pairwise_cons, List.mem_cons, List.not_mem_nil, or_false, forall_eq_or_imp,
        forall_eq, false_implies, implies_true, List.Pairwise.nil, and_true]
      simp only [Tagged.Apart, Span.Apart, Payload.item, Payload.span]
      omega)
    (by
      simp only [List.mem_cons, List.not_mem_nil, or_false, forall_eq_or_imp, forall_eq]
      simp only [Span.Within, Payload.item, Payload.span, Sregion.room]
      omega)
  refine ⟨_, apart, ?_, returned, ?_, ?_, ?_, ?_, ?_⟩
  · intro i isItem
    rw [carved.chunks]
    exact inside i isItem
  · intro q isPayload isSmall
    rcases List.mem_cons.mp isPayload with rfl | old
    · rw [Payload.pslab, slab]
      simp [sizeofPslab]
    · exact mem_carved (laid.pslabs q old isSmall) (by simp)
  · intro d inCs
    rw [carved.chunks]
    exact laid.bumped d inCs
  · intro d inCs
    rw [carved.chunks]
    exact ⟨mem_carved (laid.chunks d inCs).1 (by simp), mem_carved (laid.chunks d inCs).2 (by simp)⟩
  · intro r isRegion
    rw [carved.regions]
    exact mem_carved (laid.regions r isRegion) (by simp)
  · intro s isSregion
    by_cases same : s = sregion
    · subst same
      rw [room, made, Function.update_self]
      refine ⟨mem_carved (laid.sregions s isSregion).1 (by simp), by simp, ?_,
        (laid.sregions s isSregion).2.2.2⟩
      change (h.sregions s).ptail + 16 + size ≤ (h.sregions s).paddr + sregionSize
      omega
    · rw [made, Function.update_of_ne same]
      obtain ⟨header, room, bounds⟩ := laid.sregions s isSregion
      exact ⟨mem_carved header (by simp), mem_carved room (by simpa using same), bounds⟩

end Lsmalloc
