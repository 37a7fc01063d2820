import Lsmalloc.Arena.RegionLinks
import Lsmalloc.Gc.Evacuation

/-!
# How an evacuation fills GC chunks

The loop of `chunk_do_slowgc` puts one region behind the other into a GC chunk, and goes on
with a new one when the next region does not fit. At every round, the GC chunks it has used
have their rooms at their ends, and the regions it has put there lie in what is used of them,
clear of each other and of what was there before (`evacuation_packs`). Addresses wrap, so a
place on a chunk is an offset from its start.
-/

namespace Lsmalloc

/-! ## Rooms and places -/

/-- `tail == paddr + chunksize - availsize`, and there is room for the header. -/
structure Chunk.GcRoom (chunk : Chunk) : Prop where
  tail : chunk.tail = szSub (szAdd chunk.paddr chunksize) chunk.availsize
  fits : chunk.availsize ≤ szSub chunksize sizeofPchunk

/-- Where the region starts on the chunk. -/
def Heap.offset (h : Heap) (c region : Nat) : Nat :=
  szSub (h.regions region).paddr (h.chunks c).paddr

/-- The region lies in what is used of the chunk, behind its header and before its room. -/
structure Heap.LiesOn (h : Heap) (c region : Nat) : Prop where
  headed : sizeofPchunk ≤ h.offset c region
  before : h.offset c region + (h.regions region).size + (h.chunks c).availsize ≤ chunksize

/-- The GC chunk an evacuation was given, and those it has made since `h`. -/
def Evacuation.Uses (h : Heap) (gcChunk : Nat) (e : Evacuation) (g : Nat) : Prop :=
  g = gcChunk ∨ ⟨g, .chunk⟩ ∈ e.heap.blocks ∧ ⟨g, .chunk⟩ ∉ h.blocks

/-- The evacuation of the regions `rs` into `gcChunk` has packed what it has migrated so far. -/
structure Evacuation.Packed (h : Heap) (rs : List Nat) (gcChunk : Nat) (e : Evacuation) :
    Prop where
  current : e.Uses h gcChunk e.gcChunk
  room : ∀ g, e.Uses h gcChunk g → (e.heap.chunks g).GcRoom
  shrinks : (e.heap.chunks gcChunk).availsize ≤ (h.chunks gcChunk).availsize
  copies : ∀ p ∈ e.migrated, p.1 ∈ rs ∧ (e.heap.regions p.2).size = (h.regions p.1).size
  inside : ∀ p ∈ e.migrated, e.Uses h gcChunk (e.heap.regions p.2).chunk ∧
    e.heap.LiesOn (e.heap.regions p.2).chunk p.2
  apart : e.migrated.Pairwise fun p q => (e.heap.regions p.2).chunk = (e.heap.regions q.2).chunk →
    e.heap.offset (e.heap.regions p.2).chunk p.2 + (e.heap.regions p.2).size ≤
      e.heap.offset (e.heap.regions q.2).chunk q.2
  behind : ∀ p ∈ e.migrated, (e.heap.regions p.2).chunk = gcChunk → ∀ r, h.LiesOn gcChunk r →
    h.offset gcChunk r + (h.regions r).size ≤ e.heap.offset gcChunk p.2

/-- A round makes a GC chunk exactly when it migrates a region that the current one lacks the
room for, and takes the bytes of the region from the room it puts it in. -/
structure Evacuation.PackedRound (e e' : Evacuation) (region : Nat) : Prop where
  makes : (∃ g, ⟨g, .chunk⟩ ∈ e'.heap.blocks ∧ ⟨g, .chunk⟩ ∉ e.heap.blocks) ↔
    (e.heap.regions region).attr = .dirty ∧
      (e.heap.chunks e.gcChunk).availsize < (e.heap.regions region).size
  takes : (e.heap.regions region).attr = .dirty →
    (e'.heap.chunks e'.gcChunk).availsize + (e.heap.regions region).size =
      if (e.heap.chunks e.gcChunk).availsize < (e.heap.regions region).size then
        szSub chunksize sizeofPchunk
      else (e.heap.chunks e.gcChunk).availsize

/-- The loop of `chunk_do_slowgc` after a number of rounds: what it carries, and the region it
is at. -/
def evacuateRounds (chunk : Nat) : (rounds : Nat) → Evacuation → (region : Nat) →
    Except Fault (Evacuation × Nat)
  | 0, e, region => .ok (e, region)
  | rounds + 1, e, region =>
      if region = 0 then .ok (e, 0)
      else do
        let e ← evacuateRegion e region
        let c ← e.heap.getChunk chunk
        let next := e.heap.regionsLink.next region
        evacuateRounds chunk rounds e (if next ≠ c.regions then next else 0)

variable {h h' : Heap} {arena arena' : Arena} {rs : List Nat} {S : Nat → Prop}
  {c gcChunk region oldregion : Nat} {e e' : Evacuation}

/-- Taking a region's bytes from a room that has them moves the tail, and nothing wraps. -/
theorem Chunk.GcRoom.take {chunk chunk' : Chunk} {size : Nat} (room : chunk.GcRoom)
    (fits : size ≤ chunk.availsize) (paddr : chunk'.paddr = chunk.paddr)
    (tail : chunk'.tail = szAdd chunk.tail size)
    (availsize : chunk'.availsize = szSub chunk.availsize size) :
    chunk'.GcRoom ∧ chunk'.availsize + size = chunk.availsize ∧
      szSub chunk.tail chunk.paddr + chunk.availsize = chunksize := by
  obtain ⟨start, header⟩ := room
  have large : szSub chunksize sizeofPchunk = chunksize - 8 := by decide
  rw [large] at header
  have avail : chunk'.availsize = chunk.availsize - size := by
    rw [availsize]
    exact szSub_of_le (by rw [chunksize_eq] at header; omega) fits
  refine ⟨⟨?_, by rw [large]; omega⟩, by omega, ?_⟩
  · rw [tail, start, paddr, avail]
    rw [chunksize_eq] at *
    unfold szAdd szSub
    omega
  · rw [start]
    rw [chunksize_eq] at *
    unfold szAdd szSub
    omega

/-! ## Where the loop can come to

The list of a new GC chunk starts wherever `gc_alloc_chunk` left it, and a region placed on the
chunk is linked in there: possibly into the list that is being walked. -/

/-- A migrated region is linked in as a new region of an arena is. -/
theorem gcRegionMigration_linkedIn
    (migrated : gcRegionMigration h gcChunk oldregion = .ok (region, h')) :
    RegionAdded h h' region ∧ LinkedIn h region h'.regionsLink := by
  obtain ⟨⟨new, w⟩, made, migrated⟩ := Execution.bind_eq_ok.mp migrated
  obtain ⟨old, _, migrated⟩ := Execution.bind_eq_ok.mp migrated
  obtain ⟨⟨paddr, h₁⟩, placed, migrated⟩ := Execution.bind_eq_ok.mp migrated
  simp only [Except.ok.injEq, Prod.mk.injEq] at migrated
  obtain ⟨rfl, rfl⟩ := migrated
  have block := malloc_newBlock made
  have effect := (placeRegion_effect placed).2
  have added : RegionAdded h { h with toWorld := w } new := .of_newBlock block fun _ => Iff.rfl
  have insertion := RegionPlaced.linkedIn added rfl (placeRegion_nodes placed) effect
  exact ⟨.of_newBlock block fun x => by rw [effect.world], insertion⟩

/-- A new GC chunk is no region, and no region is linked to another place. -/
theorem gcAllocChunk_regions (allocated : gcAllocChunk h arena = .ok (c, h', arena')) :
    (∀ x, ⟨x, .region⟩ ∈ h'.blocks ↔ ⟨x, .region⟩ ∈ h.blocks) ∧
      h'.regionsLink = h.regionsLink := by
  obtain ⟨addr, h₁, arena₁, created, _, rfl, rfl⟩ := gcAllocChunk_effect allocated
  obtain ⟨blocks, _, _⟩ := chunkTaken_objects created.pool
  refine ⟨fun x => ?_, created.regionsLink⟩
  change _ ∈ h₁.blocks ↔ _
  simp [blocks]

/-- A round of the slow collector keeps every region on a ring. -/
theorem RegionsLinked.evacuateRegion (linked : RegionsLinked e.heap)
    (evacuated : evacuateRegion e region = .ok e') : RegionsLinked e'.heap := by
  rcases evacuateRegion_effect evacuated with
    ⟨_, rfl⟩ | ⟨_, gc, h₁, arena₁, new, chosen, migrated, _⟩
  · exact linked
  have target : RegionsLinked h₁ := by
    rcases chosen with ⟨rfl, _, _⟩ | allocated
    · exact linked
    · obtain ⟨blocks, links⟩ := gcAllocChunk_regions allocated
      exact linked.congr blocks links
  obtain ⟨added, insertion⟩ := gcRegionMigration_linkedIn migrated
  exact target.linkIn added insertion

/-- So does an evacuation. -/
theorem RegionsLinked.evacuate {fuel : Nat} (linked : RegionsLinked h)
    (evacuated : evacuate fuel h arena c gcChunk = .ok e) : RegionsLinked e.heap := by
  obtain ⟨e₁, looped, heap, _, _⟩ := evacuate_effect evacuated
  have kept : ∀ e region e', RegionsLinked (Evacuation.heap e) →
      Lsmalloc.evacuateRegion e region = .ok e' → RegionsLinked e'.heap :=
    fun _ _ _ before round => before.evacuateRegion round
  rw [heap]
  exact evacuateFrom_invariant kept linked looped

/-- A set of regions that following `next` does not lead out of. -/
structure WalkSet (h : Heap) (S : Nat → Prop) : Prop where
  isRegion : ∀ x, S x → ⟨x, .region⟩ ∈ h.blocks
  next : ∀ x, S x → S (h.regionsLink.next x)

/-- The regions of a well-formed list. -/
theorem WalkSet.of_list {first : Nat} (list : IsQl h.regionsLink first rs)
    (isRegion : ∀ r ∈ rs, ⟨r, .region⟩ ∈ h.blocks) : WalkSet h (· ∈ rs) where
  isRegion := isRegion
  next _ member := (list.ring (List.ne_nil_of_mem member)).next_mem member

/-- `ql_foreach` goes on in the set, or ends. -/
theorem WalkSet.advance (set : WalkSet h S) (member : S region) (first : Nat) :
    (if h.regionsLink.next region ≠ first then h.regionsLink.next region else 0) = 0 ∨
      S (if h.regionsLink.next region ≠ first then h.regionsLink.next region else 0) := by
  split
  · exact .inr (set.next region member)
  · exact .inl rfl

/-- Objects that are no regions, and other fields, do not matter. -/
theorem WalkSet.congr (set : WalkSet h S)
    (blocks : ∀ x, ⟨x, .region⟩ ∈ h'.blocks ↔ ⟨x, .region⟩ ∈ h.blocks)
    (links : h'.regionsLink = h.regionsLink) : WalkSet h' S where
  isRegion x member := (blocks x).mpr (set.isRegion x member)
  next x member := by
    rw [links]
    exact set.next x member

/-- A new region leads the walk nowhere but to itself. -/
theorem WalkSet.linkIn (set : WalkSet h S) (linked : RegionsLinked h)
    (added : RegionAdded h h' region) (insertion : LinkedIn h region h'.regionsLink) :
    ∃ S', WalkSet h' S' ∧ (∀ x, S x → S' x) ∧ ∀ x, S' x → S x ∨ x = region := by
  have still : ∀ x, S x → (⟨x, .region⟩ : Block) ∈ h'.blocks := fun x member =>
    (added.isRegion x).mpr (.inr (set.isRegion x member))
  cases insertion with
  | alone self others =>
      refine ⟨S, ⟨still, fun x member => ?_⟩, fun _ member => member, fun _ member => .inl member⟩
      rw [(others x (added.ne (set.isRegion x member))).1]
      exact set.next x member
  | before a old next prev =>
      -- It joins the set of the region it is linked in before.
      obtain ⟨isPrev, closed⟩ := linked a old
      refine ⟨fun x => S x ∨ x = region ∧ S a, ⟨?_, ?_⟩, fun _ member => .inl member, ?_⟩
      · rintro x (member | ⟨rfl, _⟩)
        · exact still x member
        · exact (added.isRegion x).mpr (.inl rfl)
      · rintro x (member | ⟨rfl, inSet⟩)
        · rw [next, if_neg (added.ne (set.isRegion x member))]
          by_cases behind : x = h.regionsLink.prev a
          · rw [if_pos behind]
            have reached := set.next x member
            rw [behind, closed] at reached
            exact .inr ⟨rfl, reached⟩
          · rw [if_neg behind]
            exact .inl (set.next x member)
        · rw [next, if_neg (added.ne isPrev).symm, if_pos rfl]
          exact .inl inSet
      · rintro x (member | ⟨here, _⟩)
        · exact .inl member
        · exact .inr here

/-! ## What a round does to the packing -/

/-- Where regions lie depends on them, on where the chunk is, and on its room. -/
theorem Heap.LiesOn.congr (lies : h.LiesOn c region) (regions : h'.regions region = h.regions region)
    (paddr : (h'.chunks c).paddr = (h.chunks c).paddr)
    (room : (h'.chunks c).availsize ≤ (h.chunks c).availsize) : h'.LiesOn c region where
  headed := by
    rw [Heap.offset, regions, paddr]
    exact lies.headed
  before := by
    have before := lies.before
    rw [Heap.offset] at before
    rw [Heap.offset, regions, paddr]
    omega

/-- What was packed stays packed while its chunks stay where they are and their rooms shrink. -/
theorem Evacuation.Packed.kept (packed : e.Packed h rs gcChunk)
    (current : e'.Uses h gcChunk e'.gcChunk)
    (room : ∀ g, e'.Uses h gcChunk g → (e'.heap.chunks g).GcRoom)
    (migrated : e'.migrated = e.migrated)
    (uses : ∀ g, e.Uses h gcChunk g → e'.Uses h gcChunk g)
    (regions : ∀ p ∈ e.migrated, e'.heap.regions p.2 = e.heap.regions p.2)
    (chunks : ∀ g, e.Uses h gcChunk g → (e'.heap.chunks g).paddr = (e.heap.chunks g).paddr ∧
      (e'.heap.chunks g).availsize ≤ (e.heap.chunks g).availsize) :
    e'.Packed h rs gcChunk := by
  have offset : ∀ p ∈ e.migrated, e'.heap.offset (e'.heap.regions p.2).chunk p.2 =
      e.heap.offset (e.heap.regions p.2).chunk p.2 := by
    intro p member
    rw [regions p member, Heap.offset, Heap.offset, regions p member,
      (chunks _ (packed.inside p member).1).1]
  constructor
  case current => exact current
  case room => exact room
  case shrinks => exact Nat.le_trans (chunks gcChunk (.inl rfl)).2 packed.shrinks
  case copies =>
    intro p member
    rw [migrated] at member
    rw [regions p member]
    exact packed.copies p member
  case inside =>
    intro p member
    rw [migrated] at member
    obtain ⟨used, lies⟩ := packed.inside p member
    obtain ⟨paddr, shrunk⟩ := chunks _ used
    have same := regions p member
    rw [same]
    exact ⟨uses _ used, lies.congr same paddr shrunk⟩
  case apart =>
    rw [migrated]
    refine packed.apart.imp_of_mem ?_
    intro p q memberP memberQ clear sameChunk
    rw [offset p memberP, offset q memberQ, regions p memberP]
    rw [regions p memberP, regions q memberQ] at sameChunk
    exact clear sameChunk
  case behind =>
    intro p member onGc r lies
    rw [migrated] at member
    have same := offset p member
    rw [regions p member] at onGc same
    rw [onGc] at same
    rw [same]
    exact packed.behind p member onGc r lies

/-- One more region is packed. -/
theorem Evacuation.Packed.append {p : Nat × Nat} (packed : e.Packed h rs gcChunk)
    (heap : e'.heap = e.heap) (sameGc : e'.gcChunk = e.gcChunk)
    (migrated : e'.migrated = e.migrated ++ [p])
    (copy : p.1 ∈ rs ∧ (e.heap.regions p.2).size = (h.regions p.1).size)
    (inside : e.Uses h gcChunk (e.heap.regions p.2).chunk ∧
      e.heap.LiesOn (e.heap.regions p.2).chunk p.2)
    (last : ∀ q ∈ e.migrated, (e.heap.regions q.2).chunk = (e.heap.regions p.2).chunk →
      e.heap.offset (e.heap.regions q.2).chunk q.2 + (e.heap.regions q.2).size ≤
        e.heap.offset (e.heap.regions p.2).chunk p.2)
    (behind : (e.heap.regions p.2).chunk = gcChunk → ∀ r, h.LiesOn gcChunk r →
      h.offset gcChunk r + (h.regions r).size ≤ e.heap.offset gcChunk p.2) :
    e'.Packed h rs gcChunk := by
  have uses : ∀ g, e'.Uses h gcChunk g ↔ e.Uses h gcChunk g := by
    intro g
    rw [Evacuation.Uses, Evacuation.Uses, heap]
  have every : ∀ {P : Nat × Nat → Prop}, (∀ q ∈ e.migrated, P q) → P p →
      ∀ q ∈ e'.migrated, P q := by
    intro P old new q member
    rw [migrated] at member
    rcases List.mem_append.mp member with here | here
    · exact old q here
    · exact List.mem_singleton.mp here ▸ new
  constructor
  case current =>
    rw [uses, sameGc]
    exact packed.current
  case room =>
    intro g used
    rw [heap]
    exact packed.room g ((uses g).mp used)
  case shrinks =>
    rw [heap]
    exact packed.shrinks
  case copies =>
    rw [heap]
    exact every packed.copies copy
  case inside =>
    rw [heap]
    simp only [uses]
    exact every packed.inside inside
  case apart =>
    rw [heap, migrated, List.pairwise_append]
    refine ⟨packed.apart, List.pairwise_singleton _ _, ?_⟩
    intro q member p' isNew
    rw [List.mem_singleton.mp isNew]
    exact last q member
  case behind =>
    rw [heap]
    exact every packed.behind behind

/-- A new GC chunk is all room behind its header. -/
theorem newChunk_gcRoom (garbage : Chunk) (addr ind : Nat) :
    (newChunk garbage addr ind .gc false).GcRoom := by
  refine ⟨?_, Nat.le_refl _⟩
  change szAdd addr sizeofPchunk = szSub (szAdd addr chunksize) (szSub chunksize sizeofPchunk)
  have large : szSub chunksize sizeofPchunk = chunksize - 8 := by decide
  rw [large, sizeofPchunk, chunksize_eq]
  unfold szAdd szSub
  omega

/-- Going on with a new GC chunk. -/
theorem Evacuation.Packed.grow (packed : e.Packed h rs gcChunk)
    (given : ⟨gcChunk, .chunk⟩ ∈ h.blocks) (old : ∀ b ∈ h.blocks, b ∈ e.heap.blocks)
    (allocated : gcAllocChunk e.heap e.arena = .ok (c, h', arena')) :
    Evacuation.Packed h rs gcChunk ⟨h', arena', c, e.migrated⟩ ∧
      (h'.chunks c).availsize = szSub chunksize sizeofPchunk := by
  obtain ⟨addr, h₁, arena₁, created, _, rfl, rfl⟩ := gcAllocChunk_effect allocated
  obtain ⟨blocks, fresh, _⟩ := chunkTaken_objects created.pool
  have notOld : (⟨c, .chunk⟩ : Block) ∉ e.heap.blocks := fun here => fresh _ here rfl
  have other : ∀ g, e.Uses h gcChunk g → g ≠ c := by
    rintro g used rfl
    rcases used with rfl | ⟨here, _⟩
    · exact notOld (old _ given)
    · exact notOld here
  have self : h₁.chunks c = newChunk (e.heap.chunks c) addr e.arena.ind .gc false := by
    rw [created.chunks, Function.update_self]
  have others : ∀ g, e.Uses h gcChunk g → h₁.chunks g = e.heap.chunks g := by
    intro g used
    rw [created.chunks, Function.update_of_ne (other g used)]
  refine ⟨packed.kept ?_ ?_ rfl ?_ ?_ ?_, congrArg Chunk.availsize self⟩
  · refine .inr ⟨?_, fun here => notOld (old _ here)⟩
    change _ ∈ h₁.blocks
    rw [blocks]
    exact List.mem_cons_self
  · intro g used
    change (h₁.chunks g).GcRoom
    by_cases new : g = c
    · rw [new, self]
      exact newChunk_gcRoom _ _ _
    · have before : e.Uses h gcChunk g := by
        refine used.imp_right fun ⟨here, notThere⟩ => ⟨?_, notThere⟩
        change _ ∈ h₁.blocks at here
        rw [blocks] at here
        simpa [new] using here
      rw [others g before]
      exact packed.room g before
  · rintro g (same | ⟨here, notThere⟩)
    · exact .inl same
    · refine .inr ⟨?_, notThere⟩
      change _ ∈ h₁.blocks
      rw [blocks]
      exact List.mem_cons_of_mem _ here
  · intro p _
    change h₁.regions p.2 = _
    rw [created.regions]
  · intro g used
    change (h₁.chunks g).paddr = _ ∧ (h₁.chunks g).availsize ≤ _
    rw [others g used]
    exact ⟨rfl, Nat.le_refl _⟩

/-- The new region `new` is at the end of what is used of the chunk, and takes its bytes from
the room. -/
structure RegionAppended (h h' : Heap) (c new size : Nat) : Prop where
  room : (h'.chunks c).GcRoom
  taken : (h'.chunks c).availsize + size = (h.chunks c).availsize
  onChunk : (h'.regions new).chunk = c
  size : (h'.regions new).size = size
  place : h'.offset c new + (h.chunks c).availsize = chunksize
  paddr : (h'.chunks c).paddr = (h.chunks c).paddr
  others : (∀ g, g ≠ c → h'.chunks g = h.chunks g) ∧ ∀ r, r ≠ new → h'.regions r = h.regions r

/-- A region that fits is put where the tail was. -/
theorem gcRegionMigration_appended
    (migrated : gcRegionMigration h c oldregion = .ok (region, h')) (room : (h.chunks c).GcRoom)
    (fits : (h.regions oldregion).size ≤ (h.chunks c).availsize) :
    RegionAppended h h' c region (h.regions oldregion).size := by
  obtain ⟨w, _, placed⟩ := gcRegionMigration_effect migrated
  have newRegion : h'.regions region = ⟨.alive, (h.regions oldregion).threadid,
      (h.regions oldregion).size, (h.regions oldregion).ptr, (h.chunks c).tail, c⟩ := by
    rw [placed.regions, Function.update_self]
  have self : h'.chunks c = { h.chunks c with
      tail := szAdd (h.chunks c).tail (h.regions oldregion).size
      availsize := szSub (h.chunks c).availsize (h.regions oldregion).size
      regions := (qlTailInsert (qrNew h.regionsLink region) (h.chunks c).regions region).2 } := by
    rw [placed.chunks, Function.update_self]
  have paddr : (h'.chunks c).paddr = (h.chunks c).paddr := by rw [self]
  obtain ⟨room', taken, place⟩ := room.take fits paddr (by rw [self]) (by rw [self])
  refine ⟨room', taken, by rw [newRegion], by rw [newRegion], ?_, paddr, ?_, ?_⟩
  · rw [Heap.offset, newRegion, paddr]
    exact place
  · intro g other
    rw [placed.chunks, Function.update_of_ne other]
  · intro r other
    rw [placed.regions, Function.update_of_ne other]

/-- It lies on the chunk, behind everything that lay there. -/
theorem RegionAppended.lies {new size : Nat} (appended : RegionAppended h h' c new size)
    (room : (h.chunks c).GcRoom) :
    h'.LiesOn c new ∧
      ∀ r, h.LiesOn c r → h.offset c r + (h.regions r).size ≤ h'.offset c new := by
  have header : (h.chunks c).availsize + sizeofPchunk ≤ chunksize := by
    have fits := room.fits
    have large : szSub chunksize sizeofPchunk = chunksize - sizeofPchunk := by decide
    have positive : sizeofPchunk ≤ chunksize := by decide
    omega
  have place := appended.place
  have taken := appended.taken
  refine ⟨⟨by omega, ?_⟩, ?_⟩
  · rw [appended.size]
    omega
  · intro r lies
    have before := lies.before
    omega

/-- A migration of a region that fits packs it. -/
theorem Evacuation.Packed.migrate {new : Nat} (packed : e.Packed h rs gcChunk)
    (made : ∀ p ∈ e.migrated, ⟨p.2, .region⟩ ∈ e.heap.blocks) (member : region ∈ rs)
    (size : (e.heap.regions region).size = (h.regions region).size)
    (fits : (e.heap.regions region).size ≤ (e.heap.chunks e.gcChunk).availsize)
    (migrated : gcRegionMigration e.heap e.gcChunk region = .ok (new, h')) :
    Evacuation.Packed h rs gcChunk ⟨h', e.arena, e.gcChunk, e.migrated ++ [(region, new)]⟩ ∧
      (h'.chunks e.gcChunk).availsize + (e.heap.regions region).size =
        (e.heap.chunks e.gcChunk).availsize := by
  obtain ⟨w, block, placed⟩ := gcRegionMigration_effect migrated
  have room := packed.room _ packed.current
  have appended := gcRegionMigration_appended migrated room fits
  obtain ⟨sameChunks, sameRegions⟩ := appended.others
  obtain ⟨lies, behind⟩ := appended.lies room
  have taken := appended.taken
  have oldRegions : ∀ p ∈ e.migrated, h'.regions p.2 = e.heap.regions p.2 := fun p inLog =>
    sameRegions p.2 fun same => block.fresh _ (made p inLog) same
  have sameUses : ∀ g, Evacuation.Uses h gcChunk ⟨h', e.arena, e.gcChunk, e.migrated⟩ g ↔
      e.Uses h gcChunk g := by
    intro g
    have blocks : h'.blocks = ⟨new, .region⟩ :: e.heap.blocks := by
      rw [placed.world]
      exact block.blocks
    simp [Evacuation.Uses, blocks]
  -- What was packed before is packed after.
  have kept : Evacuation.Packed h rs gcChunk ⟨h', e.arena, e.gcChunk, e.migrated⟩ := by
    refine packed.kept ((sameUses _).mpr packed.current) ?_ rfl (fun g => (sameUses g).mpr)
      oldRegions ?_
    · intro g used
      by_cases here : g = e.gcChunk
      · rw [here]
        exact appended.room
      · change (h'.chunks g).GcRoom
        rw [sameChunks g here]
        exact packed.room g ((sameUses g).mp used)
    · intro g _
      by_cases here : g = e.gcChunk
      · rw [here]
        exact ⟨appended.paddr, by change (h'.chunks e.gcChunk).availsize ≤ _; omega⟩
      · rw [sameChunks g here]
        exact ⟨rfl, Nat.le_refl _⟩
  have onGc := appended.onChunk
  refine ⟨kept.append rfl rfl rfl ⟨member, appended.size.trans size⟩ ?_ ?_ ?_, taken⟩
  · simp only [onGc]
    exact ⟨(sameUses _).mpr packed.current, lies⟩
  · intro q inLog sameChunk
    simp only [onGc] at sameChunk ⊢
    have old := oldRegions q inLog
    have place := behind q.2
    rw [sameChunk, Heap.offset, old, appended.paddr]
    rw [old] at sameChunk
    have inside := (packed.inside q inLog).2
    rw [sameChunk] at inside
    exact place inside
  · intro same r inside
    simp only [onGc] at same
    -- A place on the given chunk is a place on it still: its room has shrunk.
    have before := inside.before
    have shrinks := packed.shrinks
    have place := appended.place
    rw [← same] at before shrinks ⊢
    change _ ≤ h'.offset e.gcChunk new
    omega

/-! ## The loop -/

/-- What holds at every round of the loop. -/
structure PackingInv (h : Heap) (rs : List Nat) (gcChunk : Nat) (e : Evacuation) (region : Nat) :
    Prop where
  extended : Evacuation.Extends h e.heap
  linked : RegionsLinked e.heap
  walk : ∃ S, WalkSet e.heap S ∧ (∀ x, S x → x ∈ rs ∨ ⟨x, .region⟩ ∉ h.blocks) ∧
    (region = 0 ∨ S region)
  made : ∀ p ∈ e.migrated, ⟨p.2, .region⟩ ∈ e.heap.blocks
  packed : e.Packed h rs gcChunk

/-- The source chunk's regions, before the loop. -/
structure PackingSource (h : Heap) (rs : List Nat) (gcChunk : Nat) : Prop where
  isRegion : ∀ r ∈ rs, ⟨r, .region⟩ ∈ h.blocks
  sizes : ∀ r ∈ rs, (h.regions r).size ≤ szSub chunksize sizeofPchunk
  given : ⟨gcChunk, .chunk⟩ ∈ h.blocks

/-- The GC chunk a round goes on with has the room for the region. -/
structure PackingTarget (h : Heap) (rs : List Nat) (gcChunk : Nat) (S : Nat → Prop)
    (e e₁ : Evacuation) (region : Nat) : Prop where
  extended : Evacuation.Extends e.heap e₁.heap
  linked : RegionsLinked e₁.heap
  walk : WalkSet e₁.heap S
  packed : e₁.Packed h rs gcChunk
  room : (e₁.heap.chunks e₁.gcChunk).availsize =
    if (e.heap.chunks e.gcChunk).availsize < (e.heap.regions region).size then
      szSub chunksize sizeofPchunk
    else (e.heap.chunks e.gcChunk).availsize
  fits : (e.heap.regions region).size ≤ (e₁.heap.chunks e₁.gcChunk).availsize
  makes : (∃ g, ⟨g, .chunk⟩ ∈ e₁.heap.blocks ∧ ⟨g, .chunk⟩ ∉ e.heap.blocks) ↔
    (e.heap.chunks e.gcChunk).availsize < (e.heap.regions region).size

theorem PackingInv.target {gc : Nat} (source : PackingSource h rs gcChunk)
    (inv : PackingInv h rs gcChunk e region) (set : WalkSet e.heap S)
    (bound : (e.heap.regions region).size ≤ szSub chunksize sizeofPchunk)
    (chosen : ((e.heap.regions region).size ≤ (e.heap.chunks e.gcChunk).availsize ∧
        h' = e.heap ∧ arena' = e.arena ∧ gc = e.gcChunk) ∨
      ((e.heap.chunks e.gcChunk).availsize < (e.heap.regions region).size ∧
        gcAllocChunk e.heap e.arena = .ok (gc, h', arena'))) :
    PackingTarget h rs gcChunk S e ⟨h', arena', gc, e.migrated⟩ region := by
  rcases chosen with ⟨fits, rfl, rfl, rfl⟩ | ⟨lacks, allocated⟩
  · refine ⟨.refl _, inv.linked, set, inv.packed, (if_neg (by omega)).symm, fits, ?_⟩
    refine ⟨fun ⟨_, made, absent⟩ => absurd made absent, fun lacks => ?_⟩
    omega
  · obtain ⟨packed, room⟩ := inv.packed.grow source.given inv.extended.blocks allocated
    have extended := gcAllocChunk_extends allocated
    obtain ⟨sameRegions, links⟩ := gcAllocChunk_regions allocated
    obtain ⟨addr, h₁, arena₁, created, _, rfl, rfl⟩ := gcAllocChunk_effect allocated
    obtain ⟨blocks, fresh, _⟩ := chunkTaken_objects created.pool
    refine ⟨extended, inv.linked.congr sameRegions links, set.congr sameRegions links, packed,
      room.trans (if_pos lacks).symm, ?_, fun _ => lacks,
      fun _ => ⟨gc, ?_, fun here => fresh _ here rfl⟩⟩
    · change _ ≤ (h₁.chunks gc).availsize
      change (h₁.chunks gc).availsize = _ at room
      rw [room]
      exact bound
    · change _ ∈ h₁.blocks
      rw [blocks]
      exact List.mem_cons_self

/-- One round. -/
theorem PackingInv.round (source : PackingSource h rs gcChunk)
    (inv : PackingInv h rs gcChunk e region) (present : region ≠ 0)
    (evacuated : evacuateRegion e region = .ok e') :
    e.PackedRound e' region ∧ ∀ first,
      PackingInv h rs gcChunk e' (if e'.heap.regionsLink.next region ≠ first then
        e'.heap.regionsLink.next region else 0) := by
  obtain ⟨S, set, inside, at_⟩ := inv.walk
  have here : S region := at_.resolve_left present
  rcases evacuateRegion_cases evacuated with
    ⟨alive, rfl⟩ | ⟨dirty, gc, h₁, arena₁, new, chosen, migrated, sameArena, sameGc, log⟩
  · refine ⟨⟨?_, ?_⟩, fun first =>
      ⟨inv.extended, inv.linked, ⟨S, set, inside, set.advance here first⟩, inv.made, inv.packed⟩⟩
    · simp [alive]
    · simp [alive]
  -- The region is one of the source's: those that the loop has made are alive.
  have old : ⟨region, .region⟩ ∈ h.blocks := by
    rcases inv.extended.new region (set.isRegion _ here) with old | alive
    · exact old
    · rw [dirty] at alive
      cases alive
  have member : region ∈ rs := (inside region here).resolve_right (fun made => made old)
  have same : e.heap.regions region = h.regions region := inv.extended.regions region old
  have target := inv.target source set (by rw [same]; exact source.sizes region member) chosen
  have extended := inv.extended.trans target.extended
  have sameTarget : h₁.regions region = h.regions region := extended.regions region old
  obtain ⟨added, insertion⟩ := gcRegionMigration_linkedIn migrated
  have linked := target.linked.linkIn added insertion
  obtain ⟨S', set', grown, onlyNew⟩ := target.walk.linkIn target.linked added insertion
  have made : ∀ p ∈ e.migrated, (⟨p.2, .region⟩ : Block) ∈ h₁.blocks := fun p inLog =>
    target.extended.blocks _ (inv.made p inLog)
  have fits : (h₁.regions region).size ≤ (h₁.chunks gc).availsize := by
    rw [sameTarget, ← same]
    exact target.fits
  obtain ⟨packed, taken⟩ := target.packed.migrate made member (by rw [sameTarget]) fits migrated
  have later := extended.trans (gcRegionMigration_extends migrated)
  obtain ⟨w, block, placed⟩ := gcRegionMigration_effect migrated
  have blocks : e'.heap.blocks = ⟨new, .region⟩ :: h₁.blocks := by
    rw [placed.world]
    exact block.blocks
  refine ⟨⟨?_, fun _ => ?_⟩, fun first =>
    ⟨later, linked, ⟨S', set', ?_, set'.advance (grown _ here) first⟩, ?_, ?_⟩⟩
  · have sameChunks : (∃ g, (⟨g, .chunk⟩ : Block) ∈ e'.heap.blocks ∧ ⟨g, .chunk⟩ ∉ e.heap.blocks) ↔
        ∃ g, (⟨g, .chunk⟩ : Block) ∈ h₁.blocks ∧ ⟨g, .chunk⟩ ∉ e.heap.blocks := by
      simp [blocks]
    rw [sameChunks, and_iff_right dirty]
    exact target.makes
  · rw [sameGc, same, ← sameTarget, taken, sameTarget, ← same]
    exact target.room
  · intro x inSet
    rcases onlyNew x inSet with before | rfl
    · exact inside x before
    · exact .inr fun stale => block.fresh _ (extended.blocks _ stale) rfl
  · intro p inLog
    rw [log] at inLog
    rw [blocks]
    rcases List.mem_append.mp inLog with before | isNew
    · exact List.mem_cons_of_mem _ (made p before)
    · rw [List.mem_singleton.mp isNew]
      exact List.mem_cons_self
  · cases e'
    subst sameArena sameGc log
    exact packed

/-- Any number of rounds. -/
theorem PackingInv.rounds (source : PackingSource h rs gcChunk) {rounds region' : Nat}
    (inv : PackingInv h rs gcChunk e region)
    (ran : evacuateRounds c rounds e region = .ok (e', region')) :
    PackingInv h rs gcChunk e' region' := by
  induction rounds generalizing e region with
  | zero =>
      cases ran
      exact inv
  | succ rounds ih =>
      unfold evacuateRounds at ran
      split at ran
      · rename_i ended
        cases ran
        exact ended ▸ inv
      · rename_i present
        obtain ⟨e₁, round, ran⟩ := Execution.bind_eq_ok.mp ran
        obtain ⟨chunk, _, ran⟩ := Execution.bind_eq_ok.mp ran
        exact ih ((inv.round source present round).2 chunk.regions) ran

/-- The loop starts with nothing migrated. -/
theorem PackingInv.start (list : IsQl h.regionsLink (h.chunks c).regions rs)
    (source : PackingSource h rs gcChunk) (linked : RegionsLinked h)
    (room : (h.chunks gcChunk).GcRoom) :
    PackingInv h rs gcChunk ⟨h, arena, gcChunk, []⟩ (h.chunks c).regions where
  extended := .refl h
  linked := linked
  walk := by
    refine ⟨(· ∈ rs), .of_list list source.isRegion, fun _ => .inl, ?_⟩
    rw [list.first_eq]
    cases rs with
    | nil => exact .inl rfl
    | cons first rest => exact .inr List.mem_cons_self
  made := by simp
  packed := by
    refine ⟨.inl rfl, ?_, Nat.le_refl _, by simp, by simp, .nil, by simp⟩
    rintro g (rfl | ⟨here, absent⟩)
    · exact room
    · exact absurd here absent

end Lsmalloc
