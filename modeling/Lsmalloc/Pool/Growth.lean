import Lsmalloc.Pool.FreeRing

/-!
# Growing the pool

What `pmempool_create_one` adds: one aligned mapping, clear of everything mapped
before (`pmemMapAligned_grows`), and its chunks on an empty free ring in ascending
order (`pmempoolCreateOne_spec`). `pmempoolChunkAlloc_spec` is then the whole of
`pmempool_chunk_alloc` as a step of the queue.
-/

namespace Lsmalloc

/-! ## The mapping -/

/-- The room is mapped now, and everything mapped before still is, clear of it. -/
structure Grows (w w' : World) (room : Span) : Prop where
  mapped : Mapped w'.maps room
  keeps : ∀ r : Span, 0 < r.len → Mapped w.maps r → Mapped w'.maps r ∧ r.Apart room
  blocks : w'.blocks = w.blocks
  mallocAnswers : w'.mallocAnswers = w.mallocAnswers

/-- Only the mappings and the objects of the two worlds matter. -/
theorem Grows.of_fields {w w' v v' : World} {room : Span} (grows : Grows w w' room)
    (maps : v.maps = w.maps) (maps' : v'.maps = w'.maps) (blocks : v.blocks = w.blocks)
    (blocks' : v'.blocks = w'.blocks) (answers : v.mallocAnswers = w.mallocAnswers)
    (answers' : v'.mallocAnswers = w'.mallocAnswers) : Grows v v' room := by
  obtain ⟨mapped, keeps, sameBlocks, sameAnswers⟩ := grows
  constructor
  · rwa [maps']
  · rwa [maps, maps']
  · rw [blocks, blocks', sameBlocks]
  · rw [answers, answers', sameAnswers]

/-- The base of an aligned room that does not wrap. -/
structure IsBase (base size : Nat) : Prop where
  nonnull : base ≠ 0
  aligned : base % chunksize = 0
  ends : base + size < 2 ^ 64

/-- A new mapping is clear of everything mapped before, which stays mapped. -/
theorem pmemMapFile_grows {w w' : World} {path : PmemPath} {len addr : Nat}
    (mapped : pmemMapFile w path len = .ok (addr, w')) (success : addr ≠ 0) :
    Grows w w' ⟨addr, pageCeiling len⟩ := by
  obtain ⟨contract, maps, blocks, answers⟩ := pmemMapFile_eq_ok mapped success
  refine ⟨⟨⟨addr, pageCeiling len⟩, by simp [maps], Span.Within.refl _⟩, ?_, blocks, answers⟩
  rintro r _ ⟨m, member, inside⟩
  exact ⟨⟨m, by simp [maps, member], inside⟩,
    ((contract.clearMaps m member).symm).mono inside⟩

/-- A mapping made after another was given back grows what there was before both. -/
theorem Grows.after {w w₁ w₂ : World} {addr size : Nat} {str : PmemPath} {r : Span}
    (first : Grows w w₁ ⟨addr, pageCeiling size⟩)
    (second : Grows (removeFile (pmemUnmap w₁ addr size) str) w₂ r) : Grows w w₂ r where
  mapped := second.mapped
  keeps s nonempty old := by
    obtain ⟨still, apart⟩ := first.keeps s nonempty old
    exact second.keeps s nonempty (Mapped.unmap still nonempty apart)
  blocks := by simp [second.blocks, first.blocks]
  mallocAnswers := by simp [second.mallocAnswers, first.mallocAnswers]

/-- An unmapping at an address that is not the start of a page does nothing. -/
theorem pmemUnmap_of_misaligned {w : World} {addr len : Nat} (misaligned : addr % page ≠ 0) :
    pmemUnmap w addr len = w :=
  if_pos (.inr misaligned)

/-- Trimming a mapping on both sides leaves the aligned room between. The room behind it is
unmapped only where it starts at a page. -/
theorem Grows.trim {w w' : World} {addr size base : Nat}
    (grows : Grows w w' ⟨addr, pageCeiling (size + chunksize)⟩) (positive : 0 < size)
    (pages : addr % page = 0) (aligned : base % chunksize = 0) (lower : addr ≤ base)
    (upper : base < addr + chunksize) :
    Grows w (pmemUnmap (pmemUnmap w' addr (base - addr)) (base + size) (addr + chunksize - base))
      ⟨base, pageCeiling size⟩ := by
  rw [pageCeiling_add_chunksize] at grows
  obtain ⟨holds, whole⟩ := le_pageCeiling size
  have leadPages : pageCeiling (base - addr) = base - addr := by
    apply pageCeiling_of_dvd
    rw [page_eq, chunksize_eq] at *
    omega
  have tailPages : pageCeiling (addr + chunksize - base) = addr + chunksize - base := by
    apply pageCeiling_of_dvd
    rw [page_eq, chunksize_eq] at *
    omega
  -- Neither trim touches the room, nor anything outside the mapping.
  have survives : ∀ r : Span, 0 < r.len → Mapped w'.maps r → r.Apart ⟨addr, base - addr⟩ →
      ((base + size) % page = 0 → r.Apart ⟨base + size, addr + chunksize - base⟩) →
      Mapped (pmemUnmap (pmemUnmap w' addr (base - addr)) (base + size)
        (addr + chunksize - base)).maps r := by
    intro r nonempty old lead tail
    have led := Mapped.unmap old nonempty (by rwa [leadPages])
    by_cases atPage : (base + size) % page = 0
    · refine Mapped.unmap led nonempty ?_
      rw [tailPages]
      exact tail atPage
    · rwa [pmemUnmap_of_misaligned atPage]
  refine ⟨?_, ?_, by simp [grows.blocks], by simp [grows.mallocAnswers]⟩
  · have inside : (Span.mk base (pageCeiling size)).Within
        ⟨addr, pageCeiling size + chunksize⟩ := Span.within_mk.mpr (by omega)
    obtain ⟨m, member, outer⟩ := grows.mapped
    refine survives ⟨base, pageCeiling size⟩ (Nat.lt_of_lt_of_le positive holds)
      ⟨m, member, inside.trans outer⟩ (Span.apart_mk.mpr (by omega)) fun atPage => ?_
    have exact : pageCeiling size = size := by
      apply pageCeiling_of_dvd
      rw [page_eq, chunksize_eq] at *
      omega
    rw [exact]
    exact Span.apart_mk.mpr (by omega)
  · intro r nonempty old
    obtain ⟨still, apart⟩ := grows.keeps r nonempty old
    have within : ∀ s : Span, addr ≤ s.start →
        s.start + s.len ≤ addr + (pageCeiling size + chunksize) → r.Apart s := by
      intro s lower upper
      exact (apart.symm.mono ⟨lower, upper⟩).symm
    refine ⟨survives r nonempty still (within _ ?_ ?_) fun _ => within _ ?_ ?_, within _ ?_ ?_⟩ <;>
      simp only <;> omega

/-- What the mapping phase did: its first mapping was aligned already, or it gave that back and
trimmed a longer one on both sides. -/
inductive MapAligned (w w' : World) (str : PmemPath) (size base : Nat) : Prop
  | first (success : base ≠ 0) (aligned : base % chunksize = 0)
      (mapped : pmemMapFile w str size = .ok (base, w'))
  | trimmed {addr addr₂ : Nat} {w₁ w₂ : World} (success : addr ≠ 0)
      (misaligned : addr % chunksize ≠ 0) (mapped : pmemMapFile w str size = .ok (addr, w₁))
      (success₂ : addr₂ ≠ 0)
      (mapped₂ : pmemMapFile (removeFile (pmemUnmap w₁ addr size) str) str (size + chunksize) =
        .ok (addr₂, w₂))
      (aligned : base % chunksize = 0) (lower : addr₂ ≤ base) (upper : base < addr₂ + chunksize)
      (trims : pmemUnmap (pmemUnmap w₂ addr₂ (base - addr₂)) (base + size)
        (addr₂ + chunksize - base) = w')

/-- The test of the mapping phase, where the address is not above the last chunk. -/
theorem eq_alignmentCeiling_iff {a : Nat} (word : a < 2 ^ 64) :
    a = alignmentCeiling a chunksize ↔ a % chunksize = 0 := by
  constructor
  · intro same
    rw [same]
    exact alignmentCeiling_mod a
  · intro aligned
    rw [alignmentCeiling_chunksize] <;> rw [chunksize_eq] at * <;> omega

/-- The address arithmetic of the mapping phase does not wrap. -/
theorem pmemMapAligned_cases {w w' : World} {str : PmemPath} {size base : Nat}
    (bounded : size + chunksize < 2 ^ 64) (mapped : pmemMapAligned w str size = .ok (base, w')) :
    MapAligned w w' str size base := by
  obtain ⟨⟨addr, w₁⟩, first, mapped⟩ := Execution.bind_eq_ok.mp mapped
  simp only at mapped
  split at mapped
  · cases mapped
  rename_i success
  have ends := (pmemMapFile_eq_ok first success).1.ends
  have test := eq_alignmentCeiling_iff (a := addr) (by omega)
  split at mapped
  · rename_i aligned
    cases mapped
    exact .first success (test.mp aligned) first
  · rename_i misaligned
    obtain ⟨⟨addr₂, w₂⟩, second, mapped⟩ := Execution.bind_eq_ok.mp mapped
    simp only at mapped
    split at mapped
    · cases mapped
    rename_i success₂
    simp only [Except.ok.injEq, Prod.mk.injEq] at mapped
    obtain ⟨atBase, trims⟩ := mapped
    rw [szAdd_of_lt bounded] at second
    have ends₂ := (pmemMapFile_eq_ok second success₂).1.ends
    have holds := (le_pageCeiling size).1
    rw [pageCeiling_add_chunksize] at ends₂
    rw [alignmentCeiling_chunksize (by omega)] at atBase trims
    have shape : base % chunksize = 0 ∧ addr₂ ≤ base ∧ base < addr₂ + chunksize := by
      rw [chunksize_eq] at *
      omega
    rw [atBase] at trims
    have leadLen : szSub base addr₂ = base - addr₂ := szSub_of_le (by omega) shape.2.1
    have tailStart : szAdd base size = base + size := szAdd_of_lt (by omega)
    have tailLen : szSub (szAdd addr₂ chunksize) base = addr₂ + chunksize - base := by
      rw [szAdd_of_lt (by omega)]
      exact szSub_of_le (by omega) (by omega)
    rw [leadLen, tailStart, tailLen] at trims
    exact .trimmed success (fun aligned => misaligned (test.mpr aligned)) first success₂ second
      shape.1 shape.2.1 shape.2.2 trims

/-- The mapping phase returns an aligned room of whole pages for the bytes asked for. -/
theorem pmemMapAligned_grows {w w' : World} {str : PmemPath} {size base : Nat}
    (positive : 0 < size) (bounded : size + chunksize < 2 ^ 64)
    (mapped : pmemMapAligned w str size = .ok (base, w')) :
    IsBase base size ∧ Grows w w' ⟨base, pageCeiling size⟩ := by
  have holds := (le_pageCeiling size).1
  cases pmemMapAligned_cases bounded mapped with
  | first success aligned mapped =>
      have ends := (pmemMapFile_eq_ok mapped success).1.ends
      exact ⟨⟨success, aligned, by omega⟩, pmemMapFile_grows mapped success⟩
  | trimmed success _ mapped success₂ mapped₂ aligned lower upper trims =>
      have grows := pmemMapFile_grows mapped success
      have grows₂ := pmemMapFile_grows mapped₂ success₂
      have contract₂ := (pmemMapFile_eq_ok mapped₂ success₂).1
      have ends₂ := contract₂.ends
      rw [pageCeiling_add_chunksize] at ends₂
      refine ⟨⟨by omega, aligned, by omega⟩, ?_⟩
      rw [← trims]
      exact (grows.after grows₂).trim positive contract₂.aligned aligned lower upper

/-- A pool's mapping is whole pages already. -/
theorem pmemMapAligned_pool {w w' : World} {str : PmemPath} {base : Nat}
    (mapped : pmemMapAligned w str pmempoolSize = .ok (base, w')) :
    IsBase base pmempoolSize ∧ Grows w w' ⟨base, pmempoolSize⟩ := by
  obtain ⟨whole, large, bounded⟩ := pmempoolSize_bounds
  have positive : 0 < pmempoolSize := Nat.lt_of_lt_of_le (by rw [chunksize_eq]; decide) large
  have spec := pmemMapAligned_grows positive bounded mapped
  rwa [pageCeiling_of_dvd whole] at spec

/-! ## The rings -/

/-- The pool's mapping starts at an aligned address and does not wrap, so neither
does the address of any of its chunks. -/
theorem IsBase.chunk {base i : Nat} (isBase : IsBase base pmempoolSize) (inside : i < freelistLen) :
    szAdd base (i * chunksize) = base + i * chunksize := by
  have ends := isBase.ends
  rw [freelistLen_eq] at inside
  rw [pmempoolSize_eq] at ends
  apply szAdd_of_lt
  rw [chunksize_eq]
  omega

/-- Filling the free list touches the ring of free nodes only. -/
theorem fillFreelist_fields (ret count i pre : Nat) (pp : Pmempool) :
    (fillFreelist ret count i pre pp).flNow = pp.flNow ∧
      (fillFreelist ret count i pre pp).chunkTot = pp.chunkTot ∧
      (fillFreelist ret count i pre pp).chunkUsed = pp.chunkUsed ∧
      (fillFreelist ret count i pre pp).file = pp.file ∧
      (fillFreelist ret count i pre pp).fileLink = pp.fileLink ∧
      (fillFreelist ret count i pre pp).poolPaddr = pp.poolPaddr ∧
      (fillFreelist ret count i pre pp).fileNodes = pp.fileNodes := by
  induction count generalizing i pre pp with
  | zero => exact ⟨rfl, rfl, rfl, rfl, rfl, rfl, rfl⟩
  | succ count ih => exact ih (i + 1) pp.flNodes (insertFree pp pre (szAdd ret (i * chunksize)))

/-- One round puts a node right after `pre` and leaves the other nodes' addresses alone. -/
theorem insertFree_ring {pp : Pmempool} {pre : Nat} {rest : List Nat} (paddr : Nat)
    (ring : pp.flLink.IsRing (pre :: rest)) (named : ∀ n ∈ pre :: rest, n < pp.flNodes) :
    (insertFree pp pre paddr).flLink.IsRing (pre :: pp.flNodes :: rest) ∧
      (∀ n ∈ pre :: pp.flNodes :: rest, n < (insertFree pp pre paddr).flNodes) := by
  have old : ∀ n ∈ pre :: rest, n ≠ pp.flNodes := fun n member =>
    Nat.ne_of_lt (named n member)
  have kept : (qrNew pp.flLink pp.flNodes).IsRing (pre :: rest) :=
    ring.congr fun n member => qrNew_other (old n member)
  refine ⟨isRing_qrAfterInsert kept fun member => old _ member rfl, ?_⟩
  intro n member
  simp only [List.mem_cons] at member named
  change n < pp.flNodes + 1
  rcases member with rfl | rfl | later
  · exact Nat.lt_succ_of_lt (named _ (.inl rfl))
  · exact Nat.lt_succ_self _
  · exact Nat.lt_succ_of_lt (named _ (.inr later))

/-- A node numbered before the inserted one keeps its address. -/
theorem insertFree_flPaddr {pp : Pmempool} {n : Nat} (pre paddr : Nat) (old : n < pp.flNodes) :
    (insertFree pp pre paddr).flPaddr n = pp.flPaddr n :=
  Function.update_of_ne (Nat.ne_of_lt old) _ _

/-- The loop inserts its addresses after `pre`, in ascending order. The induction
follows the rounds, re-reading the ring from the node just inserted. -/
theorem fillFreelist_ring {ret count i pre : Nat} {pp : Pmempool} {rest : List Nat}
    (ring : pp.flLink.IsRing (pre :: rest)) (named : ∀ n ∈ pre :: rest, n < pp.flNodes) :
    ∃ news, (fillFreelist ret count i pre pp).flLink.IsRing (pre :: (news ++ rest)) ∧
      (∀ n ∈ pre :: (news ++ rest), n < (fillFreelist ret count i pre pp).flNodes) ∧
      news.map (fillFreelist ret count i pre pp).flPaddr =
        (List.range' i count).map (fun j => szAdd ret (j * chunksize)) ∧
      ∀ n < pp.flNodes, (fillFreelist ret count i pre pp).flPaddr n = pp.flPaddr n := by
  induction count generalizing i pre pp rest with
  | zero =>
      exact ⟨[], by simpa [fillFreelist] using ring, by simpa [fillFreelist] using named,
        by simp, fun _ _ => rfl⟩
  | succ count ih =>
      let paddr := szAdd ret (i * chunksize)
      let next := insertFree pp pre paddr
      obtain ⟨inserted, stillNamed⟩ := insertFree_ring paddr ring named
      have rotated : next.flLink.IsRing (pp.flNodes :: (rest ++ [pre])) := by
        simpa using Links.isRing_rotate.mp inserted
      have reNamed : ∀ n ∈ pp.flNodes :: (rest ++ [pre]), n < next.flNodes := by
        intro n member
        apply stillNamed
        simp only [List.mem_cons, List.mem_append, List.not_mem_nil, or_false] at member ⊢
        tauto
      obtain ⟨news, filled, allNamed, addrs, same⟩ :
          ∃ news, (fillFreelist ret count (i + 1) pp.flNodes next).flLink.IsRing
              (pp.flNodes :: (news ++ (rest ++ [pre]))) ∧
            (∀ n ∈ pp.flNodes :: (news ++ (rest ++ [pre])),
              n < (fillFreelist ret count (i + 1) pp.flNodes next).flNodes) ∧
            news.map (fillFreelist ret count (i + 1) pp.flNodes next).flPaddr =
              (List.range' (i + 1) count).map (fun j => szAdd ret (j * chunksize)) ∧
            ∀ n < next.flNodes, (fillFreelist ret count (i + 1) pp.flNodes next).flPaddr n =
              next.flPaddr n := ih rotated reNamed
      have here : (fillFreelist ret count (i + 1) pp.flNodes next).flPaddr pp.flNodes = paddr := by
        rw [same pp.flNodes (Nat.lt_succ_self _)]
        exact Function.update_self _ _ _
      refine ⟨pp.flNodes :: news, ?_, ?_, ?_, ?_⟩
      · have whole : (fillFreelist ret count (i + 1) pp.flNodes next).flLink.IsRing
            ((pp.flNodes :: (news ++ rest)) ++ [pre]) := by simpa using filled
        exact Links.isRing_rotate.mpr whole
      · intro n member
        apply allNamed
        simp only [List.mem_cons, List.mem_append, List.not_mem_nil, or_false] at member ⊢
        tauto
      · change (pp.flNodes :: news).map
          (fillFreelist ret count (i + 1) pp.flNodes next).flPaddr = _
        rw [List.map_cons, here, addrs, List.range'_succ, List.map_cons]
      · intro n old
        have later : n < next.flNodes := Nat.lt_succ_of_lt old
        exact (same n later).trans (insertFree_flPaddr pre paddr old)

/-- Filling an exhausted pool's ring leaves the cursor on the first new chunk and
the sentinel behind the last. -/
theorem FreeRing.listChunks {pp : Pmempool} {ret count : Nat} (empty : FreeRing pp [])
    (fits : ∀ i < count, szAdd ret (i * chunksize) = ret + i * chunksize) (nonnull : ret ≠ 0) :
    FreeRing (listChunks ret count pp) ((List.range count).map fun i => ret + i * chunksize) := by
  obtain ⟨rest, front, back, isRing, named, addrs, nothing, -⟩ := empty.reads
  -- An empty queue is the sentinel alone.
  obtain ⟨rfl, rfl⟩ := List.append_eq_nil_iff.mp nothing.symm
  obtain rfl : rest = [] := by
    cases rest with
    | nil => rfl
    | cons b rest => simp at addrs
  have sentinel : pp.flPaddr pp.flNow = 0 := by simpa using addrs
  obtain ⟨news, newRing, newNamed, newAddrs, same⟩ :
      ∃ news, (fillFreelist ret count 0 pp.flNow pp).flLink.IsRing (pp.flNow :: (news ++ [])) ∧
        (∀ n ∈ pp.flNow :: (news ++ []), n < (fillFreelist ret count 0 pp.flNow pp).flNodes) ∧
        news.map (fillFreelist ret count 0 pp.flNow pp).flPaddr =
          (List.range' 0 count).map (fun j => szAdd ret (j * chunksize)) ∧
        ∀ n < pp.flNodes, (fillFreelist ret count 0 pp.flNow pp).flPaddr n = pp.flPaddr n :=
    fillFreelist_ring isRing named
  have chunks : news.map (fillFreelist ret count 0 pp.flNow pp).flPaddr =
      (List.range count).map fun i => ret + i * chunksize := by
    rw [newAddrs, ← List.range_eq_range']
    exact List.map_congr_left fun i member => fits i (List.mem_range.mp member)
  have atSentinel : (fillFreelist ret count 0 pp.flNow pp).flPaddr pp.flNow = 0 :=
    (same pp.flNow (named pp.flNow (by simp))).trans sentinel
  rw [List.append_nil] at newRing newNamed
  -- Read from the node after the sentinel, the ring is the new nodes and then the sentinel.
  have rotated := Links.isRing_rotate.mp newRing
  obtain ⟨c, later, split⟩ : ∃ c later, news ++ [pp.flNow] = c :: later :=
    List.exists_cons_of_ne_nil (by simp)
  rw [split] at rotated
  have sameNow := (fillFreelist_fields ret count 0 pp.flNow pp).1
  have follows : (fillFreelist ret count 0 pp.flNow pp).flLink.next
      (fillFreelist ret count 0 pp.flNow pp).flNow = c := by
    rw [sameNow]
    exact (rotated.last_linked split.symm).1
  refine ⟨later, (List.range count).map fun i => ret + i * chunksize, [], ?_, ?_, ?_, by simp, ?_⟩
  · simpa [Lsmalloc.listChunks, follows] using rotated
  · intro n member
    simp only [Lsmalloc.listChunks, follows, ← split] at member
    apply newNamed
    simp only [List.mem_cons, List.mem_append, List.not_mem_nil, or_false] at member ⊢
    tauto
  · simp only [Lsmalloc.listChunks, follows]
    rw [← split, List.map_append, chunks]
    simp [atSentinel]
  · intro member
    obtain ⟨i, _, atZero⟩ := List.mem_map.mp member
    omega

/-- A new file goes right after the sentinel of the file ring. -/
theorem FileRing.insert {pp : Pmempool} {maps : List Nat} (ring : FileRing pp maps) (no ret : Nat) :
    FileRing (insertFile pp no ret) (ret :: maps) := by
  obtain ⟨rest, isRing, named, addrs⟩ := ring.reads
  have old : ∀ n ∈ pp.file :: rest, n ≠ pp.fileNodes := fun n member =>
    Nat.ne_of_lt (named n member)
  have kept : (qrNew pp.fileLink pp.fileNodes).IsRing (pp.file :: rest) :=
    isRing.congr fun n member => qrNew_other (old n member)
  refine ⟨pp.fileNodes :: rest, isRing_qrAfterInsert kept fun member => old _ member rfl, ?_, ?_⟩
  · intro n member
    simp only [List.mem_cons] at member named
    change n < pp.fileNodes + 1
    rcases member with rfl | rfl | later
    · exact Nat.lt_succ_of_lt (named _ (.inl rfl))
    · exact Nat.lt_succ_self _
    · exact Nat.lt_succ_of_lt (named _ (.inr later))
  · have same : rest.map (Function.update pp.poolPaddr pp.fileNodes ret) = rest.map pp.poolPaddr :=
      List.map_congr_left fun n member =>
        Function.update_of_ne (old n (List.mem_cons_of_mem _ member)) _ _
    change (pp.fileNodes :: rest).map (Function.update pp.poolPaddr pp.fileNodes ret) = _
    rw [List.map_cons, Function.update_self, same, addrs]

/-- Filling the free list leaves the file ring alone. -/
theorem FileRing.listChunks {pp : Pmempool} {maps : List Nat} {ret count : Nat}
    (ring : FileRing pp maps) : FileRing (listChunks ret count pp) maps := by
  obtain ⟨-, -, -, sameFile, sameLink, samePaddr, sameNodes⟩ :=
    fillFreelist_fields ret count 0 pp.flNow pp
  obtain ⟨rest, isRing, named, addrs⟩ := ring.reads
  refine ⟨rest, ?_, ?_, ?_⟩
  · simpa [Lsmalloc.listChunks, sameLink, sameFile] using isRing
  · simpa [Lsmalloc.listChunks, sameNodes, sameFile] using named
  · simpa [Lsmalloc.listChunks, samePaddr] using addrs

/-- Filling the free list leaves the counters alone. -/
theorem listChunks_counters (ret count : Nat) (pp : Pmempool) :
    (listChunks ret count pp).chunkTot = pp.chunkTot ∧
      (listChunks ret count pp).chunkUsed = pp.chunkUsed := by
  obtain ⟨-, sameTot, sameUsed, -⟩ := fillFreelist_fields ret count 0 pp.flNow pp
  exact ⟨sameTot, sameUsed⟩

/-! ## The step of the queue -/

/-- What growing an exhausted pool does: one aligned mapping more, its chunks on
the queue, its file on the file ring. -/
structure Grown (w w' : World) (pp pp' : Pmempool) (base : Nat) : Prop where
  isBase : IsBase base pmempoolSize
  grows : Grows w w' ⟨base, pmempoolSize⟩
  free : FreeRing pp' (chunksOf base)
  files : ∀ maps, FileRing pp maps → FileRing pp' (base :: maps)
  chunkTot : pp'.chunkTot = pp.chunkTot + freelistLen
  chunkUsed : pp'.chunkUsed = pp.chunkUsed

/-- A pool whose rings are another's has the other's queue. -/
theorem FreeRing.of_fields {pp pp' : Pmempool} {free : List Nat} (ring : FreeRing pp free)
    (now : pp'.flNow = pp.flNow) (link : pp'.flLink = pp.flLink) (paddr : pp'.flPaddr = pp.flPaddr)
    (nodes : pp'.flNodes = pp.flNodes) : FreeRing pp' free := by
  constructor
  rw [now, link, paddr, nodes]
  exact ring.reads

/-- A pool whose files are another's has the other's file ring. -/
theorem FileRing.of_fields {pp pp' : Pmempool} {maps : List Nat} (ring : FileRing pp maps)
    (file : pp'.file = pp.file) (link : pp'.fileLink = pp.fileLink)
    (paddr : pp'.poolPaddr = pp.poolPaddr) (nodes : pp'.fileNodes = pp.fileNodes) :
    FileRing pp' maps := by
  constructor
  rw [file, link, paddr, nodes]
  exact ring.reads

/-- The list phase of `pmempool_create_one` lists the mapping, whatever the free ring is. -/
theorem FileRing.grow {pp : Pmempool} {maps : List Nat} (ring : FileRing pp maps)
    (no base count : Nat) :
    FileRing (Lsmalloc.listChunks base count
      { insertFile pp no base with
        chunkTot := (insertFile pp no base).chunkTot + count }) (base :: maps) := by
  have inserted : FileRing { insertFile pp no base with
      chunkTot := (insertFile pp no base).chunkTot + count } (base :: maps) :=
    (ring.insert no base).of_fields rfl rfl rfl rfl
  exact inserted.listChunks

/-- The list phase of `pmempool_create_one` on an exhausted pool. -/
theorem grown_listChunks {w w' : World} {pp : Pmempool} {base : Nat} (empty : FreeRing pp [])
    (isBase : IsBase base pmempoolSize) (grows : Grows w w' ⟨base, pmempoolSize⟩) (no count : Nat)
    (fits : ∀ i < count, i < freelistLen) (whole : count = freelistLen) :
    Grown w w' pp (listChunks base count
      { insertFile pp no base with
        chunkTot := (insertFile pp no base).chunkTot + count }) base where
  isBase := isBase
  grows := grows
  free := by
    have same : FreeRing { insertFile pp no base with
        chunkTot := (insertFile pp no base).chunkTot + count } [] :=
      empty.of_fields rfl rfl rfl rfl
    rw [chunksOf, ← whole]
    exact same.listChunks (fun i inside => isBase.chunk (fits i inside)) isBase.nonnull
  files _ ring := ring.grow no base count
  chunkTot := by
    rw [(listChunks_counters _ _ _).1, ← whole]
    rfl
  chunkUsed := (listChunks_counters _ _ _).2

/-- `pmempool_create_one` on an exhausted pool. -/
theorem pmempoolCreateOne_spec {w w' : World} {pp pp' : Pmempool} (empty : FreeRing pp [])
    (created : pmempoolCreateOne w pp = .ok (w', pp')) : ∃ base, Grown w w' pp pp' base := by
  obtain ⟨⟨base, w₁⟩, mapped, created⟩ := Execution.bind_eq_ok.mp created
  simp only [Except.ok.injEq, Prod.mk.injEq] at created
  obtain ⟨rfl, rfl⟩ := created
  obtain ⟨isBase, grows⟩ := pmemMapAligned_pool mapped
  refine ⟨base, grown_listChunks empty isBase ?_ _ _ (fun _ inside => inside) rfl⟩
  exact grows.of_fields rfl rfl rfl rfl rfl rfl

/-- Popping leaves the file ring and `chunk_tot` alone. -/
theorem popFree_fields (pp : Pmempool) :
    (popFree pp).2.chunkTot = pp.chunkTot ∧ (popFree pp).2.chunkUsed = pp.chunkUsed + 1 ∧
      ∀ maps, FileRing pp maps → FileRing (popFree pp).2 maps := by
  unfold popFree
  split
  · exact ⟨rfl, rfl, fun _ ring => ring.of_fields rfl rfl rfl rfl⟩
  · exact ⟨rfl, rfl, fun _ ring => ring.of_fields rfl rfl rfl rfl⟩

/-- Taking a chunk touches no object and asks for none, whatever the state of the rings. -/
theorem pmempoolChunkAlloc_objects {w w' : World} {pp pp' : Pmempool} {a : Nat}
    (allocated : pmempoolChunkAlloc w pp = .ok (a, w', pp')) :
    w'.blocks = w.blocks ∧ w'.mallocAnswers = w.mallocAnswers := by
  unfold pmempoolChunkAlloc at allocated
  obtain ⟨⟨w₁, pp₁⟩, grown, popped⟩ := Execution.bind_eq_ok.mp allocated
  simp only [Except.ok.injEq, Prod.mk.injEq] at popped
  obtain ⟨-, rfl, -⟩ := popped
  split at grown
  · obtain ⟨⟨base, w₂⟩, mapped, grown⟩ := Execution.bind_eq_ok.mp grown
    simp only [Except.ok.injEq, Prod.mk.injEq] at grown
    obtain ⟨rfl, -⟩ := grown
    have grows := (pmemMapAligned_pool mapped).2
    exact ⟨grows.blocks, grows.mallocAnswers⟩
  · cases grown
    exact ⟨rfl, rfl⟩

/-- `pmempool_chunk_alloc` pops the queue, after growing it when it is empty. -/
theorem pmempoolChunkAlloc_spec {w w' : World} {pp pp' : Pmempool} {free : List Nat} {a : Nat}
    (ring : FreeRing pp free) (allocated : pmempoolChunkAlloc w pp = .ok (a, w', pp')) :
    (∃ rest, free = a :: rest ∧ FreeRing pp' rest ∧ w' = w ∧
        (∀ maps, FileRing pp maps → FileRing pp' maps) ∧ pp'.chunkTot = pp.chunkTot ∧
        pp'.chunkUsed = pp.chunkUsed + 1) ∨
      (∃ base rest, free = [] ∧ chunksOf base = a :: rest ∧ FreeRing pp' rest ∧
        IsBase base pmempoolSize ∧ Grows w w' ⟨base, pmempoolSize⟩ ∧
        (∀ maps, FileRing pp maps → FileRing pp' (base :: maps)) ∧
        pp'.chunkTot = pp.chunkTot + freelistLen ∧ pp'.chunkUsed = pp.chunkUsed + 1) := by
  unfold pmempoolChunkAlloc at allocated
  obtain ⟨⟨w₁, pp₁⟩, grown, popped⟩ := Execution.bind_eq_ok.mp allocated
  simp only [Except.ok.injEq, Prod.mk.injEq] at popped
  obtain ⟨rfl, rfl, rfl⟩ := popped
  obtain ⟨sameTot, counted, sameFiles⟩ := popFree_fields pp₁
  split at grown
  · rename_i exhausted
    obtain rfl := ring.exhausted_iff.mp exhausted
    obtain ⟨base, spec⟩ := pmempoolCreateOne_spec ring grown
    obtain ⟨first, rest, chunks⟩ : ∃ first rest, chunksOf base = first :: rest :=
      List.exists_cons_of_length_pos (by simp [chunksOf, freelistLen_eq])
    have queue := spec.free
    rw [chunks] at queue
    obtain ⟨rfl, popped⟩ := queue.pop
    exact .inr ⟨base, rest, rfl, chunks, popped, spec.isBase, spec.grows,
      fun maps files => sameFiles _ (spec.files maps files), sameTot.trans spec.chunkTot,
      counted.trans (by rw [spec.chunkUsed])⟩
  · rename_i available
    cases grown
    obtain ⟨first, rest, rfl⟩ : ∃ first rest, free = first :: rest :=
      List.exists_cons_of_ne_nil fun empty => available (ring.exhausted_iff.mpr empty)
    obtain ⟨rfl, popped⟩ := ring.pop
    exact .inl ⟨rest, rfl, popped, rfl, sameFiles, sameTot, counted⟩

end Lsmalloc
