import Lsmalloc.Arena.Accounting

/-!
# The links of all regions

`ql_elm_new` links a new region to itself, and `ql_tail_insert` links it in before the region
the list of its chunk starts at. So every region is on a ring, whatever the heads of the lists
are (`RegionsLinked`): a list that starts in the middle of another one is that other one.
-/

namespace Lsmalloc

variable {h h' : Heap} {arena arena' : Arena} {c region size ptr threadid : Nat}

/-- Every region is linked from the one before it. -/
def RegionsLinked (h : Heap) : Prop :=
  ∀ r, ⟨r, .region⟩ ∈ h.blocks → ⟨h.regionsLink.prev r, .region⟩ ∈ h.blocks ∧
    h.regionsLink.next (h.regionsLink.prev r) = r

/-- One region more than in `h`. -/
structure RegionAdded (h h' : Heap) (region : Nat) : Prop where
  fresh : ⟨region, .region⟩ ∉ h.blocks
  isRegion : ∀ x, ⟨x, .region⟩ ∈ h'.blocks ↔ x = region ∨ ⟨x, .region⟩ ∈ h.blocks

/-- How a new region is linked in: to itself, or before a region that was there. -/
inductive LinkedIn (h : Heap) (region : Nat) (links : Links Nat) : Prop
  | alone (self : links.next region = region ∧ links.prev region = region)
      (others : ∀ x, x ≠ region → links.next x = h.regionsLink.next x ∧
        links.prev x = h.regionsLink.prev x)
  | before (a : Nat) (old : ⟨a, .region⟩ ∈ h.blocks)
      (next : ∀ y, links.next y = if y = h.regionsLink.prev a then region
        else if y = region then a else h.regionsLink.next y)
      (prev : ∀ y, links.prev y = if y = a then region
        else if y = region then h.regionsLink.prev a else h.regionsLink.prev y)

theorem RegionAdded.ne (added : RegionAdded h h' region) {x : Nat}
    (old : ⟨x, .region⟩ ∈ h.blocks) : x ≠ region := by
  rintro rfl
  exact added.fresh old

/-- A new descriptor is one region more. -/
theorem RegionAdded.of_newBlock {w : World} (new : NewBlock h.toWorld w .region region)
    (blocks : ∀ x, ⟨x, .region⟩ ∈ h'.blocks ↔ (⟨x, .region⟩ : Block) ∈ w.blocks) :
    RegionAdded h h' region where
  fresh here := new.fresh _ here rfl
  isRegion x := by
    rw [blocks, new.blocks]
    simp

/-- A placed region is linked in. -/
theorem RegionPlaced.linkedIn {h₁ : Heap} (added : RegionAdded h h₁ region)
    (links : h₁.regionsLink = h.regionsLink)
    (nodes : ∀ n ∈ qlInsertNodes (qrNew h₁.regionsLink region) (h₁.chunks c).regions,
      n ≠ 0 ∧ ⟨n, .region⟩ ∈ h₁.blocks)
    (placed : RegionPlaced h₁ h' c region size ptr threadid) :
    LinkedIn h region h'.regionsLink := by
  have result : h'.regionsLink =
      (qlTailInsert (qrNew h.regionsLink region) (h₁.chunks c).regions region).1 := by
    rw [← links]
    exact placed.regionsLink
  have self : (qrNew h.regionsLink region).next region = region ∧
      (qrNew h.regionsLink region).prev region = region := by simp [qrNew]
  have others : ∀ x, x ≠ region → (qrNew h.regionsLink region).next x = h.regionsLink.next x ∧
      (qrNew h.regionsLink region).prev x = h.regionsLink.prev x := fun _ other => qrNew_other other
  rw [links] at nodes
  generalize (h₁.chunks c).regions = first at nodes result
  by_cases null : first = 0
  · rw [qlTailInsert, null] at result
    simp only [ne_eq, not_true_eq_false, if_false] at result
    rw [result]
    exact .alone self others
  have inserted : h'.regionsLink = qrBeforeInsert (qrNew h.regionsLink region) first region := by
    rw [result, qlTailInsert]
    simp [null]
  rw [inserted]
  by_cases stale : first = region
  · -- The list starts at the new region itself, by accident.
    subst stale
    refine .alone ⟨?_, by simp [qrBeforeInsert_prev]⟩ ?_
    · simp [qrBeforeInsert_next, self.2]
    · intro x other
      rw [qrBeforeInsert_next, qrBeforeInsert_prev, self.2, if_neg other, if_neg other,
        if_neg other, if_neg other]
      exact others x other
  · have isNode := (nodes first (by simp [qlInsertNodes, null])).2
    have old : (⟨first, .region⟩ : Block) ∈ h.blocks :=
      ((added.isRegion first).mp isNode).resolve_left stale
    refine .before first old ?_ ?_
    · intro y
      rw [qrBeforeInsert_next, (others first stale).2]
      by_cases here : y = region
      · simp [here]
      · simp [here, (others y here).1]
    · intro y
      rw [qrBeforeInsert_prev, (others first stale).2]
      by_cases here : y = region
      · simp [here]
      · simp [here, (others y here).2]

/-- Linking in a new region keeps every region on a ring. -/
theorem RegionsLinked.linkIn (linked : RegionsLinked h) (added : RegionAdded h h' region)
    (insertion : LinkedIn h region h'.regionsLink) : RegionsLinked h' := by
  intro y isNode
  cases insertion with
  | alone self others =>
      rcases (added.isRegion y).mp isNode with rfl | old
      · rw [self.2, self.1]
        exact ⟨isNode, rfl⟩
      · obtain ⟨isPrev, closed⟩ := linked y old
        rw [(others y (added.ne old)).2, (others _ (added.ne isPrev)).1]
        exact ⟨(added.isRegion _).mpr (.inr isPrev), closed⟩
  | before a old next prev =>
      obtain ⟨isPrevA, closedA⟩ := linked a old
      rw [prev]
      by_cases here : y = a
      · rw [if_pos here, next, if_neg (added.ne isPrevA).symm, if_pos rfl]
        exact ⟨(added.isRegion _).mpr (.inl rfl), here.symm⟩
      rw [if_neg here]
      rcases (added.isRegion y).mp isNode with rfl | oldY
      · rw [if_pos rfl, next, if_pos rfl]
        exact ⟨(added.isRegion _).mpr (.inr isPrevA), rfl⟩
      · obtain ⟨isPrev, closed⟩ := linked y oldY
        have other : h.regionsLink.prev y ≠ h.regionsLink.prev a := by
          intro same
          rw [← closed, same] at here
          exact here closedA
        rw [if_neg (added.ne oldY), next, if_neg other, if_neg (added.ne isPrev)]
        exact ⟨(added.isRegion _).mpr (.inr isPrev), closed⟩

/-- Only the regions and their links matter. -/
theorem RegionsLinked.congr (linked : RegionsLinked h)
    (blocks : ∀ x, ⟨x, .region⟩ ∈ h'.blocks ↔ ⟨x, .region⟩ ∈ h.blocks)
    (links : h'.regionsLink = h.regionsLink) : RegionsLinked h' := by
  intro r isNode
  rw [links, blocks]
  exact linked r ((blocks r).mp isNode)

/-! ## Runs -/

/-- A chunk for a region makes no region and links none. -/
theorem regionChunk_regions (chosen : regionChunk h arena size = .ok (c, h', arena')) :
    (∀ x, ⟨x, .region⟩ ∈ h'.blocks ↔ ⟨x, .region⟩ ∈ h.blocks) ∧
      h'.regionsLink = h.regionsLink := by
  rcases regionChunk_effect chosen with ⟨rfl, _⟩ | ⟨_, _, addr, allocated⟩
  · exact ⟨fun _ => Iff.rfl, rfl⟩
  · exact ⟨fun x => allocated.mem_blocks (by simp), allocated.regionsLink⟩

/-- `arena_region_alloc` links its region in. -/
theorem RegionsLinked.regionAlloc {ret : Nat} (linked : RegionsLinked h)
    (allocated : arenaRegionAlloc h arena size ptr threadid = .ok (ret, h', arena')) :
    RegionsLinked h' := by
  obtain ⟨⟨region, w⟩, made, allocated⟩ := Execution.bind_eq_ok.mp allocated
  obtain ⟨⟨c, h₁, arena₁⟩, chosen, allocated⟩ := Execution.bind_eq_ok.mp allocated
  obtain ⟨⟨paddr, h₂⟩, placed, allocated⟩ := Execution.bind_eq_ok.mp allocated
  simp only [Except.ok.injEq, Prod.mk.injEq] at allocated
  obtain ⟨_, rfl, _⟩ := allocated
  obtain ⟨blocks, links⟩ := regionChunk_regions chosen
  have new := malloc_newBlock made
  have effect := (placeRegion_effect placed).2
  have insertion := RegionPlaced.linkedIn (.of_newBlock new blocks) links
    (placeRegion_nodes placed) effect
  refine linked.linkIn (.of_newBlock new fun x => ?_) insertion
  rw [effect.world]
  exact blocks x

end Lsmalloc
