import Mathlib.Data.List.Pairwise

/-!
# Address spans

A span is a half-open interval of addresses. Two spans are `Apart` when one ends
where or before the other starts, and `Span.diff` is what is left of a span when
another is cut out of it. A `Tagged` list of spans that are pairwise apart stays
so when one of its members is carved into pieces (`carve_pairwise`), the step
every bump allocator takes.
-/

/-- The addresses from `start` up to, and not including, `start + len`. -/
structure Span where
  start : Nat
  len : Nat
deriving DecidableEq, Repr

namespace Span

/-- Neither span reaches into the other. -/
def Apart (r s : Span) : Prop :=
  r.start + r.len ≤ s.start ∨ s.start + s.len ≤ r.start

/-- Every address of `r` is an address of `s`, ends included. -/
def Within (r s : Span) : Prop :=
  s.start ≤ r.start ∧ r.start + r.len ≤ s.start + s.len

instance (r s : Span) : Decidable (r.Apart s) := by
  unfold Apart
  infer_instance

instance (r s : Span) : Decidable (r.Within s) := by
  unfold Within
  infer_instance

theorem apart_mk {a b m n : Nat} :
    (Span.mk a m).Apart ⟨b, n⟩ ↔ a + m ≤ b ∨ b + n ≤ a := Iff.rfl

theorem within_mk {a b m n : Nat} :
    (Span.mk a m).Within ⟨b, n⟩ ↔ b ≤ a ∧ a + m ≤ b + n := Iff.rfl

/-- Spans that are apart and not empty start at different addresses. -/
theorem Apart.start_ne {r s : Span} (apart : r.Apart s) (nonempty : 0 < r.len)
    (nonempty' : 0 < s.len) : r.start ≠ s.start := by
  unfold Apart at apart
  omega

theorem Apart.symm {r s : Span} (apart : r.Apart s) : s.Apart r :=
  Or.symm apart

theorem Within.refl (r : Span) : r.Within r :=
  ⟨Nat.le_refl _, Nat.le_refl _⟩

theorem Within.trans {r s t : Span} (inner : r.Within s) (outer : s.Within t) : r.Within t :=
  ⟨Nat.le_trans outer.1 inner.1, Nat.le_trans inner.2 outer.2⟩

/-- Shrinking a span keeps it apart. -/
theorem Apart.mono {r r' s : Span} (apart : r.Apart s) (inside : r'.Within r) : r'.Apart s := by
  unfold Apart Within at *
  omega

/-- Shrinking both spans keeps them apart. -/
theorem Apart.mono₂ {r r' s s' : Span} (apart : r.Apart s) (left : r'.Within r)
    (right : s'.Within s) : r'.Apart s' :=
  ((apart.mono left).symm.mono right).symm

/-- What is left of `m` when the addresses of `cut` are taken out. -/
def diff (m cut : Span) : List Span :=
  if m.Apart cut then [m]
  else
    (if m.start < cut.start then [⟨m.start, cut.start - m.start⟩] else []) ++
      (if cut.start + cut.len < m.start + m.len then
        [⟨cut.start + cut.len, m.start + m.len - (cut.start + cut.len)⟩] else [])

/-- The remains of a span lie within it. -/
theorem within_of_mem_diff {m cut r : Span} (member : r ∈ m.diff cut) : r.Within m := by
  unfold diff at member
  unfold Within
  split at member
  · simp only [List.mem_singleton] at member
    subst member
    omega
  · rename_i meets
    unfold Apart at meets
    simp only [List.mem_append] at member
    rcases member with member | member <;> split at member <;>
      simp only [List.mem_singleton, List.not_mem_nil] at member <;> subst member <;>
      simp only <;> omega

/-- A nonempty part of `m` that the cut misses lies within one of the remains. -/
theorem exists_mem_diff {m cut r : Span} (inside : r.Within m) (apart : r.Apart cut)
    (nonempty : 0 < r.len) : ∃ piece ∈ m.diff cut, r.Within piece := by
  unfold diff
  split
  · exact ⟨m, by simp, inside⟩
  · unfold Apart Within at *
    rcases apart with before | after
    · have leftPiece : m.start < cut.start := by omega
      refine ⟨⟨m.start, cut.start - m.start⟩, by simp [leftPiece], ?_, ?_⟩ <;> simp only <;> omega
    · have rightPiece : cut.start + cut.len < m.start + m.len := by omega
      refine ⟨⟨cut.start + cut.len, m.start + m.len - (cut.start + cut.len)⟩,
        by simp [rightPiece], ?_, ?_⟩ <;> simp only <;> omega

/-- The remains of a span miss the cut. -/
theorem apart_of_mem_diff {m cut r : Span} (member : r ∈ m.diff cut) : r.Apart cut := by
  unfold diff at member
  split at member
  · rename_i misses
    rw [List.mem_singleton.mp member]
    exact misses
  · simp only [List.mem_append] at member
    rcases member with member | member <;> split at member <;>
      simp only [List.mem_singleton, List.not_mem_nil] at member <;> subst member <;>
      rw [Apart] <;> simp only <;> omega

/-- What is left of a span are the addresses of the span that the cut does not have. -/
theorem mem_diff_byte {m cut : Span} {a : Nat} :
    (∃ piece ∈ m.diff cut, (Span.mk a 1).Within piece) ↔
      (Span.mk a 1).Within m ∧ ¬ (Span.mk a 1).Within cut := by
  constructor
  · rintro ⟨piece, member, inside⟩
    refine ⟨inside.trans (within_of_mem_diff member), fun inCut => ?_⟩
    have apart : (Span.mk a 1).Apart ⟨a, 1⟩ := (apart_of_mem_diff member).mono₂ inside inCut
    exact apart.start_ne Nat.one_pos Nat.one_pos rfl
  · rintro ⟨inside, outside⟩
    refine exists_mem_diff inside ?_ Nat.one_pos
    rw [Within] at outside
    rw [Apart]
    simp only at outside ⊢
    omega

/-- A span with the role it plays. -/
structure Tagged (τ : Type*) where
  tag : τ
  span : Span

/-- Tagged spans are apart when their spans are. -/
def Tagged.Apart {τ : Type*} (i j : Tagged τ) : Prop :=
  i.span.Apart j.span

instance {τ : Type*} : Std.Symm (Tagged.Apart (τ := τ)) :=
  ⟨fun _ _ apart => Span.Apart.symm apart⟩

variable {τ : Type*}

/-- Two different members of a pairwise apart list are apart. -/
theorem apart_of_mem {items : List (Tagged τ)} (pairwise : items.Pairwise Tagged.Apart)
    {i j : Tagged τ} (left : i ∈ items) (right : j ∈ items) (different : i ≠ j) :
    i.span.Apart j.span :=
  pairwise.forall left right different

/-- Replace one member by pieces carved out of it, dropping any others. -/
theorem carve_pairwise {items pieces : List (Tagged τ)} (pairwise : items.Pairwise Tagged.Apart)
    {whole : Tagged τ} (member : whole ∈ items) (keep : Tagged τ → Bool)
    (dropped : keep whole = false) (piecesPairwise : pieces.Pairwise Tagged.Apart)
    (inside : ∀ piece ∈ pieces, piece.span.Within whole.span) :
    (pieces ++ items.filter keep).Pairwise Tagged.Apart := by
  rw [List.pairwise_append]
  refine ⟨piecesPairwise, pairwise.sublist List.filter_sublist, ?_⟩
  intro piece pieceMember other otherMember
  obtain ⟨inItems, kept⟩ := List.mem_filter.mp otherMember
  have different : whole ≠ other := by
    rintro rfl
    rw [dropped] at kept
    cases kept
  exact (apart_of_mem pairwise member inItems different).mono (inside piece pieceMember)

/-- Add pieces of a span that every member is apart from. -/
theorem extend_pairwise {items pieces : List (Tagged τ)} (pairwise : items.Pairwise Tagged.Apart)
    {room : Span} (clear : ∀ i ∈ items, i.span.Apart room)
    (piecesPairwise : pieces.Pairwise Tagged.Apart)
    (inside : ∀ piece ∈ pieces, piece.span.Within room) :
    (pieces ++ items).Pairwise Tagged.Apart := by
  rw [List.pairwise_append]
  refine ⟨piecesPairwise, pairwise, ?_⟩
  intro piece pieceMember other otherMember
  exact (clear other otherMember).symm.mono (inside piece pieceMember)

end Span
