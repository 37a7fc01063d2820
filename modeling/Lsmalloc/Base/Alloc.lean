import Lsmalloc.Base.Mmap

/-!
# `base_alloc`

`base.c` hands out blocks of whole cache lines, from chunks of its own, and takes none back.
-/

namespace Lsmalloc

open Execution

/-- `CACHELINE`. -/
def cacheline : Nat := 64

/-- `CACHELINE_CEILING(s)`. -/
def cachelineCeiling (s : Nat) : Nat := szAdd s (cacheline - 1) &&& (2 ^ 64 - cacheline)

/-- `CHUNK_CEILING(s)`. -/
def chunkCeiling (s : Nat) : Nat := szAdd s chunksizeMask &&& (2 ^ 64 - 1 - chunksizeMask)

/-- `base_pages`, `base_next_addr` and `base_past_addr`, and the mappings. -/
structure Base where
  pages : Pages
  basePages : Nat
  baseNextAddr : Nat
  basePastAddr : Nat

/-- `base_pages_alloc`, and whether it failed. -/
def basePagesAlloc (b : Base) (minsize : Nat) : Except Fault (Bool × Base) :=
  if minsize = 0 then .error .abort
  else do
    let csize := chunkCeiling minsize
    let (basePages, _, pages) ← chunkAlloc b.pages csize chunksize false
    if basePages = 0 then .ok (true, { b with pages := pages, basePages := basePages })
    else .ok (false, ⟨pages, basePages, basePages, szAdd basePages csize⟩)

/-- The last part of `base_alloc`. -/
def baseTake (b : Base) (csize : Nat) : Nat × Base :=
  (b.baseNextAddr, { b with baseNextAddr := szAdd b.baseNextAddr csize })

/-- `base_alloc`. -/
def baseAlloc (b : Base) (size : Nat) : Except Fault (Nat × Base) :=
  let csize := cachelineCeiling size
  if szAdd b.baseNextAddr csize > b.basePastAddr then do
    let (failed, b) ← basePagesAlloc b csize
    if failed = true then .ok (0, b) else .ok (baseTake b csize)
  else .ok (baseTake b csize)

/-- `base_calloc`. -/
def baseCalloc (b : Base) (number size : Nat) : Except Fault (Nat × Base) :=
  baseAlloc b (number * size % 2 ^ 64)

/-! ## Rounding -/

variable {size : Nat}

theorem cachelineCeiling_eq (small : size ≤ 2 ^ 63) :
    cachelineCeiling size = (size + 63) / 64 * 64 := by
  have mask : 2 ^ 64 - cacheline = 2 ^ 64 - 2 ^ 6 := by decide
  have sum : szAdd size (cacheline - 1) = size + 63 := szAdd_of_lt (by change size + 63 < _; omega)
  rw [cachelineCeiling, mask, sum, and_high_mask (by omega) (by decide)]
  norm_num

theorem chunkCeiling_eq (small : size ≤ 2 ^ 63 + 64) :
    chunkCeiling size = (size + (chunksize - 1)) / chunksize * chunksize := by
  have mask : 2 ^ 64 - 1 - chunksizeMask = 2 ^ 64 - 2 ^ 22 := by decide
  have offset : chunksizeMask = chunksize - 1 := rfl
  have two : chunksize = 2 ^ 22 := by decide
  have sum : szAdd size chunksizeMask = size + (chunksize - 1) := by
    rw [offset, two]
    exact szAdd_of_lt (by omega)
  rw [chunkCeiling, mask, sum, two, and_high_mask (by omega) (by decide)]

/-! ## Runs -/

/-- A block that was asked for and handed out. -/
structure BaseBlock where
  ret : Nat
  size : Nat

/-- The cache lines of a block. -/
def BaseBlock.lines (b : BaseBlock) : Span := ⟨b.ret, cachelineCeiling b.size⟩

/-- The allocator with its blocks. -/
structure BaseRun where
  base : Base
  blocks : List BaseBlock

inductive BaseOp
  | alloc (size : Nat)
  | calloc (number size : Nat)

/-- What is asked for. -/
def BaseOp.requested : BaseOp → Nat
  | .alloc size => size
  | .calloc number size => number * size

/-- A request that is not empty, and no larger than an object can be. -/
def BaseOp.Small (op : BaseOp) : Prop := 0 < op.requested ∧ op.requested ≤ 2 ^ 63

def BaseOp.call (b : Base) : BaseOp → Except Fault (Nat × Base)
  | .alloc size => baseAlloc b size
  | .calloc number size => baseCalloc b number size

/-- A request, whose block is recorded if there is one. -/
def BaseRun.step (s : BaseRun) (op : BaseOp) : Except Fault BaseRun := do
  let (ret, base) ← op.call s.base
  .ok ⟨base, if ret = 0 then s.blocks else ⟨ret, op.requested⟩ :: s.blocks⟩

/-- A run from the start of the process. -/
def baseRun (p : Pages) (ops : List BaseOp) : Except Fault BaseRun :=
  run BaseRun.step ⟨⟨p, 0, 0, 0⟩, []⟩ ops

/-- Every byte of the span is mapped. -/
def Pages.Has (p : Pages) (r : Span) : Prop := ∀ a, r.start ≤ a → a < r.start + r.len → p.Byte a

/-- What is left of the chunk. -/
def Base.left (b : Base) : Span := ⟨b.baseNextAddr, b.basePastAddr - b.baseNextAddr⟩

/-- The invariant. -/
structure BaseRun.Inv (s : BaseRun) : Prop where
  ordered : s.base.baseNextAddr ≤ s.base.basePastAddr
  inSpace : s.base.basePastAddr ≤ 2 ^ 47
  aligned : s.base.baseNextAddr % cacheline = 0
  left : s.base.pages.Has s.base.left
  nonempty : ∀ b ∈ s.blocks, 0 < b.lines.len
  lines : ∀ b ∈ s.blocks, b.lines.start % cacheline = 0
  mapped : ∀ b ∈ s.blocks, s.base.pages.Has b.lines
  beside : ∀ b ∈ s.blocks, b.lines.Apart s.base.left
  apart : (s.blocks.map BaseBlock.lines).Pairwise Span.Apart

/-- Spans that are not empty and share no byte are apart. -/
theorem apart_of_bytes {r t : Span} (nonempty : 0 < r.len) (nonempty' : 0 < t.len)
    (bytes : ∀ a, r.start ≤ a → a < r.start + r.len → ¬ (t.start ≤ a ∧ a < t.start + t.len)) :
    r.Apart t := by
  have first := bytes r.start
  have second := bytes t.start
  unfold Span.Apart
  omega

/-- The state of the kernel and `base_pages` do not matter, apart from the mapped bytes. -/
theorem BaseRun.Inv.congr {s : BaseRun} (inv : s.Inv) {p : Pages} {basePages : Nat}
    (same : ∀ a, p.Byte a ↔ s.base.pages.Byte a) :
    BaseRun.Inv ⟨{ s.base with pages := p, basePages := basePages }, s.blocks⟩ where
  ordered := inv.ordered
  inSpace := inv.inSpace
  aligned := inv.aligned
  left a lower upper := (same a).mpr (inv.left a lower upper)
  nonempty := inv.nonempty
  lines := inv.lines
  mapped b member a lower upper := (same a).mpr (inv.mapped b member a lower upper)
  beside := inv.beside
  apart := inv.apart

/-- Lines at the front of what is left are handed out. -/
theorem BaseRun.Inv.take {s : BaseRun} (inv : s.Inv) (positive : 0 < size) (small : size ≤ 2 ^ 63)
    (room : s.base.baseNextAddr + cachelineCeiling size ≤ s.base.basePastAddr) :
    BaseRun.Inv ⟨(baseTake s.base (cachelineCeiling size)).2,
      if s.base.baseNextAddr = 0 then s.blocks else ⟨s.base.baseNextAddr, size⟩ :: s.blocks⟩ := by
  have rounded := cachelineCeiling_eq small
  have space := inv.inSpace
  have aligned := inv.aligned
  have line : cacheline = 64 := rfl
  rw [line] at aligned
  have next : (baseTake s.base (cachelineCeiling size)).2.baseNextAddr =
      s.base.baseNextAddr + cachelineCeiling size := szAdd_of_lt (by omega)
  have left : (baseTake s.base (cachelineCeiling size)).2.left =
      ⟨s.base.baseNextAddr + cachelineCeiling size,
        s.base.basePastAddr - (s.base.baseNextAddr + cachelineCeiling size)⟩ := by
    rw [Base.left, next]
    rfl
  have rest : (baseTake s.base (cachelineCeiling size)).2.left.Within s.base.left := by
    rw [left]
    simp only [Span.Within, Base.left]
    omega
  have kept : BaseRun.Inv ⟨(baseTake s.base (cachelineCeiling size)).2, s.blocks⟩ := by
    refine ⟨by rw [next]; exact room, space, ?_, ?_, inv.nonempty, inv.lines, inv.mapped, ?_,
      inv.apart⟩
    · rw [next, line]
      omega
    · intro a lower upper
      exact inv.left a (rest.1.trans lower) (upper.trans_le rest.2)
    · exact fun b member => (inv.beside b member).symm.mono rest |>.symm
  by_cases null : s.base.baseNextAddr = 0
  · rw [if_pos null]
    exact kept
  · rw [if_neg null]
    have here : (BaseBlock.mk s.base.baseNextAddr size).lines.Within s.base.left := by
      simp only [Span.Within, Base.left, BaseBlock.lines]
      omega
    refine ⟨kept.ordered, space, kept.aligned, kept.left, ?_, ?_, ?_, ?_, ?_⟩
    · refine List.forall_mem_cons.mpr ⟨?_, inv.nonempty⟩
      simp only [BaseBlock.lines]
      omega
    · exact List.forall_mem_cons.mpr ⟨inv.aligned, inv.lines⟩
    · refine List.forall_mem_cons.mpr ⟨fun a lower upper => ?_, inv.mapped⟩
      exact inv.left a (here.1.trans lower) (upper.trans_le here.2)
    · refine List.forall_mem_cons.mpr ⟨?_, kept.beside⟩
      rw [left]
      exact .inl (Nat.le_refl _)
    · rw [List.map_cons]
      refine List.pairwise_cons.mpr ⟨fun r member => ?_, inv.apart⟩
      obtain ⟨b, inBlocks, rfl⟩ := List.mem_map.mp member
      exact (inv.beside b inBlocks).symm.mono here

/-- A new chunk has the room. -/
theorem BaseRun.Inv.pagesAlloc {s : BaseRun} (inv : s.Inv) {minsize : Nat} (positive : 0 < minsize)
    (small : minsize ≤ 2 ^ 63 + 64) :
    Delivers (· = Fault.contract) (fun r => BaseRun.Inv ⟨r.2, s.blocks⟩ ∧
        (r.1 = false → r.2.baseNextAddr + minsize ≤ r.2.basePastAddr))
      (basePagesAlloc s.base minsize) := by
  have rounded := chunkCeiling_eq small
  rw [chunksize_eq] at rounded
  rw [basePagesAlloc, if_neg (by omega)]
  have whole : chunkCeiling minsize % chunksize = 0 := by
    rw [chunksize_eq]
    omega
  have chunks := chunkAlloc_delivers s.base.pages (by omega) (by omega) whole (Nat.le_refl 22)
    (by decide) false
  have two : (2 : Nat) ^ 22 = chunksize := by decide
  rw [two] at chunks
  refine chunks.bind ?_
  rintro ⟨ret, zero, p⟩ (⟨failed, _, same⟩ | ⟨chunk, _⟩)
  · dsimp only at failed same ⊢
    rw [if_pos failed]
    exact delivers_ok ⟨inv.congr same, fun succeeded => by cases succeeded⟩
  · have space := chunk.inSpace
    have aligned := chunk.aligned
    dsimp only at chunk space aligned ⊢
    rw [if_neg chunk.nonzero]
    have past : szAdd ret (chunkCeiling minsize) = ret + chunkCeiling minsize :=
      szAdd_of_lt (by omega)
    have left : (Base.mk p ret ret (szAdd ret (chunkCeiling minsize))).left =
        ⟨ret, chunkCeiling minsize⟩ := by
      rw [Base.left, past, Nat.add_sub_cancel_left]
    have apart : ∀ b ∈ s.blocks, b.lines.Apart ⟨ret, chunkCeiling minsize⟩ := by
      intro b member
      refine apart_of_bytes (inv.nonempty b member) (by dsimp only; omega) ?_
      intro a lower upper inside
      exact chunk.fresh a inside.1 inside.2 (inv.mapped b member a lower upper)
    refine delivers_ok ⟨⟨?_, ?_, ?_, ?_, inv.nonempty, inv.lines, ?_, ?_, inv.apart⟩, ?_⟩
    · dsimp only
      omega
    · dsimp only
      omega
    · have line : cacheline = 64 := rfl
      rw [chunksize_eq] at aligned
      dsimp only
      rw [line]
      omega
    · rw [left]
      exact fun a lower upper => (chunk.bytes a).mpr (.inr ⟨lower, upper⟩)
    · exact fun b member a lower upper =>
        (chunk.bytes a).mpr (.inl (inv.mapped b member a lower upper))
    · rw [left]
      exact apart
    · intro _
      dsimp only
      omega

theorem BaseRun.Inv.alloc {s : BaseRun} (inv : s.Inv) (positive : 0 < size)
    (small : size ≤ 2 ^ 63) :
    Delivers (· = Fault.contract)
      (fun r => BaseRun.Inv ⟨r.2, if r.1 = 0 then s.blocks else ⟨r.1, size⟩ :: s.blocks⟩)
      (baseAlloc s.base size) := by
  have rounded := cachelineCeiling_eq small
  have ordered := inv.ordered
  have space := inv.inSpace
  have sum : szAdd s.base.baseNextAddr (cachelineCeiling size) =
      s.base.baseNextAddr + cachelineCeiling size := szAdd_of_lt (by omega)
  rw [baseAlloc]
  dsimp only
  rw [sum]
  split
  · refine (inv.pagesAlloc (by omega) (by omega)).bind ?_
    rintro ⟨failed, b⟩ ⟨inv', room⟩
    cases failed with
    | true => exact delivers_ok inv'
    | false => exact delivers_ok (inv'.take positive small (room rfl))
  · exact delivers_ok (inv.take positive small (by omega))

theorem BaseRun.Inv.step {s : BaseRun} (inv : s.Inv) {op : BaseOp} (asked : op.Small) :
    Delivers (· = Fault.contract) BaseRun.Inv (s.step op) := by
  obtain ⟨positive, small⟩ := asked
  have answered := inv.alloc positive small
  have calls : op.call s.base = baseAlloc s.base op.requested := by
    cases op with
    | alloc size => rfl
    | calloc number size =>
        have product : number * size % 2 ^ 64 = number * size :=
          Nat.mod_eq_of_lt (by simp only [BaseOp.requested] at small; omega)
        rw [BaseOp.call, baseCalloc, product, BaseOp.requested]
  rw [← calls] at answered
  exact answered.bind fun _ inv' => delivers_ok inv'

/-- **No two blocks of `base_alloc` share a cache line.** In any run of requests that are not empty
and no larger than an object can be, whatever is mapped and whatever `mmap` answers, nothing fails,
every block starts a cache line and is mapped to the end of its last one, and the cache lines of
different blocks are apart. -/
theorem baseRun_apart {p : Pages} {ops : List BaseOp} (asked : ∀ op ∈ ops, op.Small) :
    Delivers (· = Fault.contract)
      (fun s => (s.blocks.map BaseBlock.lines).Pairwise Span.Apart ∧
        ∀ b ∈ s.blocks, b.ret % cacheline = 0 ∧ s.base.pages.Has b.lines)
      (baseRun p ops) := by
  have start : BaseRun.Inv ⟨⟨p, 0, 0, 0⟩, []⟩ := by
    refine ⟨Nat.le_refl _, Nat.zero_le _, rfl, ?_, by simp, by simp, by simp, by simp, .nil⟩
    intro a _ upper
    exact absurd upper (Nat.not_lt_zero a)
  have steps : ∀ (s : BaseRun) (op : BaseOp), s.Inv → op.Small →
      Delivers (· = Fault.contract) BaseRun.Inv (s.step op) := fun _ _ inv asked => inv.step asked
  refine (run_delivers steps start asked).mono (fun _ contract => contract) ?_
  exact fun s inv => ⟨inv.apart, fun b member => ⟨inv.lines b member, inv.mapped b member⟩⟩

/-- Two blocks in one chunk and one in a second chunk. -/
theorem baseRun_apart_of_threeBlocks :
    ∃ s, baseRun ⟨[], [some chunksize, some (2 * chunksize)]⟩
        [.alloc 100, .calloc 10 10, .alloc chunksize] = .ok s ∧
      s.blocks.map BaseBlock.ret = [2 * chunksize, chunksize + 128, chunksize] ∧
      (s.blocks.map BaseBlock.lines).Pairwise Span.Apart := by
  obtain ⟨s, ran, blocks⟩ :
      ∃ s, baseRun ⟨[], [some chunksize, some (2 * chunksize)]⟩
          [.alloc 100, .calloc 10 10, .alloc chunksize] = .ok s ∧
        s.blocks.map BaseBlock.ret = [2 * chunksize, chunksize + 128, chunksize] :=
    exists_eq_ok_and (by decide +kernel)
  have asked : ∀ op ∈ [BaseOp.alloc 100, .calloc 10 10, .alloc chunksize], op.Small := by
    simp only [List.forall_mem_cons, BaseOp.Small, BaseOp.requested, chunksize_eq]
    simp
  exact ⟨s, ran, blocks, ((baseRun_apart asked).2 s ran).1⟩

end Lsmalloc
