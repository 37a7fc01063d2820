import Mathlib.Data.Fintype.Card
import Mathlib.Data.Fintype.Basic
import Lsmalloc.Huge.Model

/-!
# The names of concurrent mappings

`huge_malloc` and `pmempool_create_one` name their files by `mmap_file`, which they read and
advance in separate steps and under no common lock. `huge_malloc` reads the counter once
more, after it has advanced it, for `file_no`. As long as no two calls of a kind read the
same number and no `++mmap_file` moves the counter back, every path is formed once; but a
`file_no` that is recorded is never the number of the path (`mapRace_named`).
-/

namespace Lsmalloc

/-- The calls that map a file. -/
inductive MapCall
  | hugeMalloc
  | pmempoolCreateOne
deriving DecidableEq, Repr

/-- The path a call forms with a number. -/
def MapCall.path : MapCall → Nat → PmemPath
  | .hugeMalloc, no => .huge no
  | .pmempoolCreateOne, no => .lspmemfile no

/-- How far a call has come. -/
inductive MapPc
  | start
  /-- `++mmap_file` of `pmempool_create_one` has read the counter. -/
  | loaded (value : Nat)
  /-- `huge_malloc` has formed its path, and is about to advance the counter. -/
  | formed (no : Nat)
  /-- The path is formed and the counter is advanced. -/
  | advanced (no : Nat)
  /-- The file is mapped. -/
  | mapped (no : Nat)
  /-- The counter was read again for `file_no`. -/
  | recorded (no fileNo : Nat)
deriving DecidableEq, Repr

/-- The value `++mmap_file` has read and not stored back. -/
def MapPc.value? : MapPc → Option Nat
  | .loaded value => some value
  | _ => none

/-- The number in the path. -/
def MapPc.number? : MapPc → Option Nat
  | .start | .loaded _ => none
  | .formed no | .advanced no | .mapped no | .recorded no _ => some no

/-- The call has advanced the counter. -/
def MapPc.isAdvanced : MapPc → Bool
  | .start | .loaded _ | .formed _ => false
  | .advanced _ | .mapped _ | .recorded _ _ => true

/-- The call has mapped its file. -/
def MapPc.isMapped : MapPc → Bool
  | .mapped _ | .recorded _ _ => true
  | _ => false

/-- Calls that map files at the same time. -/
structure MapRace (n : Nat) where
  /-- `mmap_file`. -/
  mmapFile : Nat
  pc : Fin n → MapPc
  /-- The path of every mapping that was made. -/
  files : List PmemPath

/-- Before the first call, as the program is loaded. -/
def MapRace.loaded (n : Nat) : MapRace n where
  mmapFile := 0
  pc := fun _ => .start
  files := []

variable {n : Nat} {kind : Fin n → MapCall} {s s' : MapRace n} {i : Fin n}

/-- A call moves on. -/
def MapRace.move (s : MapRace n) (i : Fin n) (pc : MapPc) : MapRace n :=
  { s with pc := Function.update s.pc i pc }

/-- The next access of a call to the counter or to the files. -/
def MapRace.step (kind : Fin n → MapCall) (s : MapRace n) (i : Fin n) :
    Except Fault (MapRace n) :=
  match s.pc i with
  | .start =>
      match kind i with
      | .hugeMalloc => .ok (s.move i (.formed s.mmapFile))
      | .pmempoolCreateOne => .ok (s.move i (.loaded s.mmapFile))
  | .formed no => .ok ({ s with mmapFile := (s.mmapFile + 1) % 2 ^ 32 }.move i (.advanced no))
  | .loaded value =>
      let no := (value + 1) % 2 ^ 32
      .ok ({ s with mmapFile := no }.move i (.advanced no))
  | .advanced no => .ok ({ s with files := (kind i).path no :: s.files }.move i (.mapped no))
  | .mapped no => .ok (s.move i (.recorded no s.mmapFile))
  | .recorded _ _ => .error .contract

/-- The path a call has formed. -/
def MapRace.path (kind : Fin n → MapCall) (s : MapRace n) (i : Fin n) : Option PmemPath :=
  (s.pc i).number?.map (kind i).path

/-- No two calls form the same path, no file is mapped twice, and each `file_no` names the path
its call formed. -/
structure MapRace.Named (kind : Fin n → MapCall) (s : MapRace n) : Prop where
  paths : ∀ i j path, s.path kind i = some path → s.path kind j = some path → i = j
  files : s.files.Nodup
  fileNo : ∀ i no fileNo, kind i = .hugeMalloc → s.pc i = .recorded no fileNo → fileNo = no

/-- An access that keeps the names apart: a read of a number that no other call of its kind has
read and not yet advanced past, or a store of `++mmap_file` that does not move the counter
back. No read for `file_no` of `huge_malloc` is one. -/
def MapRace.Apart (kind : Fin n → MapCall) (s : MapRace n) (i : Fin n) : Prop :=
  match s.pc i with
  | .start =>
      match kind i with
      | .hugeMalloc => ∀ j, kind j = .hugeMalloc → s.pc j ≠ .formed s.mmapFile
      | .pmempoolCreateOne => ∀ j, s.pc j ≠ .loaded s.mmapFile
  | .loaded value => s.mmapFile ≤ value + 1
  | .mapped _ => kind i ≠ .hugeMalloc
  | .formed _ | .advanced _ | .recorded _ _ => True

instance (kind : Fin n → MapCall) (s : MapRace n) (i : Fin n) : Decidable (s.Apart kind i) := by
  unfold MapRace.Apart
  split
  · split <;> infer_instance
  all_goals infer_instance

/-! ## What a step does -/

@[simp] theorem MapRace.move_pc (s : MapRace n) (i : Fin n) (pc : MapPc) :
    (s.move i pc).pc = Function.update s.pc i pc := rfl

@[simp] theorem MapRace.move_mmapFile (s : MapRace n) (i : Fin n) (pc : MapPc) :
    (s.move i pc).mmapFile = s.mmapFile := rfl

@[simp] theorem MapRace.move_files (s : MapRace n) (i : Fin n) (pc : MapPc) :
    (s.move i pc).files = s.files := rfl

/-- The steps of a call, by where it is. -/
inductive MapStep (kind : Fin n → MapCall) (s : MapRace n) (i : Fin n) : MapRace n → Prop
  | form (start : s.pc i = .start) (huge : kind i = .hugeMalloc) :
      MapStep kind s i (s.move i (.formed s.mmapFile))
  | load (start : s.pc i = .start) (growth : kind i = .pmempoolCreateOne) :
      MapStep kind s i (s.move i (.loaded s.mmapFile))
  | advance (no : Nat) (formed : s.pc i = .formed no) :
      MapStep kind s i ({ s with mmapFile := (s.mmapFile + 1) % 2 ^ 32 }.move i (.advanced no))
  | store (value : Nat) (loaded : s.pc i = .loaded value) :
      MapStep kind s i ({ s with mmapFile := (value + 1) % 2 ^ 32 }.move i
        (.advanced ((value + 1) % 2 ^ 32)))
  | map (no : Nat) (advanced : s.pc i = .advanced no) :
      MapStep kind s i ({ s with files := (kind i).path no :: s.files }.move i (.mapped no))
  | record (no : Nat) (mapped : s.pc i = .mapped no) :
      MapStep kind s i (s.move i (.recorded no s.mmapFile))

theorem MapRace.step_cases (stepped : s.step kind i = .ok s') : MapStep kind s i s' := by
  unfold MapRace.step at stepped
  cases here : s.pc i with
  | start =>
      simp only [here] at stepped
      cases isKind : kind i with
      | hugeMalloc =>
          simp only [isKind] at stepped
          cases stepped
          exact .form here isKind
      | pmempoolCreateOne =>
          simp only [isKind] at stepped
          cases stepped
          exact .load here isKind
  | loaded value =>
      simp only [here] at stepped
      cases stepped
      exact .store value here
  | formed no =>
      simp only [here] at stepped
      cases stepped
      exact .advance no here
  | advanced no =>
      simp only [here] at stepped
      cases stepped
      exact .map no here
  | mapped no =>
      simp only [here] at stepped
      cases stepped
      exact .record no here
  | recorded no fileNo =>
      simp only [here] at stepped
      cases stepped

/-! ## The counter -/

/-- The calls that have advanced the counter. -/
def MapRace.advances (s : MapRace n) : Finset (Fin n) :=
  Finset.univ.filter fun i => (s.pc i).isAdvanced = true

theorem MapRace.mem_advances : i ∈ s.advances ↔ (s.pc i).isAdvanced = true := by
  simp [MapRace.advances]

/-- The counter is past every number that was used, and no number is used twice. -/
structure Spaced (kind : Fin n → MapCall) (s : MapRace n) : Prop where
  growth : ∀ i value, (s.pc i).value? = some value →
    kind i = .pmempoolCreateOne ∧ value ≤ s.mmapFile
  below : ∀ i no, (s.pc i).number? = some no → no ≤ s.mmapFile ∧
    (kind i = .hugeMalloc → (s.pc i).isAdvanced = true → no < s.mmapFile)
  loads : ∀ i j value, (s.pc i).value? = some value → (s.pc j).value? = some value → i = j
  names : ∀ i j no, kind i = kind j → (s.pc i).number? = some no → (s.pc j).number? = some no →
    i = j
  reserved : ∀ i j value, (s.pc i).value? = some value → kind j = .pmempoolCreateOne →
    (s.pc j).number? ≠ some (value + 1)
  counter : s.mmapFile ≤ s.advances.card

/-- A call that has not advanced the counter leaves room for it. -/
theorem MapRace.advances_card_lt (behind : (s.pc i).isAdvanced = false) : s.advances.card < n := by
  have absent : i ∉ s.advances := by simp [MapRace.mem_advances, behind]
  simpa using Finset.card_lt_univ_of_notMem absent

/-- The call that advances the counter is counted. -/
theorem MapRace.advances_card_succ {pc : MapPc} (behind : (s.pc i).isAdvanced = false)
    (ahead : pc.isAdvanced = true) (moved : s'.pc = Function.update s.pc i pc) :
    s'.advances.card = s.advances.card + 1 := by
  have absent : i ∉ s.advances := by simp [MapRace.mem_advances, behind]
  rw [← Finset.card_insert_of_notMem absent]
  congr 1
  ext j
  rw [Finset.mem_insert, MapRace.mem_advances, MapRace.mem_advances, moved]
  by_cases same : j = i
  · simp [same, ahead]
  · simp [same]

/-- What is seen of a call stays, if what is seen of the one that moves does. -/
theorem MapRace.view_eq {α : Type} (view : MapPc → α) {pc : MapPc}
    (moved : s'.pc = Function.update s.pc i pc) (same : view pc = view (s.pc i)) (j : Fin n) :
    view (s'.pc j) = view (s.pc j) := by
  rw [moved]
  by_cases self : j = i
  · rw [self, Function.update_self, same]
  · rw [Function.update_of_ne self]

/-- What is seen of a call is seen of the place one moves to, or was seen before. -/
theorem MapRace.view_cases {α : Type} (view : MapPc → Option α) {pc : MapPc} {j : Fin n} {a : α}
    (moved : s'.pc = Function.update s.pc i pc) (here : view (s'.pc j) = some a) :
    (j = i ∧ view pc = some a) ∨ (j ≠ i ∧ view (s.pc j) = some a) := by
  rw [moved] at here
  by_cases self : j = i
  · rw [self, Function.update_self] at here
    exact .inl ⟨self, here⟩
  · rw [Function.update_of_ne self] at here
    exact .inr ⟨self, here⟩

theorem MapRace.advances_eq (advanced : ∀ j, (s'.pc j).isAdvanced = (s.pc j).isAdvanced) :
    s'.advances = s.advances := by
  ext j
  rw [MapRace.mem_advances, MapRace.mem_advances, advanced]

/-- A call that is with the counter as it was leaves the others alone. -/
theorem Spaced.congr {pc : MapPc} (spaced : Spaced kind s) (counter : s'.mmapFile = s.mmapFile)
    (moved : s'.pc = Function.update s.pc i pc) (value : pc.value? = (s.pc i).value?)
    (number : pc.number? = (s.pc i).number?) (ahead : pc.isAdvanced = (s.pc i).isAdvanced) :
    Spaced kind s' := by
  have values := MapRace.view_eq MapPc.value? moved value
  have numbers := MapRace.view_eq MapPc.number? moved number
  have advanced := MapRace.view_eq MapPc.isAdvanced moved ahead
  constructor
  case growth =>
    intro j value
    rw [values, counter]
    exact spaced.growth j value
  case below =>
    intro j no
    rw [numbers, counter, advanced]
    exact spaced.below j no
  case loads =>
    intro j k value
    rw [values, values]
    exact spaced.loads j k value
  case names =>
    intro j k no
    rw [numbers, numbers]
    exact spaced.names j k no
  case reserved =>
    intro j k value
    rw [values, numbers]
    exact spaced.reserved j k value
  case counter =>
    rw [counter, MapRace.advances_eq advanced]
    exact spaced.counter

/-- `huge_malloc` forms its path by a number no other call is about to use. -/
theorem Spaced.form (spaced : Spaced kind s) (start : s.pc i = .start) (huge : kind i = .hugeMalloc)
    (apart : ∀ j, kind j = .hugeMalloc → s.pc j ≠ .formed s.mmapFile) :
    Spaced kind (s.move i (.formed s.mmapFile)) := by
  have moved : (s.move i (.formed s.mmapFile)).pc = Function.update s.pc i _ := rfl
  have values := MapRace.view_eq MapPc.value? moved (by rw [start]; rfl)
  have advanced := MapRace.view_eq MapPc.isAdvanced moved (by rw [start]; rfl)
  have numbers : ∀ j no, ((s.move i (.formed s.mmapFile)).pc j).number? = some no →
      (j = i ∧ s.mmapFile = no) ∨ (j ≠ i ∧ (s.pc j).number? = some no) := by
    intro j no here
    exact (MapRace.view_cases MapPc.number? moved here).imp_left fun new =>
      ⟨new.1, Option.some.inj new.2⟩
  -- Every other number of a `huge_malloc` is below the counter.
  have taken : ∀ j, kind j = .hugeMalloc → (s.pc j).number? ≠ some s.mmapFile := by
    intro j isHuge here
    obtain ⟨_, lower⟩ := spaced.below j _ here
    cases at' : s.pc j with
    | formed no =>
        simp only [at', MapPc.number?, Option.some.injEq] at here
        exact apart j isHuge (here ▸ at')
    | start => simp [at', MapPc.number?] at here
    | loaded value => simp [at', MapPc.number?] at here
    | advanced no => exact absurd (lower isHuge (by simp [at', MapPc.isAdvanced])) (Nat.lt_irrefl _)
    | mapped no => exact absurd (lower isHuge (by simp [at', MapPc.isAdvanced])) (Nat.lt_irrefl _)
    | recorded no fileNo =>
        exact absurd (lower isHuge (by simp [at', MapPc.isAdvanced])) (Nat.lt_irrefl _)
  constructor
  case growth =>
    intro j value here
    rw [values] at here
    exact spaced.growth j value here
  case below =>
    intro j no here
    rw [advanced]
    rcases numbers j no here with ⟨rfl, rfl⟩ | ⟨_, old⟩
    · exact ⟨Nat.le_refl _, fun _ ahead => by simp [start, MapPc.isAdvanced] at ahead⟩
    · exact spaced.below j no old
  case loads =>
    intro j k value here there
    rw [values] at here there
    exact spaced.loads j k value here there
  case names =>
    intro j k no sameKind here there
    rcases numbers j no here with ⟨rfl, rfl⟩ | ⟨_, old⟩
    · rcases numbers k _ there with ⟨rfl, _⟩ | ⟨_, old'⟩
      · rfl
      · exact absurd old' (taken k (sameKind ▸ huge))
    · rcases numbers k no there with ⟨rfl, rfl⟩ | ⟨_, old'⟩
      · exact absurd old (taken j (sameKind.trans huge))
      · exact spaced.names j k no sameKind old old'
  case reserved =>
    intro j k value here isGrowth there
    rw [values] at here
    rcases numbers k _ there with ⟨rfl, _⟩ | ⟨_, old⟩
    · rw [huge] at isGrowth
      cases isGrowth
    · exact spaced.reserved j k value here isGrowth old
  case counter =>
    rw [MapRace.advances_eq advanced]
    exact spaced.counter

/-- `++mmap_file` reads a value no other call is about to store the successor of. -/
theorem Spaced.load (spaced : Spaced kind s) (start : s.pc i = .start)
    (growth : kind i = .pmempoolCreateOne) (apart : ∀ j, s.pc j ≠ .loaded s.mmapFile) :
    Spaced kind (s.move i (.loaded s.mmapFile)) := by
  have moved : (s.move i (.loaded s.mmapFile)).pc = Function.update s.pc i _ := rfl
  have numbers := MapRace.view_eq MapPc.number? moved (by rw [start]; rfl)
  have advanced := MapRace.view_eq MapPc.isAdvanced moved (by rw [start]; rfl)
  have values : ∀ j value, ((s.move i (.loaded s.mmapFile)).pc j).value? = some value →
      (j = i ∧ s.mmapFile = value) ∨
        (j ≠ i ∧ (s.pc j).value? = some value ∧ value ≠ s.mmapFile) := by
    intro j value here
    rcases MapRace.view_cases MapPc.value? moved here with ⟨self, new⟩ | ⟨other, here⟩
    · exact .inl ⟨self, Option.some.inj new⟩
    · refine .inr ⟨other, here, ?_⟩
      rintro rfl
      cases at' : s.pc j with
      | loaded other =>
          simp only [at', MapPc.value?, Option.some.injEq] at here
          exact apart j (here ▸ at')
      | _ => simp [at', MapPc.value?] at here
  constructor
  case growth =>
    intro j value here
    rcases values j value here with ⟨rfl, rfl⟩ | ⟨_, old, _⟩
    · exact ⟨growth, Nat.le_refl _⟩
    · exact spaced.growth j value old
  case below =>
    intro j no here
    rw [numbers] at here
    rw [advanced]
    exact spaced.below j no here
  case loads =>
    intro j k value here there
    rcases values j value here with ⟨rfl, rfl⟩ | ⟨_, old, other⟩
    · rcases values k _ there with ⟨rfl, _⟩ | ⟨_, _, other⟩
      · rfl
      · exact absurd rfl other
    · rcases values k value there with ⟨rfl, rfl⟩ | ⟨_, old', _⟩
      · exact absurd rfl other
      · exact spaced.loads j k value old old'
  case names =>
    intro j k no sameKind here there
    rw [numbers] at here there
    exact spaced.names j k no sameKind here there
  case reserved =>
    intro j k value here isGrowth there
    rw [numbers] at there
    rcases values j value here with ⟨rfl, rfl⟩ | ⟨_, old, _⟩
    · have low := (spaced.below k _ there).1
      omega
    · exact spaced.reserved j k value old isGrowth there
  case counter =>
    rw [MapRace.advances_eq advanced]
    exact spaced.counter

/-- A call that has not advanced the counter has the room to. -/
theorem Spaced.mmapFile_lt (spaced : Spaced kind s) (behind : (s.pc i).isAdvanced = false)
    (calls : n < 2 ^ 32) : s.mmapFile + 1 < 2 ^ 32 := by
  have few := MapRace.advances_card_lt behind
  have counter := spaced.counter
  omega

/-- `huge_malloc` advances the counter past its own number. -/
theorem Spaced.advance (spaced : Spaced kind s) (calls : n < 2 ^ 32) {no : Nat}
    (formed : s.pc i = .formed no) (moved : s'.pc = Function.update s.pc i (.advanced no))
    (counter : s'.mmapFile = (s.mmapFile + 1) % 2 ^ 32) : Spaced kind s' := by
  have behind : (s.pc i).isAdvanced = false := by rw [formed]; rfl
  rw [Nat.mod_eq_of_lt (spaced.mmapFile_lt behind calls)] at counter
  have values := MapRace.view_eq MapPc.value? moved (by rw [formed]; rfl)
  have numbers := MapRace.view_eq MapPc.number? moved (by rw [formed]; rfl)
  constructor
  case growth =>
    intro j value here
    rw [values] at here
    obtain ⟨isGrowth, low⟩ := spaced.growth j value here
    exact ⟨isGrowth, by omega⟩
  case below =>
    intro j other here
    rw [numbers] at here
    have low := (spaced.below j other here).1
    exact ⟨by omega, fun _ _ => by omega⟩
  case loads =>
    intro j k value here there
    rw [values] at here there
    exact spaced.loads j k value here there
  case names =>
    intro j k other sameKind here there
    rw [numbers] at here there
    exact spaced.names j k other sameKind here there
  case reserved =>
    intro j k value here isGrowth there
    rw [values] at here
    rw [numbers] at there
    exact spaced.reserved j k value here isGrowth there
  case counter =>
    rw [counter, MapRace.advances_card_succ behind rfl moved]
    exact Nat.succ_le_succ spaced.counter

/-- `++mmap_file` stores the number of its path, not behind the counter. -/
theorem Spaced.store (spaced : Spaced kind s) (calls : n < 2 ^ 32) {value : Nat}
    (loaded : s.pc i = .loaded value) (forward : s.mmapFile ≤ value + 1)
    (moved : s'.pc = Function.update s.pc i (.advanced ((value + 1) % 2 ^ 32)))
    (counter : s'.mmapFile = (value + 1) % 2 ^ 32) : Spaced kind s' := by
  have behind : (s.pc i).isAdvanced = false := by rw [loaded]; rfl
  have read : (s.pc i).value? = some value := by rw [loaded]; rfl
  obtain ⟨isGrowth, low⟩ := spaced.growth i value read
  have room := spaced.mmapFile_lt behind calls
  rw [Nat.mod_eq_of_lt (by omega : value + 1 < 2 ^ 32)] at counter moved
  have values : ∀ j other, (s'.pc j).value? = some other →
      (s.pc j).value? = some other ∧ other ≠ value := by
    intro j other here
    rcases MapRace.view_cases MapPc.value? moved here with ⟨_, new⟩ | ⟨same, here⟩
    · cases new
    · refine ⟨here, ?_⟩
      rintro rfl
      exact same (spaced.loads j i other here read)
  have numbers : ∀ j no, (s'.pc j).number? = some no →
      (j = i ∧ value + 1 = no) ∨ (j ≠ i ∧ (s.pc j).number? = some no) := by
    intro j no here
    exact (MapRace.view_cases MapPc.number? moved here).imp_left fun new =>
      ⟨new.1, Option.some.inj new.2⟩
  constructor
  case growth =>
    intro j other here
    obtain ⟨old, _⟩ := values j other here
    obtain ⟨isGrowth', low'⟩ := spaced.growth j other old
    exact ⟨isGrowth', by omega⟩
  case below =>
    intro j no here
    rcases numbers j no here with ⟨rfl, rfl⟩ | ⟨different, old⟩
    · refine ⟨Nat.le_of_eq counter.symm, fun huge => ?_⟩
      rw [isGrowth] at huge
      cases huge
    · obtain ⟨below, lower⟩ := spaced.below j no old
      refine ⟨by omega, fun huge ahead => ?_⟩
      rw [moved, Function.update_of_ne different] at ahead
      have less := lower huge ahead
      omega
  case loads =>
    intro j k other here there
    exact spaced.loads j k other (values j other here).1 (values k other there).1
  case names =>
    intro j k no sameKind here there
    rcases numbers j no here with ⟨rfl, rfl⟩ | ⟨_, old⟩
    · rcases numbers k _ there with ⟨rfl, _⟩ | ⟨_, old'⟩
      · rfl
      · exact absurd old' (spaced.reserved j k value read (sameKind ▸ isGrowth))
    · rcases numbers k no there with ⟨rfl, rfl⟩ | ⟨_, old'⟩
      · exact absurd old (spaced.reserved k j value read (sameKind.trans isGrowth))
      · exact spaced.names j k no sameKind old old'
  case reserved =>
    intro j k other here isGrowth' there
    obtain ⟨old, different⟩ := values j other here
    rcases numbers k _ there with ⟨rfl, same⟩ | ⟨_, old'⟩
    · exact different (Nat.succ.inj same).symm
    · exact spaced.reserved j k other old isGrowth' old'
  case counter =>
    rw [counter, MapRace.advances_card_succ behind rfl moved]
    have few := spaced.counter
    omega

/-! ## Runs -/

/-- What holds as long as every access keeps the names apart. -/
structure MapRace.Ok (kind : Fin n → MapCall) (s : MapRace n) : Prop where
  spaced : Spaced kind s
  files : s.files.Nodup
  owned : ∀ path ∈ s.files, ∃ i, s.path kind i = some path ∧ (s.pc i).isMapped = true
  unrecorded : ∀ i no fileNo, kind i = .hugeMalloc → s.pc i ≠ .recorded no fileNo

/-- Calls of different kinds form different paths, and of one kind by different numbers. -/
theorem MapRace.Ok.path_inj (ok : s.Ok kind) {j : Fin n} {path : PmemPath}
    (here : s.path kind i = some path) (there : s.path kind j = some path) : i = j := by
  obtain ⟨no, number, formed⟩ := Option.map_eq_some_iff.mp here
  obtain ⟨other, number', formed'⟩ := Option.map_eq_some_iff.mp there
  have same := formed.trans formed'.symm
  cases isKind : kind i with
  | hugeMalloc =>
      cases isKind' : kind j with
      | hugeMalloc =>
          simp only [isKind, isKind', MapCall.path, PmemPath.huge.injEq] at same
          exact ok.spaced.names i j no (isKind.trans isKind'.symm) number (same ▸ number')
      | pmempoolCreateOne => simp [isKind, isKind', MapCall.path] at same
  | pmempoolCreateOne =>
      cases isKind' : kind j with
      | hugeMalloc => simp [isKind, isKind', MapCall.path] at same
      | pmempoolCreateOne =>
          simp only [isKind, isKind', MapCall.path, PmemPath.lspmemfile.injEq] at same
          exact ok.spaced.names i j no (isKind.trans isKind'.symm) number (same ▸ number')

theorem MapRace.Ok.named (ok : s.Ok kind) : s.Named kind where
  paths _ _ _ here there := ok.path_inj here there
  files := ok.files
  fileNo i no fileNo huge here := absurd here (ok.unrecorded i no fileNo huge)

/-- A step of a call that maps nothing leaves the owners of the files. -/
theorem MapRace.Ok.of_spaced (ok : s.Ok kind) (spaced : Spaced kind s')
    (files : s'.files = s.files)
    (owned : ∀ j path, s.path kind j = some path → (s.pc j).isMapped = true →
      s'.path kind j = some path ∧ (s'.pc j).isMapped = true)
    (unrecorded : ∀ j no fileNo, kind j = .hugeMalloc → s'.pc j ≠ .recorded no fileNo) :
    s'.Ok kind := by
  refine ⟨spaced, files ▸ ok.files, ?_, unrecorded⟩
  intro path member
  obtain ⟨j, formed, mapped⟩ := ok.owned path (files ▸ member)
  exact ⟨j, owned j path formed mapped⟩

/-- A call before its mapping owns no file, and moves on without a record. -/
theorem MapRace.Ok.of_move (ok : s.Ok kind) (spaced : Spaced kind s') (files : s'.files = s.files)
    {pc : MapPc} (moved : s'.pc = Function.update s.pc i pc) (unmapped : (s.pc i).isMapped = false)
    (notRecord : pc.isMapped = false) : s'.Ok kind := by
  refine ok.of_spaced spaced files ?_ ?_
  · intro j path formed mapped
    have other : j ≠ i := by
      rintro rfl
      rw [unmapped] at mapped
      cases mapped
    unfold MapRace.path
    rw [moved, Function.update_of_ne other]
    exact ⟨formed, mapped⟩
  · intro j no fileNo huge here
    rw [moved] at here
    by_cases same : j = i
    · subst same
      rw [Function.update_self] at here
      rw [here] at notRecord
      cases notRecord
    · rw [Function.update_of_ne same] at here
      exact ok.unrecorded j no fileNo huge here

/-- Every access that keeps the names apart keeps the invariant. -/
theorem MapRace.Ok.step (ok : s.Ok kind) (calls : n < 2 ^ 32) (apart : s.Apart kind i)
    (stepped : s.step kind i = .ok s') : s'.Ok kind := by
  unfold MapRace.Apart at apart
  cases MapRace.step_cases stepped with
  | form start huge =>
      simp only [start, huge] at apart
      exact ok.of_move (ok.spaced.form start huge apart) rfl rfl (by rw [start]; rfl) rfl
  | load start growth =>
      simp only [start, growth] at apart
      exact ok.of_move (ok.spaced.load start growth apart) rfl rfl (by rw [start]; rfl) rfl
  | advance no formed =>
      exact ok.of_move (ok.spaced.advance calls formed rfl rfl) rfl rfl (by rw [formed]; rfl) rfl
  | store value loaded =>
      simp only [loaded] at apart
      exact ok.of_move (ok.spaced.store calls loaded apart rfl rfl) rfl rfl (by rw [loaded]; rfl) rfl
  | map no advanced =>
      have own : s.path kind i = some ((kind i).path no) := by
        simp [MapRace.path, advanced, MapPc.number?]
      have spaced : Spaced kind
          ({ s with files := (kind i).path no :: s.files }.move i (.mapped no)) := by
        refine Spaced.congr ok.spaced rfl rfl ?_ ?_ ?_
        all_goals rw [advanced]; rfl
      -- The call that owned the path already would be this one, which has mapped nothing.
      have fresh : (kind i).path no ∉ s.files := by
        intro member
        obtain ⟨j, formed, mapped⟩ := ok.owned _ member
        obtain rfl := ok.path_inj own formed
        rw [advanced] at mapped
        cases mapped
      refine ⟨spaced, List.nodup_cons.mpr ⟨fresh, ok.files⟩, ?_, ?_⟩
      · refine List.forall_mem_cons.mpr ⟨⟨i, ?_, ?_⟩, ?_⟩
        · simp [MapRace.path, MapPc.number?]
        · simp [MapPc.isMapped]
        · intro path member
          obtain ⟨j, formed, mapped⟩ := ok.owned path member
          have other : j ≠ i := by
            rintro rfl
            rw [advanced] at mapped
            cases mapped
          refine ⟨j, ?_, ?_⟩
          · simpa [MapRace.path, other] using formed
          · simpa [other] using mapped
      · intro j other fileNo huge
        by_cases same : j = i
        · simp [same]
        · simpa [same] using ok.unrecorded j other fileNo huge
  | record no mapped =>
      simp only [mapped] at apart
      have spaced : Spaced kind (s.move i (.recorded no s.mmapFile)) := by
        refine Spaced.congr ok.spaced rfl rfl ?_ ?_ ?_
        all_goals rw [mapped]; rfl
      refine ok.of_spaced spaced rfl ?_ ?_
      · intro j path formed isMapped
        by_cases same : j = i
        · subst same
          simpa [MapRace.path, mapped, MapPc.number?, MapPc.isMapped] using formed
        · simpa [MapRace.path, same] using And.intro formed isMapped
      · intro j other fileNo huge
        by_cases same : j = i
        · subst same
          exact absurd huge apart
        · simpa [same] using ok.unrecorded j other fileNo huge

/-- A `huge_malloc` that forms a number in use, or records its `file_no`, breaks the names. -/
theorem MapRace.Ok.not_named (ok : s.Ok kind) (huge : kind i = .hugeMalloc)
    (rejected : ¬ s.Apart kind i) (stepped : s.step kind i = .ok s') : ¬ s'.Named kind := by
  unfold MapRace.Apart at rejected
  intro named
  cases MapRace.step_cases stepped with
  | form start _ =>
      simp only [start, huge, not_forall, not_not] at rejected
      obtain ⟨j, isHuge, formed⟩ := rejected
      have other : j ≠ i := by
        rintro rfl
        rw [start] at formed
        cases formed
      refine other (named.paths j i (.huge s.mmapFile) ?_ ?_)
      · simp [MapRace.path, other, formed, isHuge, MapPc.number?, MapCall.path]
      · simp [MapRace.path, huge, MapPc.number?, MapCall.path]
  | load start growth =>
      rw [huge] at growth
      cases growth
  | advance no formed => simp [formed] at rejected
  | store value loaded =>
      have growth := (ok.spaced.growth i value (by rw [loaded]; rfl)).1
      rw [huge] at growth
      cases growth
  | map no advanced => simp [advanced] at rejected
  | record no mapped =>
      have here := named.fileNo i no s.mmapFile huge (by simp)
      have low := (ok.spaced.below i no (by rw [mapped]; rfl)).2 huge (by rw [mapped]; rfl)
      omega

/-- **Names that stay apart.** Of fewer than `2 ^ 32` concurrent calls, from the program's start
on and as long as every access keeps the names apart, no two form the same path and no file is
mapped twice. A `huge_malloc` that forms a number in use breaks this at once, and each one that
records its `file_no` does. -/
theorem mapRace_named (kind : Fin n → MapCall) (calls : n < 2 ^ 32) {ops : List (Fin n)}
    (apart : Execution.Meets (MapRace.step kind) (MapRace.Apart kind) (.loaded n) ops)
    (reached : Execution.run (MapRace.step kind) (.loaded n) ops = .ok s) :
    s.Named kind ∧ ∀ i s', kind i = .hugeMalloc → s.step kind i = .ok s' →
      (s'.Named kind ↔ s.Apart kind i) := by
  have start : (MapRace.loaded n).Ok kind := by
    refine ⟨⟨?_, ?_, ?_, ?_, ?_, ?_⟩, ?_, ?_, ?_⟩ <;>
      simp [MapRace.loaded, MapPc.value?, MapPc.number?]
  have ok : s.Ok kind := Execution.run_invariant_of_meets
    (fun _ _ _ ok apart stepped => ok.step calls apart stepped) start apart reached
  refine ⟨ok.named, fun i s' huge stepped => ⟨fun named => ?_, fun apart => ?_⟩⟩
  · by_contra rejected
    exact ok.not_named huge rejected stepped named
  · exact (ok.step calls apart stepped).named

/-- A `huge_malloc` beside a growing pool. -/
def MapCall.both : Fin 2 → MapCall
  | 0 => .hugeMalloc
  | 1 => .pmempoolCreateOne

/-- Both at the same time, the `huge_malloc` up to its mapping. -/
theorem mapRace_named_of_both :
    ∃ s, Execution.run (MapRace.step MapCall.both) (.loaded 2) [0, 1, 0, 1, 0, 1, 1] = .ok s ∧
      s.Named MapCall.both ∧ ∀ i s', MapCall.both i = .hugeMalloc →
        s.step MapCall.both i = .ok s' → (s'.Named MapCall.both ↔ s.Apart MapCall.both i) := by
  obtain ⟨s, reached⟩ : ∃ s, Execution.run (MapRace.step MapCall.both) (.loaded 2)
      [0, 1, 0, 1, 0, 1, 1] = .ok s := Execution.exists_eq_ok (by decide +kernel)
  exact ⟨s, reached, mapRace_named _ (by decide) (by decide +kernel) reached⟩

/-- Two `huge_malloc` calls form the path `"/mnt/pmem/0"`, and one that runs alone records `1`
for it. -/
theorem not_mapRace_named :
    (∃ s, Execution.run (MapRace.step fun _ => .hugeMalloc) (.loaded 2) [0, 1, 0, 1, 0, 1] = .ok s ∧
      s.files = [.huge 0, .huge 0] ∧ ¬ s.Named fun _ => .hugeMalloc) ∧
    ∃ s, Execution.run (MapRace.step fun _ => .hugeMalloc) (.loaded 1) [0, 0, 0, 0] = .ok s ∧
      s.files = [.huge 0] ∧ s.pc 0 = .recorded 0 1 ∧ ¬ s.Named fun _ => .hugeMalloc := by
  constructor
  · obtain ⟨s, reached, files⟩ : ∃ s, Execution.run (MapRace.step fun _ => .hugeMalloc) (.loaded 2)
        [0, 1, 0, 1, 0, 1] = .ok s ∧ s.files = [.huge 0, .huge 0] :=
      Execution.exists_eq_ok_and (by decide +kernel)
    refine ⟨s, reached, files, fun named => ?_⟩
    have distinct := named.files
    rw [files] at distinct
    simp at distinct
  · obtain ⟨s, reached, files, recorded⟩ : ∃ s, Execution.run (MapRace.step fun _ => .hugeMalloc)
        (.loaded 1) [0, 0, 0, 0] = .ok s ∧ s.files = [.huge 0] ∧ s.pc 0 = .recorded 0 1 :=
      Execution.exists_eq_ok_and (by decide +kernel)
    refine ⟨s, reached, files, recorded, fun named => ?_⟩
    have same := named.fileNo 0 0 1 rfl recorded
    cases same

end Lsmalloc
