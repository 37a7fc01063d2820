import Lsmalloc.Support.Simulation
import Lsmalloc.Rb.Iterate

/-!
# Runs of a red-black tree

Insertions and removals in any order from `rb_new`, beside what they do to a sorted list. The tree
in memory refines the list: a call returns where the list operation does, and faults as it does.
-/

namespace Lsmalloc

open RedBlack

variable {cmp : NodeAddr → NodeAddr → Ordering}

/-- The calls that change a tree. -/
inductive RbOp
  | insert (node : NodeAddr)
  | remove (node : NodeAddr)
deriving DecidableEq

/-- One call on the tree in memory. -/
def RbTree.step (cmp : NodeAddr → NodeAddr → Ordering) (t : RbTree) : RbOp → Except Fault RbTree
  | .insert node => rbInsert cmp t node
  | .remove node => rbRemove cmp t node

/-- What the call is for: a sorted list takes a node that is equal to none in, or one of its nodes
out. Of the asserted conditions the first that fails names the fault. -/
def rbListStep (cmp : NodeAddr → NodeAddr → Ordering) (keys : List NodeAddr) :
    RbOp → Except Fault (List NodeAddr)
  | .insert node =>
      if ∃ other ∈ keys, cmp node other = .eq then .error .abort
      else .ok (keys.orderedInsert (fun a b => cmp a b ≠ .gt) node)
  | .remove node =>
      if node ∈ keys then .ok (keys.erase node)
      else .error (if ∃ other ∈ keys, cmp node other = .eq then .abort else .null)

/-- The node of a call is not the sentinel of the tree. -/
def RbOp.Proper (nil : NodeAddr) : RbOp → Prop
  | .insert node => node ≠ nil
  | .remove _ => True

instance RbOp.decidableProper (nil : NodeAddr) (op : RbOp) : Decidable (op.Proper nil) := by
  unfold RbOp.Proper
  split <;> infer_instance

namespace RbTree

variable [Std.TransCmp cmp] {t t' : RbTree} {keys : List NodeAddr} {op : RbOp}
  {ops : List RbOp}

/-- The tree in memory stands for the list, and has the sentinel it had. -/
def Stands (cmp : NodeAddr → NodeAddr → Ordering) (nil : NodeAddr) (t : RbTree)
    (keys : List NodeAddr) : Prop :=
  Represents cmp t keys ∧ t.rbtNil = nil

/-- One call does what the list operation does. -/
theorem step_follows (holds : Represents cmp t keys) (proper : op.Proper t.rbtNil) :
    Execution.Follows (Stands cmp t.rbtNil) (t.step cmp op) (rbListStep cmp keys op) := by
  cases op with
  | insert node =>
      by_cases equal : ∃ other ∈ keys, cmp node other = .eq
      · obtain ⟨other, mem, same⟩ := equal
        have aborts : rbInsert cmp t node = .error .abort := holds.rejects mem same
        rw [step, rbListStep, if_pos ⟨other, mem, same⟩, aborts]
        exact .error _
      · have new : ∀ key ∈ keys, cmp node key ≠ .eq := fun key mem same => equal ⟨key, mem, same⟩
        obtain ⟨t', inserted, represents, outside⟩ := holds.inserts proper new
        rw [step, rbListStep, if_neg equal, inserted]
        exact .ok ⟨represents, outside.nil⟩
  | remove node =>
      by_cases mem : node ∈ keys
      · obtain ⟨t', removed, represents, outside⟩ := holds.removes mem
        rw [step, rbListStep, if_pos mem, removed]
        exact .ok ⟨represents, outside.nil⟩
      · rw [step, rbListStep, if_neg mem, holds.misses mem]
        exact .error _

/-- Insertions and removals in any order, from an empty tree, do what they do to a sorted list. -/
theorem rbRun_refines (t : RbTree) (proper : ∀ op ∈ ops, op.Proper t.rbtNil) :
    Execution.Follows (Stands cmp t.rbtNil) (Execution.run (step cmp) t.rbNew ops)
      (Execution.run (rbListStep cmp) [] ops) := by
  have booted : Stands cmp t.rbtNil t.rbNew [] := ⟨represents_rbNew cmp t, by simp [rbNew]⟩
  have simulated : ∀ t' keys op, Stands cmp t.rbtNil t' keys → op.Proper t.rbtNil →
      Execution.Follows (Stands cmp t.rbtNil) (t'.step cmp op) (rbListStep cmp keys (id op)) := by
    intro t' keys op holds here
    obtain ⟨represents, same⟩ := holds
    rw [← same] at here ⊢
    exact step_follows represents here
  have follows := Execution.run_follows id simulated booted
    (Execution.meets_of_forall proper t.rbNew)
  rwa [List.map_id] at follows

/-- A tree of zero bytes whose sentinel is at the address `8`. -/
def zeroed : RbTree := ⟨.ofWord 0, .ofWord 8, fun _ => ⟨.ofWord 0, 0⟩⟩

/-- Nodes compare by their addresses. -/
def byAddr : NodeAddr → NodeAddr → Ordering := compareOn fun node => node.addr.toNat

instance : Std.TransCmp byAddr := inferInstanceAs (Std.TransCmp (compareOn _))

/-- Three nodes go in, and the one in the middle, which is the root, goes out. -/
def threeNodes : List RbOp :=
  [.insert (.ofWord 32), .insert (.ofWord 16), .insert (.ofWord 48), .remove (.ofWord 32)]

theorem rbRun_refines_of_threeNodes :
    ∃ t', Execution.run (step byAddr) zeroed.rbNew threeNodes = .ok t' ∧
      Represents byAddr t' [.ofWord 16, .ofWord 48] := by
  obtain ⟨t', reached⟩ := Execution.exists_eq_ok
    (show (Execution.run (step byAddr) zeroed.rbNew threeNodes).isOk = true by decide +kernel)
  obtain ⟨keys, onList, holds⟩ := (rbRun_refines zeroed (by decide)).exists_ok reached
  have final : Execution.run (rbListStep byAddr) [] threeNodes = .ok [.ofWord 16, .ofWord 48] := by
    rfl
  cases final.symm.trans onList
  exact ⟨t', reached, holds.1⟩

/-- The list of nodes at the end of a run. -/
theorem represents_of_run (proper : ∀ op ∈ ops, op.Proper t.rbtNil)
    (completed : Execution.run (step cmp) t.rbNew ops = .ok t') :
    ∃ keys, Execution.run (rbListStep cmp) [] ops = .ok keys ∧ Represents cmp t' keys := by
  obtain ⟨keys, onList, represents, _⟩ := (rbRun_refines t proper).exists_ok completed
  exact ⟨keys, onList, represents⟩

omit [Std.TransCmp cmp] in
/-- No list operation ends with a stray pointer. -/
theorem rbListRun_tame (keys : List NodeAddr) (ops : List RbOp) :
    Execution.FailsOnly (fun fault => fault ≠ .wild) (Execution.run (rbListStep cmp) keys ops) := by
  have tame : ∀ keys op,
      Execution.FailsOnly (fun fault => fault ≠ .wild) (rbListStep cmp keys op) := by
    intro keys op fault failed wild
    subst wild
    cases op with
    | insert node =>
        rw [rbListStep] at failed
        split at failed <;> cases failed
    | remove node =>
        rw [rbListStep] at failed
        split at failed
        case isTrue => cases failed
        case isFalse => split at failed <;> cases failed
  induction ops generalizing keys with
  | nil => exact Execution.failsOnly_ok keys
  | cons op ops ih => exact (tame keys op).bind fun keys' _ => ih keys'

/-- No run stores behind a `path` array, and every tree a run makes is balanced: its depth is at
most twice the logarithm of the number of its nodes. -/
theorem rbRun_shallow (proper : ∀ op ∈ ops, op.Proper t.rbtNil) :
    Execution.run (step cmp) t.rbNew ops ≠ .error .wild ∧
      ∀ t', Execution.run (step cmp) t.rbNew ops = .ok t' →
        ∃ tree, Shows t' tree t'.rbtRoot ∧ tree.depth < pathLength ∧
          tree.depth ≤ 2 * Nat.log 2 (tree.toList.length + 1) := by
  constructor
  case left =>
    intro wild
    have refines : Execution.Follows (Stands cmp t.rbtNil) _ _ := rbRun_refines t proper
    exact rbListRun_tame [] ops _ (refines.error_eq wild) rfl
  case right =>
    intro t' completed
    obtain ⟨keys, _, _, sorted, tree, height, shown, balanced, rfl⟩ :=
      represents_of_run proper completed
    refine ⟨tree, shown, ?_, balanced.depth_le_log⟩
    have deep := shown.depth_lt balanced sorted.nodup
    simp only [pathLength] at deep ⊢
    omega

theorem rbRun_shallow_of_threeNodes :
    Execution.run (step byAddr) zeroed.rbNew threeNodes ≠ .error .wild ∧
      ∀ t', Execution.run (step byAddr) zeroed.rbNew threeNodes = .ok t' →
        ∃ tree, Shows t' tree t'.rbtRoot ∧ tree.depth < pathLength ∧
          tree.depth ≤ 2 * Nat.log 2 (tree.toList.length + 1) :=
  rbRun_shallow (by decide)

variable {fuel : Nat}

/-- At the end of a run the searches find what a search of the sorted list does, in as many steps as
the tree is deep. -/
theorem rbRun_searches (proper : ∀ op ∈ ops, op.Proper t.rbtNil)
    (completed : Execution.run (step cmp) t.rbNew ops = .ok t') :
    ∃ keys, Execution.run (rbListStep cmp) [] ops = .ok keys ∧
      ∀ key fuel, 2 * Nat.log 2 (keys.length + 1) < fuel →
        rbSearch cmp fuel t' key = .ok (keys.find? fun node => cmp key node = .eq) ∧
          rbNsearch cmp fuel t' key = .ok (keys.find? fun node => cmp key node ≠ .gt) ∧
            rbPsearch cmp fuel t' key =
              .ok (keys.reverse.find? fun node => cmp key node ≠ .lt) := by
  obtain ⟨keys, onList, holds⟩ := represents_of_run proper completed
  exact ⟨keys, onList, fun key fuel enough => ⟨holds.searches enough,
    holds.searches_near enough .left, holds.searches_near enough .right⟩⟩

theorem rbRun_searches_of_threeNodes :
    ∃ t', Execution.run (step byAddr) zeroed.rbNew threeNodes = .ok t' ∧
      rbSearch byAddr 3 t' (.ofWord 32) = .ok none ∧
        rbNsearch byAddr 3 t' (.ofWord 32) = .ok (some (.ofWord 48)) ∧
          rbPsearch byAddr 3 t' (.ofWord 32) = .ok (some (.ofWord 16)) := by
  obtain ⟨t', reached⟩ := Execution.exists_eq_ok
    (show (Execution.run (step byAddr) zeroed.rbNew threeNodes).isOk = true by decide +kernel)
  obtain ⟨keys, onList, finds⟩ := rbRun_searches (by decide) reached
  obtain rfl : [.ofWord 16, .ofWord 48] = keys := Except.ok.inj onList
  exact ⟨t', reached, finds (.ofWord 32) 3 (by decide)⟩

/-- At the end of a run the neighbours of a node are those in the sorted list. -/
theorem rbRun_neighbours (proper : ∀ op ∈ ops, op.Proper t.rbtNil)
    (completed : Execution.run (step cmp) t.rbNew ops = .ok t') :
    ∃ keys, Execution.run (rbListStep cmp) [] ops = .ok keys ∧
      ∀ fuel, 2 * Nat.log 2 (keys.length + 1) < fuel →
        rbFirst fuel t' = .ok keys.head? ∧ rbLast fuel t' = .ok keys.getLast? ∧
          ∀ before node after, keys = before ++ node :: after →
            rbNext cmp fuel t' node = .ok after.head? ∧
              rbPrev cmp fuel t' node = .ok before.getLast? := by
  obtain ⟨keys, onList, holds⟩ := represents_of_run proper completed
  refine ⟨keys, onList, fun fuel enough => ⟨holds.edges enough .left, ?_, ?_⟩⟩
  · rw [← List.head?_reverse]
    exact holds.edges enough .right
  · intro before node after split
    constructor
    case left => exact holds.steps .left enough split
    case right =>
      have backward : Side.right.list keys = after.reverse ++ node :: before.reverse := by
        simp [Side.list, split]
      rw [← List.head?_reverse]
      exact holds.steps .right enough backward

theorem rbRun_neighbours_of_threeNodes :
    ∃ t', Execution.run (step byAddr) zeroed.rbNew threeNodes = .ok t' ∧
      rbFirst 3 t' = .ok (some (.ofWord 16)) ∧ rbLast 3 t' = .ok (some (.ofWord 48)) ∧
        rbNext byAddr 3 t' (.ofWord 16) = .ok (some (.ofWord 48)) ∧
          rbPrev byAddr 3 t' (.ofWord 16) = .ok none := by
  obtain ⟨t', reached⟩ := Execution.exists_eq_ok
    (show (Execution.run (step byAddr) zeroed.rbNew threeNodes).isOk = true by decide +kernel)
  obtain ⟨keys, onList, finds⟩ := rbRun_neighbours (by decide) reached
  obtain rfl : [.ofWord 16, .ofWord 48] = keys := Except.ok.inj onList
  obtain ⟨first, last, around⟩ := finds 3 (by decide)
  exact ⟨t', reached, first, last, around [] (.ofWord 16) [.ofWord 48] rfl⟩

/-- At the end of a run the iterators call back for the nodes of the sorted list in turn, from an
end or from a node on, until a callback returns one. -/
theorem rbRun_iterates {σ : Type} {cb : σ → NodeAddr → Option NodeAddr × σ}
    (proper : ∀ op ∈ ops, op.Proper t.rbtNil)
    (completed : Execution.run (step cmp) t.rbNew ops = .ok t')
    (called : ∀ s node, (cb s node).1 ≠ some t'.rbtNil) :
    ∃ keys, Execution.run (rbListStep cmp) [] ops = .ok keys ∧
      ∀ fuel s, 2 * Nat.log 2 (keys.length + 1) < fuel →
        rbIter cb cmp fuel t' none s = .ok (visit cb keys s) ∧
          rbReverseIter cb cmp fuel t' none s = .ok (visit cb keys.reverse s) ∧
            ∀ before start after, keys = before ++ start :: after →
              rbIter cb cmp fuel t' (some start) s = .ok (visit cb (start :: after) s) ∧
                rbReverseIter cb cmp fuel t' (some start) s =
                  .ok (visit cb (start :: before.reverse) s) := by
  obtain ⟨keys, onList, holds⟩ := represents_of_run proper completed
  refine ⟨keys, onList, fun fuel s enough => ?_⟩
  have forward := holds.iterates called enough .left s
  have backward := holds.iterates called enough .right s
  refine ⟨forward.1, backward.1, fun before start after split => ?_⟩
  constructor
  case left => exact forward.2 before start after split
  case right => exact backward.2 after.reverse start before.reverse (by simp [Side.list, split])

/-- A callback that notes the nodes. -/
def note (s : List NodeAddr) (node : NodeAddr) : Option NodeAddr × List NodeAddr :=
  (none, node :: s)

theorem rbRun_iterates_of_threeNodes :
    ∃ t', Execution.run (step byAddr) zeroed.rbNew threeNodes = .ok t' ∧
      rbIter note byAddr 3 t' none [] =
          .ok (none, [.ofWord 48, .ofWord 16]) ∧
        rbReverseIter note byAddr 3 t' (some (.ofWord 16)) [] =
          .ok (none, [.ofWord 16]) := by
  obtain ⟨t', reached⟩ := Execution.exists_eq_ok
    (show (Execution.run (step byAddr) zeroed.rbNew threeNodes).isOk = true by decide +kernel)
  have silent : ∀ s node, (note s node).1 ≠ some t'.rbtNil := by simp [note]
  obtain ⟨keys, onList, visits⟩ := rbRun_iterates (by decide) reached silent
  obtain rfl : [.ofWord 16, .ofWord 48] = keys := Except.ok.inj onList
  obtain ⟨forward, _, from_⟩ := visits 3 [] (by decide)
  exact ⟨t', reached, forward, (from_ [] (.ofWord 16) [.ofWord 48] rfl).2⟩

end RbTree

end Lsmalloc
