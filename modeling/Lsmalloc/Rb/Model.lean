import Mathlib.Logic.Function.Basic
import Lsmalloc.World

/-!
# The red-black trees of `rb.h`

What `rb_gen` makes of the macros with `RB_COMPACT`: nodes live in memory, the colour of a node is
the lowest bit of its right link, and there are no links to parents, so insertion and removal
remember their way down in an array `path`. Every function here does the stores of the
source in their order. The comparison of two nodes is a parameter.
-/

namespace Lsmalloc

/-! ## Links -/

/-- A pointer to a node. Nodes are aligned, so its lowest bit is free. -/
structure NodeAddr where
  addr : BitVec 64
  aligned : addr &&& 1#64 = 0#64
deriving DecidableEq

/-- The pointer that is left of a word without its lowest bit. -/
def NodeAddr.ofWord (word : BitVec 64) : NodeAddr where
  addr := word &&& -2#64
  aligned := by rw [BitVec.and_assoc]; exact BitVec.and_zero

/-- `rb_node`. -/
structure RbNode where
  rbnLeft : NodeAddr
  /-- The right link and, in the lowest bit, the colour. -/
  rbnRightRed : BitVec 64
deriving DecidableEq

/-- `rb_tree` and the links of all nodes, those of `rbt_nil` included. -/
structure RbTree where
  rbtRoot : NodeAddr
  /-- `&rbtree->rbt_nil`. -/
  rbtNil : NodeAddr
  links : NodeAddr → RbNode

namespace RbTree

/-- A store to the links of one node. -/
def store (t : RbTree) (node : NodeAddr) (links : RbNode) : RbTree :=
  { t with links := Function.update t.links node links }

def rbtnLeftGet (t : RbTree) (node : NodeAddr) : NodeAddr := (t.links node).rbnLeft

def rbtnLeftSet (t : RbTree) (node left : NodeAddr) : RbTree :=
  t.store node { t.links node with rbnLeft := left }

def rbtnRightGet (t : RbTree) (node : NodeAddr) : NodeAddr := .ofWord (t.links node).rbnRightRed

def rbtnRightSet (t : RbTree) (node right : NodeAddr) : RbTree :=
  t.store node
    { t.links node with rbnRightRed := right.addr ||| ((t.links node).rbnRightRed &&& 1#64) }

def rbtnRedGet (t : RbTree) (node : NodeAddr) : Bool := (t.links node).rbnRightRed &&& 1#64 != 0#64

def rbtnColorSet (t : RbTree) (node : NodeAddr) (red : Bool) : RbTree :=
  t.store node
    { t.links node with
      rbnRightRed := ((t.links node).rbnRightRed &&& -2#64) ||| if red then 1#64 else 0#64 }

def rbtnRedSet (t : RbTree) (node : NodeAddr) : RbTree :=
  t.store node { t.links node with rbnRightRed := (t.links node).rbnRightRed ||| 1#64 }

def rbtnBlackSet (t : RbTree) (node : NodeAddr) : RbTree :=
  t.store node { t.links node with rbnRightRed := (t.links node).rbnRightRed &&& -2#64 }

/-- `rbtree->rbt_root = node`. -/
def rootSet (t : RbTree) (node : NodeAddr) : RbTree := { t with rbtRoot := node }

/-! ## Nodes and rotations -/

/-- `rbt_node_new`. -/
def rbtNodeNew (t : RbTree) (node : NodeAddr) : RbTree :=
  let t := t.rbtnLeftSet node t.rbtNil
  let t := t.rbtnRightSet node t.rbtNil
  t.rbtnRedSet node

/-- `rb_new`. -/
def rbNew (t : RbTree) : RbTree :=
  let t := t.rootSet t.rbtNil
  let t := t.rbtNodeNew t.rbtNil
  t.rbtnBlackSet t.rbtNil

/-- `rbtn_rotate_left`, with `r_node`. -/
def rbtnRotateLeft (t : RbTree) (node : NodeAddr) : RbTree × NodeAddr :=
  let rNode := t.rbtnRightGet node
  let t := t.rbtnRightSet node (t.rbtnLeftGet rNode)
  let t := t.rbtnLeftSet rNode node
  (t, rNode)

/-- `rbtn_rotate_right`, with `r_node`. -/
def rbtnRotateRight (t : RbTree) (node : NodeAddr) : RbTree × NodeAddr :=
  let rNode := t.rbtnLeftGet node
  let t := t.rbtnLeftSet node (t.rbtnRightGet rNode)
  let t := t.rbtnRightSet rNode node
  (t, rNode)

/-! ## Paths -/

/-- An entry of `path`: a node and how the key compared with it. -/
structure PathEntry where
  node : NodeAddr
  cmp : Ordering
deriving DecidableEq

/-- The entries of `path`, `sizeof(void *) << 4` of them. -/
def pathLength : Nat := 8 <<< 4

/-- Stores a subtree's root where it hangs: in the node of `pathp[-1]`, or, where `pathp` is
`path`, in the root. The list holds the entries below `pathp`, the last one first. -/
def setBelow (t : RbTree) (path : List PathEntry) (node : NodeAddr) : RbTree :=
  match path with
  | [] => t.rootSet node
  | above :: _ =>
      if above.cmp = .lt then t.rbtnLeftSet above.node node else t.rbtnRightSet above.node node

/-! ## Insertion -/

/-- The way down of `insert`, with the entries that are left behind `pathp`. A store behind the
array is wild. -/
def insertWind (cmp : NodeAddr → NodeAddr → Ordering) (t : RbTree) (node : NodeAddr) :
    (room : Nat) → (pathp : NodeAddr) → List PathEntry → Except Fault (List PathEntry)
  | room, pathp, path =>
      if pathp = t.rbtNil then .ok path
      else
        match cmp node pathp, room with
        | .eq, _ => .error .abort
        | _, 0 => .error .wild
        | .lt, room + 1 => insertWind cmp t node room (t.rbtnLeftGet pathp) (⟨pathp, .lt⟩ :: path)
        | .gt, room + 1 => insertWind cmp t node room (t.rbtnRightGet pathp) (⟨pathp, .gt⟩ :: path)

/-- One step back up of `insert` from the left, with `pathp->node` as `cnode`: the node that takes
its place, unless the function returns. -/
def insertFixLeft (t : RbTree) (cnode left : NodeAddr) : RbTree × Option NodeAddr :=
  let t := t.rbtnLeftSet cnode left
  if t.rbtnRedGet left then
    let leftleft := t.rbtnLeftGet left
    if t.rbtnRedGet leftleft then
      -- Fix up 4-node.
      let t := t.rbtnBlackSet leftleft
      let (t, tnode) := t.rbtnRotateRight cnode
      (t, some tnode)
    else (t, some cnode)
  else (t, none)

/-- One step back up of `insert` from the right. -/
def insertFixRight (t : RbTree) (cnode right : NodeAddr) : RbTree × Option NodeAddr :=
  let t := t.rbtnRightSet cnode right
  if t.rbtnRedGet right then
    let left := t.rbtnLeftGet cnode
    if t.rbtnRedGet left then
      -- Split 4-node.
      let t := t.rbtnBlackSet left
      let t := t.rbtnBlackSet right
      let t := t.rbtnRedSet cnode
      (t, some cnode)
    else
      -- Lean left.
      let tred := t.rbtnRedGet cnode
      let (t, tnode) := t.rbtnRotateLeft cnode
      let t := t.rbtnColorSet tnode tred
      let t := t.rbtnRedSet cnode
      (t, some tnode)
  else (t, none)

/-- The way back up of `insert`, with the node of `pathp[1]`. -/
def insertUnwind : RbTree → List PathEntry → NodeAddr → RbTree
  | t, [], node =>
      let t := t.rootSet node
      t.rbtnBlackSet t.rbtRoot
  | t, pathp :: path, child =>
      match
        if pathp.cmp = .lt then t.insertFixLeft pathp.node child
        else t.insertFixRight pathp.node child
      with
      | (t, some node) => insertUnwind t path node
      | (t, none) => t

/-- `insert` of `rb_gen`. -/
def rbInsert (cmp : NodeAddr → NodeAddr → Ordering) (t : RbTree) (node : NodeAddr) :
    Except Fault RbTree := do
  let t := t.rbtNodeNew node
  let path ← insertWind cmp t node (pathLength - 1) t.rbtRoot []
  .ok (t.insertUnwind path node)

/-! ## Removal -/

/-- The way of `remove` from the right child of the node to the nil left of its successor. -/
def successorWind (t : RbTree) :
    (room : Nat) → (pathp : NodeAddr) → List PathEntry → Except Fault (List PathEntry)
  | room, pathp, path =>
      if pathp = t.rbtNil then .ok path
      else
        match room with
        | 0 => .error .wild
        | room + 1 => successorWind t room (t.rbtnLeftGet pathp) (⟨pathp, .lt⟩ :: path)

/-- The way down of `remove`: `nodep->node`, the entries below `nodep`, and those above it. Without
a node that is equal `nodep` stays `NULL`, and the assertion after the loop follows it. -/
def removeWind (cmp : NodeAddr → NodeAddr → Ordering) (t : RbTree) (node : NodeAddr) :
    (room : Nat) → (pathp : NodeAddr) → List PathEntry →
      Except Fault (NodeAddr × List PathEntry × List PathEntry)
  | room, pathp, path =>
      if pathp = t.rbtNil then .error .null
      else
        match cmp node pathp, room with
        | _, 0 => .error .wild
        | .lt, room + 1 => removeWind cmp t node room (t.rbtnLeftGet pathp) (⟨pathp, .lt⟩ :: path)
        | .gt, room + 1 => removeWind cmp t node room (t.rbtnRightGet pathp) (⟨pathp, .gt⟩ :: path)
        | .eq, room + 1 => do
            let behind ← successorWind t room (t.rbtnRightGet pathp) []
            .ok (pathp, path, behind)

/-- One step back up of `remove` from the left, with `pathp->node` as `cnode`: the node that takes
its place, unless the function returns. -/
def removeFixLeft (t : RbTree) (cnode : NodeAddr) (path : List PathEntry) (child : NodeAddr) :
    Except Fault (RbTree × Option NodeAddr) :=
  let t := t.rbtnLeftSet cnode child
  if t.rbtnRedGet child then .error .abort
  else if t.rbtnRedGet cnode then
    let right := t.rbtnRightGet cnode
    let rightleft := t.rbtnLeftGet right
    let (t, tnode) :=
      if t.rbtnRedGet rightleft then
        let t := t.rbtnBlackSet cnode
        let (t, tnode) := t.rbtnRotateRight right
        let t := t.rbtnRightSet cnode tnode
        t.rbtnRotateLeft cnode
      else t.rbtnRotateLeft cnode
    if path = [] then .error .abort else .ok (t.setBelow path tnode, none)
  else
    let right := t.rbtnRightGet cnode
    let rightleft := t.rbtnLeftGet right
    if t.rbtnRedGet rightleft then
      let t := t.rbtnBlackSet rightleft
      let (t, tnode) := t.rbtnRotateRight right
      let t := t.rbtnRightSet cnode tnode
      let (t, tnode) := t.rbtnRotateLeft cnode
      .ok (t.setBelow path tnode, none)
    else
      let t := t.rbtnRedSet cnode
      let (t, tnode) := t.rbtnRotateLeft cnode
      .ok (t, some tnode)

/-- One step back up of `remove` from the right. -/
def removeFixRight (t : RbTree) (cnode : NodeAddr) (path : List PathEntry) (child : NodeAddr) :
    Except Fault (RbTree × Option NodeAddr) :=
  let t := t.rbtnRightSet cnode child
  let left := t.rbtnLeftGet cnode
  if t.rbtnRedGet left then
    let leftright := t.rbtnRightGet left
    let leftrightleft := t.rbtnLeftGet leftright
    if t.rbtnRedGet leftrightleft then
      let t := t.rbtnBlackSet leftrightleft
      let (t, unode) := t.rbtnRotateRight cnode
      let (t, tnode) := t.rbtnRotateRight cnode
      let t := t.rbtnRightSet unode tnode
      let (t, tnode) := t.rbtnRotateLeft unode
      .ok (t.setBelow path tnode, none)
    else if leftright = t.rbtNil then .error .abort
    else
      let t := t.rbtnRedSet leftright
      let (t, tnode) := t.rbtnRotateRight cnode
      let t := t.rbtnBlackSet tnode
      .ok (t.setBelow path tnode, none)
  else if t.rbtnRedGet cnode then
    let leftleft := t.rbtnLeftGet left
    if t.rbtnRedGet leftleft then
      let t := t.rbtnBlackSet cnode
      let t := t.rbtnRedSet left
      let t := t.rbtnBlackSet leftleft
      let (t, tnode) := t.rbtnRotateRight cnode
      if path = [] then .error .abort else .ok (t.setBelow path tnode, none)
    else
      let t := t.rbtnRedSet left
      let t := t.rbtnBlackSet cnode
      .ok (t, none)
  else
    let leftleft := t.rbtnLeftGet left
    if t.rbtnRedGet leftleft then
      let t := t.rbtnBlackSet leftleft
      let (t, tnode) := t.rbtnRotateRight cnode
      .ok (t.setBelow path tnode, none)
    else
      let t := t.rbtnRedSet left
      .ok (t, some cnode)

/-- The way back up of `remove`, with the node of `pathp[1]`. -/
def removeUnwind : RbTree → List PathEntry → NodeAddr → Except Fault RbTree
  | t, [], node =>
      let t := t.rootSet node
      if t.rbtnRedGet t.rbtRoot then .error .abort else .ok t
  | t, pathp :: path, child =>
      match
        if pathp.cmp = .eq then .error .abort
        else if pathp.cmp = .lt then t.removeFixLeft pathp.node path child
        else t.removeFixRight pathp.node path child
      with
      | .error fault => .error fault
      | .ok (t, some node) => removeUnwind t path node
      | .ok (t, none) => .ok t

/-- The end of `remove`, where `pathp->node` is the node and has no children to keep. -/
def prune (t : RbTree) (node : NodeAddr) (path : List PathEntry) : Except Fault RbTree :=
  if t.rbtnRedGet node then
    match path with
    | [] => .error .wild
    | above :: _ =>
        if above.cmp = .lt then .ok (t.rbtnLeftSet above.node t.rbtNil) else .error .abort
  else t.removeUnwind path t.rbtNil

/-- The part of `remove` for a node that has no successor. -/
def spliceOut (t : RbTree) (node : NodeAddr) (path : List PathEntry) : Except Fault RbTree :=
  let left := t.rbtnLeftGet node
  if left ≠ t.rbtNil then
    if t.rbtnRedGet node then .error .abort
    else if !t.rbtnRedGet left then .error .abort
    else
      let t := t.rbtnBlackSet left
      .ok (t.setBelow path left)
  else if path = [] then .ok (t.rootSet t.rbtNil)
  else t.prune node path

/-- The part of `remove` that puts the successor in the place of the node. -/
def swapSuccessor (t : RbTree) (node succ : NodeAddr) (path : List PathEntry) : RbTree :=
  let tred := t.rbtnRedGet succ
  let t := t.rbtnColorSet succ (t.rbtnRedGet node)
  let t := t.rbtnLeftSet succ (t.rbtnLeftGet node)
  let t := t.rbtnRightSet succ (t.rbtnRightGet node)
  let t := t.rbtnColorSet node tred
  t.setBelow path succ

/-- `remove` of `rb_gen`. -/
def rbRemove (cmp : NodeAddr → NodeAddr → Ordering) (t : RbTree) (node : NodeAddr) :
    Except Fault RbTree := do
  let (nodep, path, behind) ← removeWind cmp t node (pathLength - 1) t.rbtRoot []
  if nodep ≠ node then .error .abort
  else
    match behind with
    | [] => t.spliceOut node path
    | pathp :: way =>
        if pathp.node ≠ node then
          let t := t.swapSuccessor node pathp.node path
          t.prune node (way ++ ⟨pathp.node, .gt⟩ :: path)
        else t.spliceOut node (way ++ ⟨nodep, .gt⟩ :: path)

/-! ## Lookups

Most functions come in pairs that differ in the side they go to: `first` and `last`, `next` and
`prev`, `nsearch` and `psearch`, `iter` and `reverse_iter`. Their loops end when they reach
`rbt_nil`, which takes links that lead there; a loop that runs out of fuel is one that has not ended. -/

/-- A side of a node. -/
inductive Side
  | left
  | right
deriving DecidableEq

/-- The opposite side. -/
def Side.other : Side → Side
  | .left => .right
  | .right => .left

/-- The outcome of a comparison that leads to the side. -/
def Side.toward : Side → Ordering
  | .left => .lt
  | .right => .gt

/-- `rbtn_left_get` or `rbtn_right_get`. -/
def childGet (t : RbTree) : Side → NodeAddr → NodeAddr
  | .left, node => t.rbtnLeftGet node
  | .right, node => t.rbtnRightGet node

/-- A function returns `NULL` in the place of `rbt_nil`. -/
def orNull (t : RbTree) (ret : NodeAddr) : Option NodeAddr :=
  if ret = t.rbtNil then none else some ret

/-- The loop of `rbtn_first` and `rbtn_last`. -/
def edgeLoop (t : RbTree) (side : Side) : (fuel : Nat) → NodeAddr → Except Fault NodeAddr
  | 0, _ => .error .fuel
  | fuel + 1, rNode =>
      if t.childGet side rNode = t.rbtNil then .ok rNode
      else edgeLoop t side fuel (t.childGet side rNode)

/-- `rbtn_first` and `rbtn_last`. -/
def rbtnEdge (t : RbTree) (side : Side) (fuel : Nat) (root : NodeAddr) : Except Fault NodeAddr :=
  if root = t.rbtNil then .ok root else t.edgeLoop side fuel root

/-- `first` and `last`. -/
def firstFrom (side : Side) (fuel : Nat) (t : RbTree) : Except Fault (Option NodeAddr) := do
  let ret ← t.rbtnEdge side fuel t.rbtRoot
  .ok (t.orNull ret)

/-- `first` of `rb_gen`. -/
def rbFirst : (fuel : Nat) → RbTree → Except Fault (Option NodeAddr) := firstFrom .left

/-- `last` of `rb_gen`. -/
def rbLast : (fuel : Nat) → RbTree → Except Fault (Option NodeAddr) := firstFrom .right

/-- The loop of `search`. -/
def searchLoop (cmp : NodeAddr → NodeAddr → Ordering) (t : RbTree) (key : NodeAddr) :
    (fuel : Nat) → NodeAddr → Except Fault NodeAddr
  | 0, _ => .error .fuel
  | fuel + 1, ret =>
      if ret = t.rbtNil then .ok ret
      else
        match cmp key ret with
        | .eq => .ok ret
        | .lt => searchLoop cmp t key fuel (t.rbtnLeftGet ret)
        | .gt => searchLoop cmp t key fuel (t.rbtnRightGet ret)

/-- `search` of `rb_gen`. -/
def rbSearch (cmp : NodeAddr → NodeAddr → Ordering) (fuel : Nat) (t : RbTree) (key : NodeAddr) :
    Except Fault (Option NodeAddr) := do
  let ret ← searchLoop cmp t key fuel t.rbtRoot
  .ok (t.orNull ret)

/-- The loop of `nsearch` and `psearch`, which remember the last node they left to a side. -/
def nearLoop (cmp : NodeAddr → NodeAddr → Ordering) (t : RbTree) (keep : Side) (key : NodeAddr) :
    (fuel : Nat) → (tnode ret : NodeAddr) → Except Fault NodeAddr
  | 0, _, _ => .error .fuel
  | fuel + 1, tnode, ret =>
      if tnode = t.rbtNil then .ok ret
      else if cmp key tnode = .eq then .ok tnode
      else if cmp key tnode = keep.toward then
        nearLoop cmp t keep key fuel (t.childGet keep tnode) tnode
      else nearLoop cmp t keep key fuel (t.childGet keep.other tnode) ret

/-- `nsearch` and `psearch`. -/
def searchNear (cmp : NodeAddr → NodeAddr → Ordering) (keep : Side) (fuel : Nat) (t : RbTree)
    (key : NodeAddr) : Except Fault (Option NodeAddr) := do
  let ret ← nearLoop cmp t keep key fuel t.rbtRoot t.rbtNil
  .ok (t.orNull ret)

/-- `nsearch` of `rb_gen`. -/
def rbNsearch (cmp : NodeAddr → NodeAddr → Ordering) :
    (fuel : Nat) → RbTree → NodeAddr → Except Fault (Option NodeAddr) :=
  searchNear cmp .left

/-- `psearch` of `rb_gen`. -/
def rbPsearch (cmp : NodeAddr → NodeAddr → Ordering) :
    (fuel : Nat) → RbTree → NodeAddr → Except Fault (Option NodeAddr) :=
  searchNear cmp .right

/-- The loop of `next` and `prev` from a node that is not `rbt_nil`. -/
def stepLoop (cmp : NodeAddr → NodeAddr → Ordering) (t : RbTree) (keep : Side) (node : NodeAddr) :
    (fuel : Nat) → (tnode ret : NodeAddr) → Except Fault NodeAddr
  | 0, _, _ => .error .fuel
  | fuel + 1, tnode, ret =>
      if tnode = t.rbtNil then .error .abort
      else if cmp node tnode = .eq then .ok ret
      else if cmp node tnode = keep.toward then
        stepLoop cmp t keep node fuel (t.childGet keep tnode) tnode
      else stepLoop cmp t keep node fuel (t.childGet keep.other tnode) ret

/-- `next` and `prev`. -/
def stepFrom (cmp : NodeAddr → NodeAddr → Ordering) (keep : Side) (fuel : Nat) (t : RbTree)
    (node : NodeAddr) : Except Fault (Option NodeAddr) := do
  let ret ←
    if t.childGet keep.other node ≠ t.rbtNil then
      t.rbtnEdge keep fuel (t.childGet keep.other node)
    else stepLoop cmp t keep node fuel t.rbtRoot t.rbtNil
  .ok (t.orNull ret)

/-- `next` of `rb_gen`. -/
def rbNext (cmp : NodeAddr → NodeAddr → Ordering) :
    (fuel : Nat) → RbTree → NodeAddr → Except Fault (Option NodeAddr) :=
  stepFrom cmp .left

/-- `prev` of `rb_gen`. -/
def rbPrev (cmp : NodeAddr → NodeAddr → Ordering) :
    (fuel : Nat) → RbTree → NodeAddr → Except Fault (Option NodeAddr) :=
  stepFrom cmp .right

/-! ## Iteration -/

section Iteration

variable {σ : Type} (cb : σ → NodeAddr → Option NodeAddr × σ)

/-- `iter_recurse` and `reverse_iter_recurse`, with a callback that has a state of its own and
leaves the tree alone. -/
def iterRecurse (t : RbTree) (side : Side) :
    (fuel : Nat) → NodeAddr → σ → Except Fault (NodeAddr × σ)
  | 0, _, _ => .error .fuel
  | fuel + 1, node, s =>
      if node = t.rbtNil then .ok (t.rbtNil, s)
      else do
        let (ret, s) ← iterRecurse t side fuel (t.childGet side node) s
        if ret ≠ t.rbtNil then .ok (ret, s)
        else
          match cb s node with
          | (some ret, s) => .ok (ret, s)
          | (none, s) => iterRecurse t side fuel (t.childGet side.other node) s

/-- `iter_start` and `reverse_iter_start`. -/
def iterStart (cmp : NodeAddr → NodeAddr → Ordering) (t : RbTree) (side : Side)
    (start : NodeAddr) : (fuel : Nat) → NodeAddr → σ → Except Fault (NodeAddr × σ)
  | 0, _, _ => .error .fuel
  | fuel + 1, node, s =>
      if cmp start node = side.toward then do
        let (ret, s) ← iterStart cmp t side start fuel (t.childGet side node) s
        if ret ≠ t.rbtNil then .ok (ret, s)
        else
          match cb s node with
          | (some ret, s) => .ok (ret, s)
          | (none, s) => iterRecurse cb t side fuel (t.childGet side.other node) s
      else if cmp start node = side.other.toward then
        iterStart cmp t side start fuel (t.childGet side.other node) s
      else
        match cb s node with
        | (some ret, s) => .ok (ret, s)
        | (none, s) => iterRecurse cb t side fuel (t.childGet side.other node) s

/-- `iter` and `reverse_iter`, from a node or, for `NULL`, from the end. -/
def iterate (cmp : NodeAddr → NodeAddr → Ordering) (side : Side) (fuel : Nat) (t : RbTree)
    (start : Option NodeAddr) (s : σ) : Except Fault (Option NodeAddr × σ) := do
  let (ret, s) ←
    match start with
    | some start => iterStart cb cmp t side start fuel t.rbtRoot s
    | none => iterRecurse cb t side fuel t.rbtRoot s
  .ok (t.orNull ret, s)

/-- `iter` of `rb_gen`. -/
def rbIter (cmp : NodeAddr → NodeAddr → Ordering) :
    (fuel : Nat) → RbTree → Option NodeAddr → σ → Except Fault (Option NodeAddr × σ) :=
  iterate cb cmp .left

/-- `reverse_iter` of `rb_gen`. -/
def rbReverseIter (cmp : NodeAddr → NodeAddr → Ordering) :
    (fuel : Nat) → RbTree → Option NodeAddr → σ → Except Fault (Option NodeAddr × σ) :=
  iterate cb cmp .right

end Iteration

end RbTree

end Lsmalloc
