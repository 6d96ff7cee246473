import Sanmill.Lib.Forest
import Sanmill.Lib.Run
import Sanmill.Record.Transform

/-!
# The game recorder

`game_recorder.dart`: the tree of the recorded moves and the node the game stands at. The
nodes are the cells of a heap, the root is cell `0`; a node that was deleted stays in the
heap, where callers may still hold it. What an operation that throws has changed before it
threw is part of the state it leaves.
-/

namespace Sanmill.Recorder

open Forest

/-- `PgnNode<ExtMove>`. -/
abbrev PgnNode : Type := Cell ExtMove

/-- `GameRecorder`. -/
structure GameRecorder where
  heap : Heap ExtMove
  activeNode : Option Nat
  setupPosition : Option Text
  lastPositionWithRemove : Option Text

namespace GameRecorder

/-- `_pgnRoot`. -/
def pgnRoot : Nat := 0

/-- The constructor. -/
def new (setupPosition lastPositionWithRemove : Option Text) : GameRecorder where
  heap := Heap.single
  activeNode := some pgnRoot
  setupPosition := setupPosition
  lastPositionWithRemove := lastPositionWithRemove

/-- The node at an address. -/
def node (s : GameRecorder) (n : Nat) : PgnNode := s.heap.cell n

/-- `node.data?.move`. -/
def moveAt (s : GameRecorder) (n : Nat) : Option Text := keyOf ExtMove.move s.heap n

/-- The first child with the move, as all loops over children look for it. -/
def childWith (s : GameRecorder) (n : Nat) (move : ExtMove) : Option Nat :=
  (s.node n).children.find? fun child => s.moveAt child = some move.move

/-- A new node in front of the children of `where_`, and active. -/
def insertFirst (s : GameRecorder) (where_ : Nat) (move : ExtMove) : GameRecorder :=
  { s with
    heap := s.heap.addFirst where_ move
    activeNode := some s.heap.fresh }

/-- A new node behind the children of `where_`, and active. -/
def insertLast (s : GameRecorder) (where_ : Nat) (move : ExtMove) : GameRecorder :=
  { s with
    heap := s.heap.addLast where_ move
    activeNode := some s.heap.fresh }

/-- `appendMove`; without an active node it appends at the root. -/
def appendMove (s : GameRecorder) (move : ExtMove) (createVariation : Bool) : GameRecorder :=
  let where_ := s.activeNode.getD pgnRoot
  if !(s.node where_).children.isEmpty && createVariation then
    match s.childWith where_ move with
    | some matchingChild => { s with activeNode := some matchingChild }
    | none => s.insertLast where_ move
  else s.insertFirst where_ move

/-- `appendMoveIfDifferent`. -/
def appendMoveIfDifferent (s : GameRecorder) (newMove : ExtMove) : GameRecorder :=
  match s.activeNode with
  | none => s.appendMove newMove true
  | some node =>
    if s.moveAt node = some newMove.move then s
    else match s.childWith node newMove with
      | some existingChild => { s with activeNode := some existingChild }
      | none => s.appendMove newMove true

/-- The loop of `branchNewMove` down the first children. -/
def mainlineNode (s : GameRecorder) : Nat → Nat → Nat
  | 0, node => node
  | steps + 1, node =>
    match (s.node node).children with
    | [] => node
    | first :: _ => s.mainlineNode steps first

/-- `branchNewMove`. -/
def branchNewMove (s : GameRecorder) (fromIndex : Int) (newMove : ExtMove) : GameRecorder :=
  s.insertFirst (s.mainlineNode fromIndex.toNat pgnRoot) newMove

/-- `branchNewMoveFromActiveNode`. -/
def branchNewMoveFromActiveNode (s : GameRecorder) (newMove : ExtMove) : GameRecorder :=
  let where_ := s.activeNode.getD pgnRoot
  match s.childWith where_ newMove with
  | some child => { s with activeNode := some child }
  | none => s.insertLast where_ newMove

/-- The loop of `addVariationLine` from `current` on. -/
def addLine (s : GameRecorder) (current : Nat) : List ExtMove → GameRecorder
  | [] => s
  | move :: moves =>
    match s.childWith current move with
    | some next => s.addLine next moves
    | none => addLine { s with heap := s.heap.addLast current move } s.heap.fresh moves

/-- `addVariationLine`. -/
def addVariationLine (s : GameRecorder) (parent : Nat) (moves : List ExtMove) : GameRecorder :=
  s.addLine parent moves

/-- `switchToVariation`. -/
def switchToVariation (s : GameRecorder) (variationNode : Nat) : GameRecorder :=
  if (s.node variationNode).parent.isSome then { s with activeNode := some variationNode } else s

/-- The guards of `promoteVariationToMainline`: the parent, where they pass. -/
def promotable (s : GameRecorder) (variationNode : Nat) : Option Nat := do
  let parent ← (s.node variationNode).parent
  let children := (s.node parent).children
  if !children.contains variationNode || children.head? == some variationNode then none
  else some parent

/-- `promoteVariationToMainline`. -/
def promoteVariationToMainline (s : GameRecorder) (variationNode : Nat) : GameRecorder :=
  match s.promotable variationNode with
  | none => s
  | some parent =>
    { s with
      heap := s.heap.setChildren parent
        (variationNode :: (s.node parent).children.erase variationNode)
      activeNode := some variationNode }

/-- The loop of `_isNodeOrDescendant`, up from `targetNode`. -/
def climbsTo (s : GameRecorder) (node : Nat) : Nat → Option Nat → Bool
  | 0, _ => false
  | _ + 1, none => false
  | fuel + 1, some current =>
    if current = node then true else s.climbsTo node fuel (s.node current).parent

/-- `_isNodeOrDescendant`; a node has fewer nodes above it than there are. -/
def isNodeOrDescendant (s : GameRecorder) (node : Nat) (targetNode : Option Nat) : Bool :=
  s.climbsTo node (s.heap.fresh + 1) targetNode

/-- `deleteBranch`. -/
def deleteBranch (s : GameRecorder) (branchNode : Nat) : GameRecorder :=
  match (s.node branchNode).parent with
  | none => s
  | some parent =>
    if !(s.node parent).children.contains branchNode then s
    else
      { s with
        activeNode :=
          if s.isNodeOrDescendant branchNode s.activeNode then some parent else s.activeNode
        heap := s.heap.setChildren parent ((s.node parent).children.erase branchNode) }

/-- The data of one node, rewritten; `false` when the rewriting throws. -/
def transformNode (type : TransformationType) (h : Heap ExtMove) (n : Nat) :
    Heap ExtMove × Bool :=
  match (h.cell n).data with
  | none => (h, true)
  | some move =>
    match transformMove move type with
    | none => (h, false)
    | some transformed => (h.setData n transformed, true)

/-- `_transformNodeCoordinates`, down to `fuel` levels; `false` once it has thrown. -/
def transformNodeCoordinates (type : TransformationType) :
    Nat → Heap ExtMove × Bool → Nat → Heap ExtMove × Bool
  | 0, progress, _ => progress
  | _ + 1, (h, false), _ => (h, false)
  | fuel + 1, (h, true), n =>
    (h.cell n).children.foldl (transformNodeCoordinates type fuel) (transformNode type h n)

/-- `transformCoordinates`; no node is deeper than there are nodes. -/
def transformCoordinates (s : GameRecorder) (type : TransformationType) : GameRecorder :=
  match transformFenOrNull s.setupPosition type with
  | none => s
  | some setupPosition =>
    let s := { s with setupPosition }
    match transformFenOrNull s.lastPositionWithRemove type with
    | none => s
    | some lastPositionWithRemove =>
      { s with
        lastPositionWithRemove
        heap := (transformNodeCoordinates type s.heap.fresh (s.heap, true) pgnRoot).1 }

/-- `reset`. -/
def reset (s : GameRecorder) : GameRecorder :=
  { s with
    heap := s.heap.setChildren pgnRoot []
    activeNode := some pgnRoot
    lastPositionWithRemove := none }

/-! ## Runs -/

/-- What callers do to a recorder. Nodes are handed in by reference. -/
inductive Op where
  | appendMove (move : ExtMove) (createVariation : Bool)
  | appendMoveIfDifferent (newMove : ExtMove)
  | branchNewMove (fromIndex : Int) (newMove : ExtMove)
  | branchNewMoveFromActiveNode (newMove : ExtMove)
  | addVariationLine (parent : Nat) (moves : List ExtMove)
  | switchToVariation (variationNode : Nat)
  | promoteVariationToMainline (variationNode : Nat)
  | deleteBranch (branchNode : Nat)
  | transformCoordinates (type : TransformationType)
  | reset

/-- The recorder after a call. -/
def step (s : GameRecorder) : Op → GameRecorder
  | .appendMove move createVariation => s.appendMove move createVariation
  | .appendMoveIfDifferent newMove => s.appendMoveIfDifferent newMove
  | .branchNewMove fromIndex newMove => s.branchNewMove fromIndex newMove
  | .branchNewMoveFromActiveNode newMove => s.branchNewMoveFromActiveNode newMove
  | .addVariationLine parent moves => s.addVariationLine parent moves
  | .switchToVariation variationNode => s.switchToVariation variationNode
  | .promoteVariationToMainline variationNode => s.promoteVariationToMainline variationNode
  | .deleteBranch branchNode => s.deleteBranch branchNode
  | .transformCoordinates type => s.transformCoordinates type
  | .reset => s.reset

end GameRecorder

end Sanmill.Recorder
