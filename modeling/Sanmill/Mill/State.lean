import Mathlib.Logic.Function.Basic
import Sanmill.Mill.Types
import Sanmill.Mill.Topology

/-!
# The rule state

`MillState`, its packed runtime flags, and the primitives that write the board.
The source keeps the board twice: `board` holds a piece code per node (`0` empty,
`1` white, `2` black), `byColorBb` the live pieces of each side as masks. Every
primitive updates both; `bitboardsFromBoard` says what the masks should be.

A fixed-size array is a function of its index, and `Function.update` is the array
write. An `i8` that carries a side, a node or a piece code is an integer, since
`-1` and `2` are used as sentinels.
-/

namespace Sanmill

open Bits

/-- A side used as an array index: `0` white, `1` black. -/
abbrev Side : Type := Fin 2

/-- `side ^ 1` on an array index. -/
def Side.opponent (side : Side) : Side := 1 - side

/-- `side as i8`. -/
def Side.toI8 (side : Side) : Int := side.val

/-- `value ^ 1` on an `i8`. -/
def xorOne (value : Int) : Int := if value % 2 = 0 then value + 1 else value - 1

/-- `state.side_to_move as usize`, at the sites that use it as an index. -/
def sideIndex (sideToMove : Int) : Side := if sideToMove = 1 then 1 else 0

/-- The array write `array[index] = value`. -/
abbrev setAt {α : Type} {n : Nat} (array : Fin n → α) (index : Fin n) (value : α) : Fin n → α :=
  Function.update array index value

/-- A pair of per-side values, `[first, second]`. -/
def perSide {α : Type} (first second : α) (side : Side) : α := if side = 0 then first else second

/-- `Some(node)` for the board nodes among the `i16` values. -/
def boardNode? (value : Int) : Option Node :=
  if h : 0 ≤ value ∧ value < 24 then some ⟨value.toNat, by omega⟩ else none

/-- `node as i8`, `node as i16`. -/
def Node.toI8 (node : Node) : Int := node.val

/-- Why the game ended. -/
inductive MillOutcomeReason where
  | ongoing
  | loseFewerThanThree
  /-- Kept for old snapshots; the rules emit the two fifty-move reasons. -/
  | drawNMoveRule
  | drawFullBoard
  | loseFullBoard
  | drawThreefold
  | loseNoLegalMoves
  | drawStalemate
  | drawFiftyMove
  | drawEndgameFiftyMove
deriving DecidableEq, Repr

/--
`MillStateFlags`: one byte in the source. The two top bits cache the Zobrist misc
counter and are not part of the snapshot byte.
-/
structure MillStateFlags where
  millAvailableAtRemoval : Bool := false
  stalemateRemoving : Bool := false
  bothStalemateRemoving : Bool := false
  removeOwnPiece : Side → Bool := fun _ => false
  boardFullRemoving : Bool := false
  zobristMiscCount : BitVec 2 := 0

/-- The fields that say what stands where, in hand and on the board. -/
structure MillPosition where
  /-- `0` empty, `1` white, `2` black; a marked piece keeps its colour. -/
  board : Node → Int := fun _ => 0
  /-- Live occupancy per side; marked pieces are absent. -/
  byColorBb : Side → Bitboard := fun _ => 0
  delayedMarkedPieces : Bitboard := 0
  piecesInHand : Side → Nat := fun _ => 0
  piecesOnBoard : Side → Nat := fun _ => 0
  mobilityDiff : Int := 0

/-- The targets a side may capture, and how many of them. -/
structure MillCaptures where
  custodianTargets : Side → Bitboard := fun _ => 0
  interventionTargets : Side → Bitboard := fun _ => 0
  leapTargets : Side → Bitboard := fun _ => 0
  custodianCount : Side → Nat := fun _ => 0
  interventionCount : Side → Nat := fun _ => 0
  leapCount : Side → Nat := fun _ => 0

/-- `MillState`; its fields are grouped so that a write to one group leaves the others. -/
structure MillState extends MillPosition, MillCaptures where
  sideToMove : Int := 0
  phase : MillPhase := .placing
  action : MillActionState := .place
  moveNumber : BitVec 16 := 0
  pendingRemovals : Side → Nat := fun _ => 0
  flags : MillStateFlags := {}
  /-- `-1` none, `2` draw. -/
  winner : Int := -1
  outcomeReason : MillOutcomeReason := .ongoing
  plySinceCapture : Nat := 0
  /-- `-1` when the side has no recorded mill. -/
  lastMillFrom : Side → Int := fun _ => -1
  lastMillTo : Side → Int := fun _ => -1
  usedMillLines : Bitboard := 0
  /-- Squares of the mills a side has formed; kept under `oneTimeUseMill` only. -/
  formedMillsBb : Side → Bitboard := fun _ => 0
  /-- A square suggested for the next removal, or `-1`. -/
  preferredRemoveTarget : Int := -1
  /-- Position keys since the last placement or removal, at most 256. -/
  keyHistory : List (BitVec 64) := []
  keyHistoryLen : Nat := 0
  zobristKey : BitVec 64 := 0

/-! ## Masks derived from the board -/

/-- The colour of a piece code. -/
def colorIndexForPiece (piece : Int) : Option Side :=
  if piece = 1 then some 0 else if piece = 2 then some 1 else none

/-- The live pieces of each colour: one scan of the board, marked squares skipped. -/
def bitboardsFromBoard (board : Node → Int) (delayedMarkedPieces : Bitboard) (color : Side) :
    Bitboard :=
  (List.finRange 24).foldl
    (fun (byColor : Bitboard) (node : Node) =>
      if testBit delayedMarkedPieces node then byColor
      else if colorIndexForPiece (board node) = some color then byColor ||| nodeBit node
      else byColor) 0

namespace MillPosition

/-- The nodes of a colour, by piece code. -/
def pieceBitboard (position : MillPosition) (piece : Int) : Bitboard :=
  match colorIndexForPiece piece with
  | some color => position.byColorBb color
  | none => 0

/-- The nodes with a piece that is not marked. -/
def liveOccupiedBitboard (position : MillPosition) : Bitboard :=
  position.byColorBb 0 ||| position.byColorBb 1

/-- The nodes that nothing can be put on. -/
def boardOccupiedBitboard (position : MillPosition) : Bitboard :=
  position.liveOccupiedBitboard ||| position.delayedMarkedPieces

/-- The nodes that something can be put on. -/
def emptySquareCount (position : MillPosition) : Nat :=
  24 - countOnes position.boardOccupiedBitboard

/-- A piece marked by mark-and-delay: visible on the board, inert in the rules. -/
def isMarked (position : MillPosition) (node : Node) : Bool :=
  testBit position.delayedMarkedPieces node

/-- The piece code, 0 where the piece is marked. -/
def livePiece (position : MillPosition) (node : Node) : Int :=
  if position.isMarked node then 0 else position.board node

/-- Clear `node` in the mask of the piece standing on it, if there is one. -/
def clearColorAt (position : MillPosition) (node : Node) : Side → Bitboard :=
  match colorIndexForPiece (position.board node) with
  | some color => setAt position.byColorBb color (position.byColorBb color &&& ~~~nodeBit node)
  | none => position.byColorBb

end MillPosition

namespace MillState

/-- The masks are made from the board. -/
def syncBitboardsFromBoard (state : MillState) : MillState :=
  { state with byColorBb := bitboardsFromBoard state.board state.delayedMarkedPieces }

/-! ## Board writes -/

/-- A node gets a piece code, in the board and in the masks. -/
def setBoardNode (state : MillState) (node : Node) (piece : Int) : MillState :=
  let cleared := state.clearColorAt node
  { state with
    board := setAt state.board node piece
    byColorBb :=
      if testBit state.delayedMarkedPieces node then cleared
      else match colorIndexForPiece piece with
        | some color => setAt cleared color (cleared color ||| nodeBit node)
        | none => cleared }

/-- A piece is put on an empty node. -/
def placeLivePiece (state : MillState) (node : Node) (side : Side) : MillState :=
  { state with
    board := setAt state.board node (side.toI8 + 1)
    byColorBb := setAt state.byColorBb side (state.byColorBb side ||| nodeBit node) }

/-- A piece goes from one node to another. -/
def moveLivePiece (state : MillState) (source target : Node) (side : Side) : MillState :=
  { state with
    board := setAt (setAt state.board source 0) target (side.toI8 + 1)
    byColorBb := setAt state.byColorBb side
      ((state.byColorBb side &&& ~~~nodeBit source) ||| nodeBit target) }

/-- A piece is taken off. -/
def clearLivePiece (state : MillState) (node : Node) (side : Side) : MillState :=
  { state with
    board := setAt state.board node 0
    byColorBb := setAt state.byColorBb side (state.byColorBb side &&& ~~~nodeBit node) }

/-- A piece is marked: it stays on the board and is out of the masks. -/
def markBoardNodeInactive (state : MillState) (node : Node) : MillState :=
  { state with
    byColorBb := state.clearColorAt node
    delayedMarkedPieces := state.delayedMarkedPieces ||| nodeBit node }

/-! ## Flags -/

/-- The pending count of `side` modulo four, negated when it removes its own pieces. -/
def legacyMiscCountForSide (state : MillState) (side : Side) : BitVec 2 :=
  let count : BitVec 2 := BitVec.ofNat 2 (state.pendingRemovals side)
  if state.flags.removeOwnPiece side ∧ count ≠ 0 then 0 - count else count

/-- The two bits that the key carries on top. -/
def setZobristMiscCount (state : MillState) (count : BitVec 2) : MillState :=
  { state with flags := { state.flags with zobristMiscCount := count } }

/-- The two bits are those of this side. -/
def refreshZobristMiscForSide (state : MillState) (side : Side) : MillState :=
  state.setZobristMiscCount (state.legacyMiscCountForSide side)

/-- The two bits are those of the side to move. -/
def refreshZobristMiscForActiveSide (state : MillState) : MillState :=
  state.setZobristMiscCount <|
    if 0 ≤ state.sideToMove ∧ state.sideToMove ≤ 1 then
      state.legacyMiscCountForSide (sideIndex state.sideToMove)
    else 0

/-- Whether a removal that is owed is for a mill. -/
def setMillAvailableAtRemoval (state : MillState) (enabled : Bool) : MillState :=
  { state with flags := { state.flags with millAvailableAtRemoval := enabled } }

/-- Whether a removal breaks a stalemate. -/
def setStalemateRemoving (state : MillState) (enabled : Bool) : MillState :=
  { state with flags := { state.flags with stalemateRemoving := enabled } }

/-- Whether both sides remove to break a stalemate. -/
def setBothStalemateRemoving (state : MillState) (enabled : Bool) : MillState :=
  { state with flags := { state.flags with bothStalemateRemoving := enabled } }

/-- Whether removals are owed for a full board. -/
def setBoardFullRemoving (state : MillState) (enabled : Bool) : MillState :=
  { state with flags := { state.flags with boardFullRemoving := enabled } }

/-- Whether a side removes its own piece. -/
def setRemoveOwnPiece (state : MillState) (side : Side) (enabled : Bool) : MillState :=
  { state with flags :=
      { state.flags with removeOwnPiece := setAt state.flags.removeOwnPiece side enabled } }

/-- Whether each side removes its own pieces. -/
def setRemoveOwnPieces (state : MillState) (values : Side → Bool) : MillState :=
  { state with flags := { state.flags with removeOwnPiece := values } }

/-- What a side owes. -/
def setPendingRemovals (state : MillState) (side : Side) (count : Nat) : MillState :=
  { state with pendingRemovals := setAt state.pendingRemovals side count }

/-! ## The cached action -/

/-- The action that goes with the phase and what is owed. -/
def syncedAction (state : MillState) : MillActionState :=
  if state.phase = .gameOver then .gameOver
  else if 0 ≤ state.sideToMove ∧ state.pendingRemovals (sideIndex state.sideToMove) > 0 then .remove
  else match state.phase with
    | .placing | .ready => .place
    | .moving => .select
    | .gameOver => .gameOver

/-- `sync_action_state`, the function form of `sync_action_after_transition`. -/
def syncActionState (state : MillState) : MillState :=
  { state with action := state.syncedAction }

/-- The action the generators dispatch on; a state without an active side has none. -/
def actionForLegalGeneration (state : MillState) : MillActionState :=
  if state.phase = .gameOver ∨ ¬(0 ≤ state.sideToMove ∧ state.sideToMove ≤ 1) then .gameOver
  else if state.action = .place
      ∧ (state.phase ≠ .placing
        ∨ (0 ≤ state.sideToMove ∧ state.pendingRemovals (sideIndex state.sideToMove) > 0)) then
    state.syncedAction
  else state.action

/-- The positions before can no longer come back. -/
def clearKeyHistory (state : MillState) : MillState :=
  { state with keyHistory := [], keyHistoryLen := 0 }

end MillState

/-- `u8::saturating_add`. -/
def saturatingAddU8 (a b : Nat) : Nat := min 255 (a + b)

end Sanmill
