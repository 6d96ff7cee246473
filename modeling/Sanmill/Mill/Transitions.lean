import Sanmill.Mill.Captures
import Sanmill.Mill.Zobrist

/-!
# Phase transitions and draw bookkeeping

The end of the placing phase, the full-board rules, the inactivity counter and the
repetition history.
-/

namespace Sanmill

open Bits

/-- `MILL_REPETITION_HISTORY_CAP`. -/
def millRepetitionHistoryCap : Nat := 256

/-- `MILL_REPETITION_SNAPSHOT_WINDOW`. -/
def millRepetitionSnapshotWindow : Nat := 24

/-- What each side owes when the placing phase ends under removal by mill counts. -/
def removalsForMillCounts (whiteMills blackMills : Nat) : Nat × Nat :=
  if whiteMills = 0 ∧ blackMills = 0 then (1, 1)
  else if whiteMills > 0 ∧ blackMills = 0 then (2, 1)
  else if blackMills > 0 ∧ whiteMills = 0 then (1, 2)
  else if whiteMills = blackMills then (whiteMills, blackMills)
  else if whiteMills > blackMills then (blackMills + 1, blackMills)
  else (whiteMills, whiteMills + 1)

/-- Without a mill on either side, both sides remove one of their own pieces. -/
def applyRemovalBasedOnMillCounts (state : MillState) (options : MillVariantOptions) :
    MillState :=
  let whiteMills := totalMillsCount state options 0
  let blackMills := totalMillsCount state options 1
  let removesOwn : Bool := whiteMills = 0 ∧ blackMills = 0
  let removals := removalsForMillCounts whiteMills blackMills
  let state := state.setRemoveOwnPieces fun _ => removesOwn
  let state := { state with pendingRemovals := perSide removals.1 removals.2 }
  let state := state.refreshZobristMiscForActiveSide
  let state := { state with
    sideToMove :=
      if state.pendingRemovals (sideIndex state.sideToMove) = 0 then xorOne state.sideToMove
      else state.sideToMove }
  state.setMillAvailableAtRemoval (0 < state.pendingRemovals 0 ∨ 0 < state.pendingRemovals 1)

/-- Sweep the marked pieces off the board. -/
def sweepMarkedPieces (state : MillState) : MillState :=
  if state.delayedMarkedPieces ≠ 0 then
    { (maskNodes state.delayedMarkedPieces).foldl (fun s node => s.setBoardNode node 0) state with
      delayedMarkedPieces := 0 }
  else state

/-- The modes in which the active side is kept at the end of the placing phase. -/
def keepsSideAtPlacingEnd (options : MillVariantOptions) : Bool :=
  options.millFormationActionInPlacingPhase = .removeOpponentsPieceFromHandThenOpponentsTurn
    || (options.millFormationActionInPlacingPhase = .removeOpponentsPieceFromHandThenYourTurn
      && options.mayRemoveMultiple)
    || options.mayMoveInPlacingPhase

/-- `enter_moving_phase`: marked pieces go, and mills that waited are owed for. -/
def enterMovingPhase (state : MillState) (options : MillVariantOptions) : MillState :=
  let markAndDelay : Bool := options.millFormationActionInPlacingPhase = .markAndDelayRemovingPieces
  let removalMillCounts : Bool :=
    options.millFormationActionInPlacingPhase = .removalBasedOnMillCounts
  let state := sweepMarkedPieces { state with phase := .moving }
  let state :=
    if removalMillCounts then applyRemovalBasedOnMillCounts state options else state
  if keepsSideAtPlacingEnd options && !markAndDelay && !removalMillCounts then
    if options.isDefenderMoveFirst then { state with sideToMove := 1 } else state
  else { state with sideToMove := if options.isDefenderMoveFirst then 1 else 0 }

/-- Both hands are empty, or the rule stops placing at two empty squares. -/
def maybeTransitionToMoving (state : MillState) (options : MillVariantOptions) : MillState :=
  let state :=
    if state.phase = .placing ∧ state.piecesInHand 0 = 0 ∧ state.piecesInHand 1 = 0 then
      enterMovingPhase state options
    else state
  if options.pieceCount = 12 ∧ options.stopPlacingWhenTwoEmptySquares = true
      ∧ state.phase = .placing ∧ state.emptySquareCount ≤ 2 then
    enterMovingPhase { state with piecesInHand := fun _ => 0 } options
  else state

/-- The phase of a running game follows the hand of the active side. -/
def syncPhaseWithActiveHand (state : MillState) : MillState :=
  { state with
    phase :=
      if state.phase ≠ .placing ∧ state.phase ≠ .moving then state.phase
      else if 0 ≤ state.sideToMove ∧ state.sideToMove ≤ 1 then
        if state.piecesInHand (sideIndex state.sideToMove) = 0 then .moving else .placing
      else state.phase }

/-- Nothing is left in hand when two nodes are empty, where the rules say so. -/
def maybeStopPlacingWhenTwoEmpty (state : MillState) (options : MillVariantOptions) : MillState :=
  { state with
    piecesInHand :=
      if options.pieceCount = 12 ∧ options.stopPlacingWhenTwoEmptySquares = true
          ∧ state.emptySquareCount ≤ 2 then
        fun _ => 0
      else state.piecesInHand }

/-- End the game; the active side of a finished game is `-1`. -/
def finishGame (state : MillState) (winner : Int) (reason : MillOutcomeReason) : MillState :=
  { state with phase := .gameOver, winner := winner, outcomeReason := reason, sideToMove := -1 }

/-- Both sides owe a removal on the full board, `first` going first. -/
def armBoardFullRemovals (state : MillState) (first : Side) (owed : Side → Nat) : MillState :=
  let state := { state with pendingRemovals := owed, sideToMove := first.toI8 }
  (state.setBoardFullRemoving true).refreshZobristMiscForActiveSide

/-- The full-board rule of the twelve-piece game. -/
def maybeFinishFullBoard (state : MillState) (options : MillVariantOptions) : MillState :=
  if options.pieceCount ≠ 12 then state
  else if state.phase ≠ .moving ∨ state.emptySquareCount ≠ 0 then state
  else if 0 < state.pendingRemovals 0 ∨ 0 < state.pendingRemovals 1 then state
  else match options.boardFullAction with
    | .firstPlayerLose => finishGame state 1 .loseFullBoard
    | .agreeToDraw => finishGame state 2 .drawFullBoard
    | .firstAndSecondPlayerRemovePiece => armBoardFullRemovals state 0 fun _ => 1
    | .secondAndFirstPlayerRemovePiece => armBoardFullRemovals state 1 fun _ => 1
    | .sideToMoveRemovePiece =>
      let remover : Side := if options.isDefenderMoveFirst then 1 else 0
      armBoardFullRemovals state remover (setAt (fun _ => 0) remover 1)

/-! ## Inactivity -/

/-- Moves count towards the draw. -/
def isMoveCountingPhase (state : MillState) (options : MillVariantOptions) : Bool :=
  state.phase = .moving || (state.phase = .placing && options.mayMoveInPlacingPhase)

/-- One more move without a capture; the counter saturates. -/
def bumpPlySinceCapture (state : MillState) (options : MillVariantOptions) : MillState :=
  { state with
    plySinceCapture :=
      if isMoveCountingPhase state options then min 65535 (state.plySinceCapture + 1)
      else state.plySinceCapture }

/-- The endgame rule applies: some side has exactly three pieces on the board. -/
def isNMoveEndgame (state : MillState) (options : MillVariantOptions) : Bool :=
  options.endgameNMoveRule > 0 && options.endgameNMoveRule < options.nMoveRule
    && (state.piecesOnBoard 0 = 3 || state.piecesOnBoard 1 = 3)

/-- How many moves without a capture draw the game. -/
def nMoveThreshold (state : MillState) (options : MillVariantOptions) : Nat :=
  if isNMoveEndgame state options then options.endgameNMoveRule else options.nMoveRule

/-- The draw by moves without a capture, where it is adjudicated. -/
def maybeDrawByNMoveRule (state : MillState) (options : MillVariantOptions)
    (adjudicate : Bool) : MillState :=
  if !adjudicate then state
  else if !isMoveCountingPhase state options then state
  else if nMoveThreshold state options > 0
      ∧ state.plySinceCapture ≥ nMoveThreshold state options then
    finishGame state 2
      (if isNMoveEndgame state options then .drawEndgameFiftyMove else .drawFiftyMove)
  else state

/-! ## Repetition -/

/-- The key a position is remembered under: never zero. -/
def nonZeroKey (key : Key) : Key := if key = 0 then 1 else key

/-- The key under which a position is remembered, never 0. -/
def repetitionSignature (state : MillState) : Key := nonZeroKey (fullStateKey state)

/-- A key was there so many times. -/
def keyOccursAtLeast (history : List Key) (key : Key) (threshold : Nat) : Bool :=
  threshold ≤ history.count key

/-- Append to the rolling history, dropping the oldest key at the cap. -/
def pushKey (history : List Key) (key : Key) : List Key :=
  (if history.length ≥ millRepetitionHistoryCap then history.drop 1 else history) ++ [key]

/-- Record `key`; on the third occurrence an adjudicated game is drawn. -/
def pushKeyAndCheckThreefoldWithKey (state : MillState) (options : MillVariantOptions)
    (adjudicate : Bool) (key : Key) : MillState :=
  if !options.threefoldRepetitionRule then state
  else
    let key := nonZeroKey key
    let history := pushKey state.keyHistory key
    let state := { state with keyHistory := history, keyHistoryLen := history.length }
    if !adjudicate then state
    else if keyOccursAtLeast history key 3 then finishGame state 2 .drawThreefold
    else state

/-- The position is remembered, and a third time draws where it is adjudicated. -/
def pushKeyAndCheckThreefold (state : MillState) (options : MillVariantOptions)
    (adjudicate : Bool) : MillState :=
  pushKeyAndCheckThreefoldWithKey state options adjudicate (repetitionSignature state)

/-- `from` and `to` are nodes or the "no node" value. -/
def isActionWithinBoardBounds (fromNode toNode : Int) : Bool :=
  let isNodeOrNone (value : Int) : Bool := value = -1 || (0 ≤ value && value < 24)
  isNodeOrNone fromNode && isNodeOrNone toNode

end Sanmill
