import Sanmill.Mill.LegalActions
import Sanmill.Mill.Snapshot

/-!
# Applying an action

`applyToStateUnchecked` is the one mutation both surfaces share. Real play
(`adjudicate = true`) records repetition keys and adjudicates the two draw rules;
the search (`adjudicate = false`) does neither and may take two more fast paths.

The body of the source is one long function. It is cut here at its branches, one
definition per branch, in the order of the source. Where the source would index
with the "no node" value and panic, the definitions return the state unchanged;
no generated action reaches those lines.
-/

namespace Sanmill

open Bits

namespace MillRules

variable (r : MillRules)

/-! ## Key bookkeeping -/

/-- What the incremental key needs to know about the state before the action. -/
structure KeyContext where
  oldKey : Key
  oldSideToMove : Int
  oldFromPiece : Int
  oldToPiece : Int
  /-- Captured unless the cheap changed-squares form is sure to apply. -/
  oldZobrist : Option ZobristInputs

/-- The piece on an action's node; `0` for "no node". -/
def pieceAt (state : MillState) (node : Int) : Int :=
  match boardNode? node with
  | some s => state.board s
  | none => 0

/-- The key can be updated from the squares of the action alone. -/
def canUseChangedSquaresKey (state : MillState) : Bool :=
  captureStateIsEmpty state
    && state.delayedMarkedPieces = 0
    && !r.options.custodianCapture.enabled
    && !r.options.interventionCapture.enabled
    && !r.options.leapCapture.enabled
    && r.options.millFormationActionInPlacingPhase ≠ .markAndDelayRemovingPieces

/-- What the key update needs of the state before the action. -/
def KeyContext.capture (state : MillState) (action : Action) : KeyContext where
  oldKey := state.zobristKey
  oldSideToMove := state.sideToMove
  oldFromPiece := pieceAt state action.fromNode
  oldToPiece := pieceAt state action.toNode
  oldZobrist :=
    if r.canUseChangedSquaresKey state then none else some (ZobristInputs.capture state)

/-- The incremental key of the state reached; without captured inputs the source panics. -/
def KeyContext.keyOf (ctx : KeyContext) (state : MillState) (action : Action) : Key :=
  match ctx.oldZobrist with
  | none =>
    if state.delayedMarkedPieces = 0 ∧ captureStateIsEmpty state then
      keyAfterApplyFromChangedSquares ctx.oldKey ctx.oldSideToMove ctx.oldFromPiece ctx.oldToPiece
        state action.fromNode action.toNode
    else 0
  | some old => keyAfterApply ctx.oldKey old state action.fromNode action.toNode

/-! ## Shared pieces of the branches -/

/-- The tail of every branch that ends a turn during or after placing. -/
def endPlacingTurn (state : MillState) : MillState :=
  let state := maybeTransitionToMoving state r.options
  let state := syncPhaseWithActiveHand state
  (maybeFinishFullBoard state r.options).syncActionState

/-- Owe `count` removals and say whether a mill earned them. -/
def armRemovals (state : MillState) (side : Side) (count : Nat) (millAvailable : Bool) :
    MillState :=
  ((state.setPendingRemovals side count).refreshZobristMiscForSide side).setMillAvailableAtRemoval
    millAvailable

/-! ## Place -/

/-- The writes common to every placement. -/
def placePiece (state : MillState) (target : Node) (side : Side) : MillState :=
  let state := state.placeLivePiece target side
  let state := { state with
    piecesInHand := setAt state.piecesInHand side (state.piecesInHand side - 1)
    piecesOnBoard := setAt state.piecesOnBoard side (state.piecesOnBoard side + 1) }
  let state := updateMobilityPlace state r.options target side
  MillState.clearKeyHistory
    { state with moveNumber := state.moveNumber + 1, plySinceCapture := 0 }

/-- A mill takes pieces from the opponent's hand, and from the board when the hand runs out. -/
def placeHandRemoval (state : MillState) (side : Side) (removals : Nat) : MillState :=
  let opponent := side.opponent
  let handRemoved := min removals (state.piecesInHand opponent)
  let state := { state with
    piecesInHand := setAt state.piecesInHand opponent (state.piecesInHand opponent - handRemoved) }
  let remaining := removals - handRemoved
  let state :=
    if remaining > 0 then (armRemovals state side remaining true).syncActionState
    else
      r.endPlacingTurn { state with
        sideToMove :=
          if r.options.millFormationActionInPlacingPhase
              = .removeOpponentsPieceFromHandThenOpponentsTurn then side.opponent.toI8
          else side.toI8 }
  state.clearCaptureState

/-- A mill owes removals from the board, plus the captures exposed with it. -/
def placeBoardRemoval (state : MillState) (side : Side) (removals : Nat)
    (custodian intervention : Bitboard) : MillState :=
  let state := armRemovals state side removals true
  let state := state.activateCaptureState custodian intervention 0
  let state :=
    if r.options.mayRemoveMultiple then
      (state.setPendingRemovals side
        (saturatingAddU8 (state.pendingRemovals side) state.captureTotal)).refreshZobristMiscForSide
          side
    else state
  state.syncActionState

/-- Removals are counted once, when the last piece has been placed. -/
def placeRemovalBasedOnMillCounts (state : MillState) : MillState :=
  let state := state.clearCaptureState
  let state :=
    if state.piecesInHand 0 = 0 ∧ state.piecesInHand 1 = 0 then
      applyRemovalBasedOnMillCounts state r.options
    else { state with sideToMove := xorOne state.sideToMove }
  r.endPlacingTurn state

/-- A capture without a mill. -/
def armCapture (state : MillState) (side : Side) (custodian intervention : Bitboard) : MillState :=
  let state := state.activateCaptureState custodian intervention 0
  (armRemovals state side state.captureTotal false).syncActionState

/-- A placement that earns nothing. -/
def placeQuiet (state : MillState) : MillState :=
  let state := maybeStopPlacingWhenTwoEmpty state.clearCaptureState r.options
  let removalBasedFinalPlacing : Bool :=
    r.options.millFormationActionInPlacingPhase = .removalBasedOnMillCounts
      ∧ state.piecesInHand 0 = 0 ∧ state.piecesInHand 1 = 0
  r.endPlacingTurn <|
    if removalBasedFinalPlacing then state
    else { state with sideToMove := xorOne state.sideToMove }

/-- The placement rule of the mill formed by `usableBits`. -/
def placeMill (state : MillState) (side : Side) (usableBits custodian intervention : Bitboard) :
    MillState :=
  let removals := removalCountForBits usableBits r.options
  match r.options.millFormationActionInPlacingPhase with
  | .removeOpponentsPieceFromHandThenOpponentsTurn
  | .removeOpponentsPieceFromHandThenYourTurn => r.placeHandRemoval state side removals
  | .markAndDelayRemovingPieces
  | .removeOpponentsPieceFromBoard
  | .opponentRemovesOwnPiece => r.placeBoardRemoval state side removals custodian intervention
  | .removalBasedOnMillCounts => r.placeRemovalBasedOnMillCounts state

/-- The `Place` branch. -/
def applyPlace (state : MillState) (target : Node) : MillState :=
  let side := sideIndex state.sideToMove
  let state := r.placePiece state target side
  let custodian :=
    if r.options.custodianCapture.enabled && r.options.custodianCapture.inPlacingPhase then
      detectCustodianTargets state r.options target
    else 0
  let intervention :=
    if r.options.interventionCapture.enabled && r.options.interventionCapture.inPlacingPhase then
      detectInterventionTargets state r.options target
    else 0
  let millBits := formedMillBitsAt state r.options target state.sideToMove
  let usableBits := usableMillBits state r.options millBits
  if usableBits ≠ 0 then
    noteMillFormation (r.placeMill state side usableBits custodian intervention) side (-1)
      target.toI8 usableBits r.options
  else if custodian ≠ 0 ∨ intervention ≠ 0 then armCapture state side custodian intervention
  else r.placeQuiet state

/-! ## Move -/

/-- The writes common to every board move. -/
def movePiece (state : MillState) (source target : Node) (side : Side) : MillState :=
  let state := updateMobilityRemove state r.options source
  let state := state.moveLivePiece source target side
  let state := updateMobilityPlace state r.options target side
  bumpPlySinceCapture { state with moveNumber := state.moveNumber + 1 } r.options

/-- A move that earns nothing, up to the point where its position key is taken. -/
def moveQuiet (state : MillState) (side : Side) : MillState :=
  let state := state.clearCaptureState
  { state with
    lastMillFrom := setAt state.lastMillFrom side (-1)
    lastMillTo := setAt state.lastMillTo side (-1)
    sideToMove := xorOne state.sideToMove }

/-- Record the key of a quiet move and adjudicate the draw rules. -/
def adjudicateQuiet (state : MillState) (incrementalKey : Option Key) (adjudicate : Bool) :
    MillState :=
  let state :=
    if adjudicate then
      match incrementalKey with
      | some key => pushKeyAndCheckThreefoldWithKey state r.options true key
      | none => pushKeyAndCheckThreefold state r.options true
    else state
  let state := maybeDrawByNMoveRule state r.options adjudicate
  (syncPhaseWithActiveHand state).syncActionState

/--
The `Move` branch. The second component is the key the search keeps when the
stalemate rule does not fire.
-/
def applyMove (state : MillState) (source target : Node) (ctx : KeyContext) (action : Action)
    (adjudicate : Bool) : MillState × Option Key :=
  let side := sideIndex state.sideToMove
  let state := r.movePiece state source target side
  let custodian :=
    if r.options.custodianCapture.enabled && r.options.custodianCapture.inMovingPhase then
      detectCustodianTargets state r.options target
    else 0
  let intervention :=
    if r.options.interventionCapture.enabled && r.options.interventionCapture.inMovingPhase then
      detectInterventionTargets state r.options target
    else 0
  let leap :=
    if r.options.leapCapture.enabled && r.options.leapCapture.inMovingPhase then
      detectLeapTargets state r.options source target
    else 0
  let millBits := formedMillBitsAt state r.options target state.sideToMove
  let usableBits := usableMillBits state r.options millBits
  if leap ≠ 0 then
    ((armRemovals (state.activateCaptureState 0 0 leap) side 1 false).syncActionState, none)
  else if usableBits ≠ 0 then
    let state := armRemovals state side (removalCountForBits usableBits r.options) true
    let state := state.activateCaptureState custodian intervention 0
    ((noteMillFormation state side source.toI8 target.toI8 usableBits r.options).syncActionState,
      none)
  else if custodian ≠ 0 ∨ intervention ≠ 0 then
    (armCapture state side custodian intervention, none)
  else
    let state := moveQuiet state side
    let incrementalKey := if ctx.oldKey ≠ 0 then some (ctx.keyOf state action) else none
    (r.adjudicateQuiet state incrementalKey adjudicate,
      if adjudicate then none else incrementalKey)

/-! ## Remove -/

/-- Which obligation a removal discharges. -/
inductive RemovalMode where
  | intervention
  | custodian
  | leap
  /-- Not a capture target. -/
  | regular
deriving DecidableEq

/-- Which capture the target is of, or a mill. -/
def removalMode (state : MillState) (side : Side) (target : Node) : RemovalMode :=
  if testBit (state.interventionTargets side) target ∧ state.interventionCount side > 0 then
    .intervention
  else if testBit (state.custodianTargets side) target ∧ state.custodianCount side > 0 then
    .custodian
  else if testBit (state.leapTargets side) target ∧ state.leapCount side > 0 then .leap
  else .regular

/-- No custodian capture of the side is pending. -/
def clearCustodian (state : MillState) (side : Side) : MillState :=
  { state with
    custodianTargets := setAt state.custodianTargets side 0
    custodianCount := setAt state.custodianCount side 0 }

/-- No intervention capture of the side is pending. -/
def clearIntervention (state : MillState) (side : Side) : MillState :=
  { state with
    interventionTargets := setAt state.interventionTargets side 0
    interventionCount := setAt state.interventionCount side 0 }

/-- No leap capture of the side is pending. -/
def clearLeap (state : MillState) (side : Side) : MillState :=
  { state with
    leapTargets := setAt state.leapTargets side 0
    leapCount := setAt state.leapCount side 0 }

/-- Removing a target commits the side to one obligation and drops the others. -/
def commitRemoval (state : MillState) (side : Side) (mode : RemovalMode) : MillState :=
  let capTotal := state.captureTotal
  let remainingBefore := state.pendingRemovals side
  match mode with
  | .intervention =>
    let state := clearLeap (clearCustodian (state.setMillAvailableAtRemoval false) side) side
    (state.setPendingRemovals side (state.interventionCount side)).refreshZobristMiscForSide side
  | .custodian =>
    let state := clearLeap (clearIntervention (state.setMillAvailableAtRemoval false) side) side
    (state.setPendingRemovals side 1).refreshZobristMiscForSide side
  | .leap =>
    let state := clearIntervention
      (clearCustodian (state.setMillAvailableAtRemoval false) side) side
    (state.setPendingRemovals side 1).refreshZobristMiscForSide side
  | .regular =>
    if state.flags.millAvailableAtRemoval && capTotal > 0 then
      let state :=
        if r.options.mayRemoveMultiple && remainingBefore > capTotal then
          (state.setPendingRemovals side (remainingBefore - capTotal)).refreshZobristMiscForSide
            side
        else state
      (state.clearCaptureStateForSide side).setMillAvailableAtRemoval true
    else state

/-- Take the piece off the board, or mark it when the removal is delayed. -/
def takePiece (state : MillState) (target : Node) (targetColor : Side) (markPending : Bool) :
    MillState :=
  let state := updateMobilityRemove state r.options target
  if markPending then state.markBoardNodeInactive target
  else state.clearLivePiece target targetColor

/-- Strike the removed piece off the obligation it discharged. -/
def dischargeRemoval (state : MillState) (side : Side) (target : Node) (mode : RemovalMode) :
    MillState :=
  match mode with
  | .custodian =>
    let count := state.custodianCount side - 1
    { state with
      custodianCount := setAt state.custodianCount side count
      custodianTargets := setAt state.custodianTargets side
        (if count = 0 then 0 else state.custodianTargets side &&& ~~~nodeBit target) }
  | .intervention =>
    let count := state.interventionCount side - 1
    { state with
      interventionCount := setAt state.interventionCount side count
      interventionTargets := setAt state.interventionTargets side
        (if count = 0 then 0
        else findPairedInterventionTarget target
          ((state.interventionTargets side &&& ~~~nodeBit target) ||| nodeBit target) r.options) }
  | .leap =>
    let count := state.leapCount side - 1
    { state with
      leapCount := setAt state.leapCount side count
      leapTargets := setAt state.leapTargets side
        (if count = 0 then 0 else state.leapTargets side &&& ~~~nodeBit target) }
  | .regular => state

/-- All removals of the turn are done. -/
def finishRemovals (state : MillState) (side : Side) (removingOwn : Bool) : MillState :=
  let state := state.clearCaptureStateForSide side
  let state := if removingOwn then state.setRemoveOwnPiece side false else state
  let state :=
    if state.flags.stalemateRemoving then state.setStalemateRemoving false
    else { state with sideToMove := xorOne state.sideToMove }
  let state :=
    if state.flags.bothStalemateRemoving ∧ state.pendingRemovals 0 = 0
        ∧ state.pendingRemovals 1 = 0 then
      state.setBothStalemateRemoving false
    else state
  let state :=
    if state.flags.boardFullRemoving ∧ state.pendingRemovals 0 = 0
        ∧ state.pendingRemovals 1 = 0 then
      state.setBoardFullRemoving false
    else state
  r.endPlacingTurn state

/-- The writes of a removal, up to the point where its consequences are decided. -/
def removePiece (state : MillState) (target : Node) (side targetColor : Side)
    (removingOwn : Bool) : MillState :=
  let mode := removalMode state side target
  let state := r.commitRemoval state side mode
  let markPending : Bool :=
    r.options.millFormationActionInPlacingPhase = .markAndDelayRemovingPieces
      ∧ state.phase = .placing ∧ !removingOwn
  let state := r.takePiece state target targetColor markPending
  let state := { state with
    piecesOnBoard := setAt state.piecesOnBoard targetColor (state.piecesOnBoard targetColor - 1) }
  let state := (state.setPendingRemovals side
    (state.pendingRemovals side - 1)).refreshZobristMiscForSide side
  let state := r.dischargeRemoval state side target mode
  MillState.clearKeyHistory { state with plySinceCapture := 0 }

/-- The `Remove` branch. -/
def applyRemove (state : MillState) (target : Node) : MillState :=
  let side := sideIndex state.sideToMove
  let opponent := sideIndex (xorOne state.sideToMove)
  let removingOwn := state.flags.removeOwnPiece side
  let targetColor := if removingOwn then side else opponent
  let state := r.removePiece state target side targetColor removingOwn
  if state.piecesOnBoard targetColor + state.piecesInHand targetColor
      < r.options.piecesAtLeastCount then
    finishGame state (if removingOwn then opponent.toI8 else state.sideToMove) .loseFewerThanThree
  else if state.pendingRemovals side = 0 then r.finishRemovals state side removingOwn
  else state

/-! ## The general path -/

/-- The branch of the action's kind; an unknown kind does nothing. -/
def applyBranch (state : MillState) (ctx : KeyContext) (action : Action) (adjudicate : Bool) :
    MillState × Option Key :=
  if action.kindTag = MillActionKind.place.toI16 then
    match boardNode? action.toNode with
    | some target => (r.applyPlace state target, none)
    | none => (state, none)
  else if action.kindTag = MillActionKind.move.toI16 then
    match boardNode? action.fromNode, boardNode? action.toNode with
    | some source, some target => r.applyMove state source target ctx action adjudicate
    | _, _ => (state, none)
  else if action.kindTag = MillActionKind.remove.toI16 then
    match boardNode? action.toNode with
    | some target => (r.applyRemove state target, none)
    | none => (state, none)
  else (state, none)

/-- The stalemate rule and the key, after the branch. -/
def finishApply (branch : MillState × Option Key) (ctx : KeyContext) (action : Action) :
    MillState :=
  let (state, stalemateChanged) := maybeHandleStalemate branch.1 r.options
  let state := { state with keyHistoryLen := state.keyHistory.length }
  let recomputed := if ctx.oldKey = 0 then fullStateKey state else ctx.keyOf state action
  { state with
    zobristKey := match branch.2 with
      | some key => if stalemateChanged then recomputed else key
      | none => recomputed }

/-- The general path: the branch of the action, then the checks and the key. -/
def applyGeneral (state : MillState) (action : Action) (adjudicate : Bool) : MillState :=
  let ctx := KeyContext.capture r state action
  r.finishApply (r.applyBranch state ctx action adjudicate) ctx action

/-! ## Fast paths -/

/-- The side and the action are in the range every fast path needs. -/
def fastPathOpen (state : MillState) : Prop :=
  state.zobristKey ≠ 0 ∧ 0 ≤ state.sideToMove ∧ state.sideToMove < 2

instance (state : MillState) : Decidable (fastPathOpen state) :=
  inferInstanceAs (Decidable (_ ∧ _ ∧ _))

/-- `state.key_history_len = …; state.zobrist_key = …`, the tail of the three fast paths. -/
def finishFastPath (old state : MillState) (oldFromPiece oldToPiece : Int) (action : Action) :
    MillState :=
  let state := { state with keyHistoryLen := state.keyHistory.length }
  { state with
    zobristKey := keyAfterApplyFromChangedSquares old.zobristKey old.sideToMove oldFromPiece
      oldToPiece state action.fromNode action.toNode }

/-- A placement under the standard rules. -/
def standardPlace (old : MillState) (target : Node) (action : Action) : MillState :=
  let side := sideIndex old.sideToMove
  let state := r.placePiece old target side
  let millBits :=
    if old.piecesOnBoard side ≥ 2 then formedMillBitsStandardOccupied (state.byColorBb side) target
    else 0
  let state :=
    if millBits ≠ 0 then
      let state := armRemovals state side (removalCountForBits millBits r.options) true
      noteMillFormation state.syncActionState side (-1) target.toI8 millBits r.options
    else r.endPlacingTurn { state with sideToMove := xorOne state.sideToMove }
  let state :=
    if state.phase = .moving then (maybeHandleStalemate state r.options).1 else state
  finishFastPath old state 0 0 action

/-- The fast path of a placement, where it applies. -/
def tryApplyStandardPlaceFastPath (state : MillState) (action : Action) : Option MillState :=
  if action.kindTag = MillActionKind.place.toI16 ∧ state.phase = .placing
      ∧ r.standardFastPath = true ∧ fastPathOpen state then
    (boardNode? action.toNode).map fun target => r.standardPlace state target action
  else none

/-- A move under the standard rules, without adjudication. -/
def standardMove (old : MillState) (source target : Node) (action : Action) : MillState :=
  let side := sideIndex old.sideToMove
  let state := r.movePiece old source target side
  let state := { state with
    lastMillFrom := setAt state.lastMillFrom side (-1)
    lastMillTo := setAt state.lastMillTo side (-1)
    sideToMove := xorOne state.sideToMove }
  let state := (syncPhaseWithActiveHand state).syncActionState
  let state := (maybeHandleStalemate state r.options).1
  finishFastPath old state (old.sideToMove + 1) 0 action

/-- The fast path of a move in the search, where it applies. -/
def tryApplyStandardMoveSearchFastPath (state : MillState) (action : Action) :
    Option MillState :=
  if action.kindTag = MillActionKind.move.toI16 ∧ state.phase = .moving
      ∧ r.standardFastPath = true ∧ fastPathOpen state then
    match boardNode? action.fromNode, boardNode? action.toNode with
    | some source, some target =>
      -- a move that completes a mill goes through the general path
      if potentialMillsCountStandardUnrestricted (state.byColorBb (sideIndex state.sideToMove))
          target (some source) ≠ 0 then none
      else some (r.standardMove state source target action)
    | _, _ => none
  else none

/-- A removal under the standard rules, without adjudication. -/
def standardRemove (old : MillState) (target : Node) (action : Action) : MillState :=
  let side := sideIndex old.sideToMove
  let opponent := side.opponent
  let state := updateMobilityRemove old r.options target
  let state := state.clearLivePiece target opponent
  let state := { state with
    piecesOnBoard := setAt state.piecesOnBoard opponent (state.piecesOnBoard opponent - 1) }
  let state := armRemovals state side 0 false
  let state := MillState.clearKeyHistory { state with plySinceCapture := 0 }
  let state :=
    if state.piecesOnBoard opponent + state.piecesInHand opponent
        < r.options.piecesAtLeastCount then
      finishGame state old.sideToMove .loseFewerThanThree
    else r.endPlacingTurn { state with sideToMove := xorOne state.sideToMove }
  let state := (maybeHandleStalemate state r.options).1
  finishFastPath old state 0 (opponent.toI8 + 1) action

/-- The state owes exactly one default-rule mill removal. -/
def owesStandardRemoval (state : MillState) : Bool :=
  r.standardFastPath && state.delayedMarkedPieces = 0 && state.flags.millAvailableAtRemoval
    && !state.flags.stalemateRemoving && !state.flags.bothStalemateRemoving
    && !state.flags.boardFullRemoving
    && state.pendingRemovals (sideIndex state.sideToMove) = 1
    && !state.flags.removeOwnPiece (sideIndex state.sideToMove)
    && captureStateIsEmpty state

/-- The fast path of a removal in the search, where it applies. -/
def tryApplyStandardRemoveSearchFastPath (state : MillState) (action : Action) :
    Option MillState :=
  if action.kindTag = MillActionKind.remove.toI16 ∧ action.fromNode = -1
      ∧ r.owesStandardRemoval state = true ∧ fastPathOpen state then
    (boardNode? action.toNode).map fun target => r.standardRemove state target action
  else none

/-! ## Apply -/

/-- `apply_to_state_unchecked`: the first path that applies. -/
def applyToStateUnchecked (state : MillState) (action : Action) (adjudicate : Bool) : MillState :=
  match r.tryApplyStandardPlaceFastPath state action with
  | some applied => applied
  | none =>
    if adjudicate then r.applyGeneral state action adjudicate
    else match r.tryApplyStandardMoveSearchFastPath state action with
      | some applied => applied
      | none => match r.tryApplyStandardRemoveSearchFastPath state action with
        | some applied => applied
        | none => r.applyGeneral state action adjudicate

/-- `apply_to_state`: an out-of-range action is a no-op. -/
def applyToState (state : MillState) (action : Action) (adjudicate : Bool) : MillState :=
  if isActionWithinBoardBounds action.fromNode action.toNode then
    r.applyToStateUnchecked state action adjudicate
  else state

/-- `apply_search_to_state`. -/
def applySearchToState (state : MillState) (action : Action) : MillState :=
  r.applyToStateUnchecked state action false

/-! ## Repetition history from a snapshot stack -/

/-- The pieces on the board of a snapshot. -/
def snapshotMaterialCount (snapshot : GameStateSnapshot) : Nat :=
  snapshot.opaquePayload.readU8 26 + snapshot.opaquePayload.readU8 27

/-- How many keys a snapshot keeps. -/
def snapshotRepetitionWindowLen (snapshot : GameStateSnapshot) : Nat :=
  min (snapshot.opaquePayload.readU8 236) millRepetitionSnapshotWindow

/-- The serialized window bytes `44..44 + len * 8`. -/
def snapshotWindowBytes (snapshot : GameStateSnapshot) : List (BitVec 8) :=
  (List.range (snapshotRepetitionWindowLen snapshot * 8)).map fun k =>
    snapshot.opaquePayload.byte (44 + k)

/-- Two snapshots keep the same keys. -/
def snapshotRepetitionWindowsEqual (left right : GameStateSnapshot) : Bool :=
  snapshotRepetitionWindowLen left = snapshotRepetitionWindowLen right
    && snapshotWindowBytes left = snapshotWindowBytes right

/-- The last key that a snapshot keeps. -/
def snapshotLastRepetitionKey (snapshot : GameStateSnapshot) : Key :=
  snapshot.opaquePayload.readU64 (44 + (snapshotRepetitionWindowLen snapshot - 1) * 8)

/--
The backward scan of `repetition_history_from_snapshots`: `candidate` and the
snapshots before it, newest first. `reversed` holds the keys found so far.
-/
def scanRepetitionHistory (candidate : GameStateSnapshot) :
    List GameStateSnapshot → List Key → List Key
  | earlier, reversed =>
    if snapshotRepetitionWindowLen candidate = 0 then reversed
    else match earlier with
      | [] => reversed ++ [snapshotLastRepetitionKey candidate]
      | previous :: rest =>
        let reversed :=
          if snapshotRepetitionWindowsEqual previous candidate then reversed
          else reversed ++ [snapshotLastRepetitionKey candidate]
        if reversed.length = millRepetitionHistoryCap then reversed
        else if snapshotMaterialCount previous ≠ snapshotMaterialCount candidate then reversed
        else scanRepetitionHistory previous rest reversed

/-- `history` is chronological and does not include `snap`. -/
def repetitionHistoryFromSnapshots (snap : GameStateSnapshot) (history : List GameStateSnapshot) :
    List Key :=
  if history.isEmpty then (MillState.decode snap).keyHistory
  else (scanRepetitionHistory snap history.reverse []).reverse

/-- The keys of the positions before, as far back as a repetition can reach. -/
def hydrateRepetitionHistory (state : MillState) (snap : GameStateSnapshot)
    (history : List GameStateSnapshot) : MillState :=
  if !r.options.threefoldRepetitionRule then state
  else
    let rebuilt := repetitionHistoryFromSnapshots snap history
    if rebuilt.length > state.keyHistory.length then
      { state with keyHistory := rebuilt, keyHistoryLen := rebuilt.length }
    else state

/-! ## `GameRules for MillRules` -/

/-- The snapshot of the initial position. -/
def initialState : GameStateSnapshot :=
  MillState.encode
    { sideToMove := 0, phase := .placing, piecesInHand := fun _ => r.options.pieceCount }
    r.options

/-- The legal actions of a snapshot. -/
def legalActions (snap : GameStateSnapshot) : List Action :=
  legalActionsWithPriority (MillState.decodeWithOptions snap r.options) r.options
    defaultDensePriority

/-- `apply_with_history`; an action off the board changes nothing. -/
def applyWithHistory (snap : GameStateSnapshot) (action : Action)
    (history : List GameStateSnapshot) : GameStateSnapshot :=
  if !isActionWithinBoardBounds action.fromNode action.toNode then snap
  else
    let state := r.hydrateRepetitionHistory (MillState.decodeWithOptions snap r.options)
      snap history
    (r.applyToState state action true).encode r.options

/-- `apply`, with no history. -/
def apply (snap : GameStateSnapshot) (action : Action) : GameStateSnapshot :=
  r.applyWithHistory snap action []

/-- The outcome that a snapshot carries. -/
def outcome (snap : GameStateSnapshot) : Outcome :=
  let state := MillState.decodeWithOptions snap r.options
  if state.phase = .gameOver then
    if state.winner = 2 then
      { kind := .draw
        reason := match state.outcomeReason with
          | .drawFullBoard => "drawFullBoard"
          | .drawNMoveRule => "drawFiftyMove"
          | .drawFiftyMove => "drawFiftyMove"
          | .drawEndgameFiftyMove => "drawEndgameFiftyMove"
          | .drawThreefold => "drawThreefoldRepetition"
          | .drawStalemate => "drawStalemateCondition"
          | _ => "draw" }
    else
      { kind := .win state.winner
        reason := match state.outcomeReason with
          | .loseFullBoard => "loseFullBoard"
          | .loseFewerThanThree => "loseFewerThanThree"
          | .loseNoLegalMoves => "loseNoLegalMoves"
          | _ => "loseFewerThanThree" }
  else { kind := .ongoing, reason := "ongoing" }

end MillRules

/-!
## Logical turns

An action that forms a mill and the removals it earns are separate actions of one turn.
`legalLogicalTurns` lists the turns a position allows, each as the actions up to the
one that passes the turn or ends the game.
-/

/-- `LogicalTurnError`. -/
inductive LogicalTurnError where
  | invalidSideToMove (side : Int)
  | noLegalContinuation
  | continuationLimitExceeded
deriving DecidableEq, Repr

/-- `MAX_ACTIONS_PER_LOGICAL_TURN`. -/
def maxActionsPerLogicalTurn : Nat := 24

/-- `MillLogicalTurn`. -/
structure MillLogicalTurn where
  actions : List Action
  finalSnapshot : GameStateSnapshot

namespace MillRules

variable (r : MillRules)

/-- The turns that begin with `actions`, which lead to `snapshot`, after those found so far. -/
def enumerateContinuation (rootSide : Int) (snapshot : GameStateSnapshot)
    (history : List GameStateSnapshot) (actions : List Action) (turns : List MillLogicalTurn) :
    Except LogicalTurnError (List MillLogicalTurn) :=
  if hlimit : maxActionsPerLogicalTurn < actions.length then .error .continuationLimitExceeded
  else if snapshot.sideToMove ≠ rootSide ∨ (r.outcome snapshot).kind ≠ .ongoing then
    .ok (turns ++ [{ actions, finalSnapshot := snapshot }])
  else
    let legal := r.legalActions snapshot
    if legal.isEmpty then .error .noLegalContinuation
    else
      legal.foldlM (fun turns action =>
        enumerateContinuation rootSide (r.applyWithHistory snapshot action history)
          (history ++ [snapshot]) (actions ++ [action]) turns) turns
termination_by maxActionsPerLogicalTurn + 1 - actions.length
decreasing_by
  rw [List.length_append, List.length_singleton]
  omega

/-- `history` is chronological and excludes `snapshot`. -/
def legalLogicalTurns (snapshot : GameStateSnapshot) (history : List GameStateSnapshot) :
    Except LogicalTurnError (List MillLogicalTurn) :=
  let rootSide := snapshot.sideToMove
  if rootSide ≠ 0 ∧ rootSide ≠ 1 then .error (.invalidSideToMove rootSide)
  else if (r.outcome snapshot).kind ≠ .ongoing then .ok []
  else
    let legal := r.legalActions snapshot
    if legal.isEmpty then .error .noLegalContinuation
    else
      legal.foldlM (fun turns action =>
        r.enumerateContinuation rootSide (r.applyWithHistory snapshot action history)
          (history ++ [snapshot]) [action] turns) []

end MillRules

end Sanmill
