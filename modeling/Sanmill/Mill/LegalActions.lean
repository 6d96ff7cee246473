import Sanmill.Core.Action
import Sanmill.Lib.Text
import Sanmill.Mill.Evaluation
import Sanmill.Mill.Transitions

/-!
# Move generation and stalemate

The generators for the three kinds of action, and `maybeHandleStalemate`, which
decides what happens to a side without a move.

The runtime list and the search list differ only in the order in which nodes are
tried, so both are `legalActionsWithPriority` at their own priority. An action
list of the source has a fixed capacity and panics past it; a list here has none.
-/

namespace Sanmill

open Bits

/-- A placement on the node. -/
def placeAction (target : Node) : Action where
  kindTag := MillActionKind.place.toI16
  fromNode := -1
  toNode := target.toI8
  aux := -1
  payloadBits := 0

/-- A move between two nodes. -/
def moveAction (source target : Node) : Action where
  kindTag := MillActionKind.move.toI16
  fromNode := source.toI8
  toNode := target.toI8
  aux := -1
  payloadBits := 0

/-- A removal from the node. -/
def removeAction (target : Node) : Action where
  kindTag := MillActionKind.remove.toI16
  fromNode := -1
  toNode := target.toI8
  aux := -1
  payloadBits := 0

/-! ## Node orders -/

/-- The search order of the board without diagonals: middle-ring crosses first. -/
def priorityNoDiagonal : List Node :=
  [8, 10, 12, 14, 16, 18, 20, 22, 0, 2, 4, 6, 9, 11, 13, 15, 17, 19, 21, 23, 1, 3, 5, 7]

/-- The order of the nodes on the board with diagonals. -/
def priorityDiagonal : List Node :=
  [9, 11, 13, 15, 17, 19, 21, 23, 1, 3, 5, 7, 8, 10, 12, 14, 16, 18, 20, 22, 0, 2, 4, 6]

/-- `static_move_priority_for_search` under the default search context. -/
def staticMovePriorityForSearch (options : MillVariantOptions) : List Node :=
  if options.hasDiagonalLines then priorityDiagonal else priorityNoDiagonal

/-- The nodes in their own order. -/
def defaultDensePriority : List Node := List.finRange 24

/-- Destinations of a flying piece, in legacy square order. -/
def legacySquareOrderNodes : List Node := List.finRange 24

/-! ## Moves -/

/-- Moving back out of a mill into another one is forbidden by the repeated-mill rule. -/
def isRestrictedRepeatedMill (state : MillState) (options : MillVariantOptions)
    (source target : Node) : Bool :=
  if !options.restrictRepeatedMillsFormation then false
  else if ¬(0 ≤ state.sideToMove ∧ state.sideToMove < 2) then false
  else
    let side := sideIndex state.sideToMove
    let lastFrom := state.lastMillFrom side
    let lastTo := state.lastMillTo side
    if lastFrom < 0 ∨ lastTo < 0 then false
    else if source.toI8 ≠ lastTo ∨ target.toI8 ≠ lastFrom then false
    else if potentialMillsCountAt state options source state.sideToMove none = 0 then false
    else potentialMillsCountAt state options target state.sideToMove (some source) > 0

/-- `can_fly`: nothing in hand and few enough pieces. -/
def canFly (state : MillState) (options : MillVariantOptions) (allowFly : Bool) : Bool :=
  let side := sideIndex state.sideToMove
  allowFly && options.mayFly && state.piecesInHand side = 0
    && state.piecesOnBoard side ≤ options.flyPieceCount

/-- A leap over a piece is a move; who flies does not leap. -/
def leapEnabled (state : MillState) (options : MillVariantOptions) (allowFly : Bool) : Bool :=
  !canFly state options allowFly && state.piecesInHand (sideIndex state.sideToMove) = 0
    && options.leapCapture.enabled
    && capturePhaseAllowed options.leapCapture state.phase
    && capturePieceCountAllowedLeap options.leapCapture state
    && (state.phase = .moving
      || (state.phase = .placing && options.mayMoveInPlacingPhase
        && options.leapCapture.inPlacingPhase))

/-- The neighbours that a piece can step to. -/
def emptyNeighbors (state : MillState) (options : MillVariantOptions) (source : Node) : Bitboard :=
  neighborMaskFor source options.hasDiagonalLines &&& ~~~state.boardOccupiedBitboard

/-- The destinations of `source` when no mark, restriction or leap is in play. -/
def plainMoveTargets (state : MillState) (options : MillVariantOptions) (fly : Bool)
    (source : Node) : List Node :=
  if fly then
    legacySquareOrderNodes.filter fun target : Node => !testBit state.boardOccupiedBitboard target
  else
    (topologyNeighbors options.hasDiagonalLines source).filter fun target : Node =>
      testBit (emptyNeighbors state options source) target

/-- The far end of one leap line, when `source` may leap along it. -/
def leapTarget? (state : MillState) (options : MillVariantOptions) (source : Node)
    (line : Line) : Option Node :=
  let occupied := state.boardOccupiedBitboard
  let opponentBb := state.byColorBb (sideIndex state.sideToMove).opponent
  let mayLeapTo (target : Node) : Bool :=
    !isRestrictedRepeatedMill state options source target
      && leapCaptureTargetIsRemovable state options line.b
  if source = line.a ∧ !testBit occupied line.c ∧ testBit opponentBb line.b then
    if mayLeapTo line.c then some line.c else none
  else if source = line.c ∧ !testBit occupied line.a ∧ testBit opponentBb line.b
      ∧ mayLeapTo line.a then
    some line.a
  else none

/-- The destinations of `source` in general. -/
def filteredMoveTargets (state : MillState) (options : MillVariantOptions) (fly leap : Bool)
    (source : Node) : List Node :=
  if fly then
    legacySquareOrderNodes.filter fun target : Node =>
      !testBit state.boardOccupiedBitboard target
        && !isRestrictedRepeatedMill state options source target
  else
    let empty := emptyNeighbors state options source
    if empty = 0 ∧ ¬leap then []
    else
      ((topologyNeighbors options.hasDiagonalLines source).filter fun target : Node =>
        testBit empty target && !isRestrictedRepeatedMill state options source target)
      ++ if leap then
          (activeCaptureLines options.leapCapture options).filterMap
            (leapTarget? state options source)
        else []

/-- `generate_move_actions`, source by source; flights and leaps come last. -/
def generateMoveActionsWithPriority (state : MillState) (options : MillVariantOptions)
    (allowFly : Bool) (priority : List Node) : List Action :=
  let fly := canFly state options allowFly
  let leap := leapEnabled state options allowFly
  let sources := priority.reverse.filter fun source : Node =>
    testBit (state.byColorBb (sideIndex state.sideToMove)) source
  if state.delayedMarkedPieces = 0 ∧ !options.restrictRepeatedMillsFormation ∧ !leap then
    sources.flatMap fun source =>
      (plainMoveTargets state options fly source).map (moveAction source)
  else
    sources.flatMap fun source =>
      (filteredMoveTargets state options fly leap source).map (moveAction source)

/-! ## Removals -/

/-- Only the adjacency filter applies, not mill protection. -/
def isStalemateRemovalContext (state : MillState) (options : MillVariantOptions) : Bool :=
  if state.flags.stalemateRemoving || state.flags.bothStalemateRemoving then true
  else
    (options.stalemateAction = .removeOpponentsPieceAndMakeNextMove
      || options.stalemateAction = .removeOpponentsPieceAndChangeSideToMove
      || options.stalemateAction = .bothPlayersRemoveOpponentsPiece)
    && state.phase = .moving && 0 ≤ state.sideToMove
    && state.pendingRemovals (sideIndex state.sideToMove) > 0
    && isAllSurrounded state options state.sideToMove

/-- `node` passes the filters of a regular removal of a `targetPiece`. -/
def isRegularRemoveTarget (state : MillState) (options : MillVariantOptions) (targetPiece : Int)
    (excludedTargets : Bitboard) (node : Node) : Bool :=
  let targetBb := state.pieceBitboard targetPiece
  let stalemateRemoval := isStalemateRemovalContext state options
  let removingOwn : Bool := 0 ≤ state.sideToMove ∧ targetPiece = state.sideToMove + 1
  let useMillProtection := !options.mayRemoveFromMillsAlways && !stalemateRemoval
  let millMembers :=
    if useMillProtection then millMembersMaskForPiece state options targetPiece else 0
  let hasNonMillTarget := useMillProtection && targetBb &&& ~~~millMembers ≠ 0
  testBit targetBb node && !testBit excludedTargets node
    && if stalemateRemoval then
        removingOwn || isAdjacentToSidePiece state options node
      else
        !(!options.mayRemoveFromMillsAlways && hasNonMillTarget && testBit millMembers node)

/-- The removals that mills allow, in the reverse of the order. -/
def generateRegularRemoveActionsForPiece (state : MillState) (options : MillVariantOptions)
    (targetPiece : Int) (excludedTargets : Bitboard) (priority : List Node) : List Action :=
  (priority.reverse.filter fun node : Node =>
    isRegularRemoveTarget state options targetPiece excludedTargets node).map removeAction

/-- The removals of captured pieces. -/
def generateCaptureRemoveActions (state : MillState) (targets : Bitboard) : List Action :=
  (maskNodes (targets &&& state.pieceBitboard state.opponentPiece)).map removeAction

/-- The union of the capture targets of the side to move. -/
def captureTargetsOfActive (state : MillState) : Bitboard :=
  if 0 ≤ state.sideToMove ∧ state.sideToMove < 2 then
    let us := sideIndex state.sideToMove
    state.custodianTargets us ||| state.interventionTargets us ||| state.leapTargets us
  else 0

/-- `generate_remove_actions`: captures alone where no mill is owed for. -/
def generateRemoveActions (state : MillState) (options : MillVariantOptions)
    (priority : List Node) : List Action :=
  let us := sideIndex state.sideToMove
  let captureTargets := captureTargetsOfActive state
  let captures :=
    if captureTargets ≠ 0 then generateCaptureRemoveActions state captureTargets else []
  if captureTargets ≠ 0 ∧ state.pendingRemovals us ≤ state.captureTotal then captures
  else if state.flags.removeOwnPiece us then
    captures
      ++ generateRegularRemoveActionsForPiece state options (state.sideToMove + 1) 0 priority
  else
    captures
      ++ generateRegularRemoveActionsForPiece state options state.opponentPiece captureTargets
          priority

/-! ## Legal actions -/

/-- The placements, one for each empty node. -/
def generatePlaceActions (state : MillState) (priority : List Node) : List Action :=
  if state.piecesInHand (sideIndex state.sideToMove) > 0 then
    (priority.filter fun node : Node => !testBit state.boardOccupiedBitboard node).map placeAction
  else []

/-- The body shared by `legal_actions` and `legal_actions_ctx`. -/
def legalActionsWithPriority (state : MillState) (options : MillVariantOptions)
    (priority : List Node) : List Action :=
  match state.actionForLegalGeneration with
  | .remove =>
    if state.pendingRemovals (sideIndex state.sideToMove) > 0 then
      generateRemoveActions state options priority
    else []
  | .place =>
    generatePlaceActions state priority
      ++ if options.mayMoveInPlacingPhase then
          generateMoveActionsWithPriority state options false priority
        else []
  | .select =>
    if state.phase = .moving then generateMoveActionsWithPriority state options true priority
    else []
  | .gameOver => []

/-! ## Stalemate -/

/-- What the stalemate rule does to the side to move. -/
def applyStalemateAction (state : MillState) (options : MillVariantOptions) : MillState :=
  let side := sideIndex state.sideToMove
  match options.stalemateAction with
  | .endWithStalemateLoss =>
    { state with
      phase := .gameOver, winner := xorOne state.sideToMove, outcomeReason := .loseNoLegalMoves }
  | .changeSideToMove =>
    syncPhaseWithActiveHand { state with sideToMove := xorOne state.sideToMove }
  | .removeOpponentsPieceAndMakeNextMove =>
    ((state.setPendingRemovals side 1).setStalemateRemoving true).clearCaptureState
  | .removeOpponentsPieceAndChangeSideToMove =>
    (state.setPendingRemovals side 1).clearCaptureState
  | .endWithStalemateDraw =>
    { state with phase := .gameOver, winner := 2, outcomeReason := .drawStalemate }
  | .bothPlayersRemoveOpponentsPiece =>
    (((state.setPendingRemovals side 1).setPendingRemovals side.opponent
      1).setBothStalemateRemoving true).clearCaptureState

/-- The side to move has no board move and owes no removal. -/
def isStalemated (state : MillState) (options : MillVariantOptions) : Bool :=
  if state.phase ≠ .moving ∨ state.sideToMove < 0 then false
  else
    let side := sideIndex state.sideToMove
    if state.pendingRemovals side ≠ 0 then false
    else if options.mayFly && state.piecesOnBoard side ≤ options.flyPieceCount
        && state.piecesOnBoard 0 + state.piecesOnBoard 1 < 24 then false
    else isAllSurrounded state options state.sideToMove

/-- Returns the new state and whether the stalemate rule fired. -/
def maybeHandleStalemate (state : MillState) (options : MillVariantOptions) : MillState × Bool :=
  if isStalemated state options then
    ((applyStalemateAction state options).syncActionState, true)
  else (state, false)

/-!
## Move notation

A point is named by its file and rank, `a7` to `g1`. A placement is written as the
point, a move as two points with a dash, a removal with a leading `x`.
-/

/-- `standard_nodes`, as far as it names the points. -/
def nodeLabels : List Text :=
  ["d5", "e5", "e4", "e3", "d3", "c3", "c4", "c5", "d6", "f6", "f4", "f2", "d2", "b2", "b4", "b6",
    "d7", "g7", "g4", "g1", "d1", "a1", "a4", "a7"].map String.toList

/-- The name of a node. -/
def labelOf (node : Node) : Text := nodeLabels.getD node.val []

/-- The file letter may be upper case. -/
def nodeFromLabel (label : Text) : Option Node :=
  match label with
  | [file, rank] => (List.finRange 24).find? fun node => labelOf node = [Char.toLower file, rank]
  | _ => none

/-- `encode_action`; the source indexes the table and panics on a number that is no node. -/
def encodeAction (action : Action) : Text :=
  let label (node : Int) : Text := ((boardNode? node).map labelOf).getD []
  if action.kindTag = MillActionKind.place.toI16 then label action.toNode
  else if action.kindTag = MillActionKind.move.toI16 then
    label action.fromNode ++ '-' :: label action.toNode
  else if action.kindTag = MillActionKind.remove.toI16 then 'x' :: label action.toNode
  else []

/-- `decode_action`, which does not look at the position. -/
def decodeAction (text : Text) : Option Action :=
  let trimmed := Text.trim text
  match trimmed with
  | [] => none
  | first :: rest =>
    if first = 'x' ∨ first = 'X' then (nodeFromLabel rest).map removeAction
    else match Text.splitOnce '-' trimmed with
      | some (source, target) => do
        let f ← nodeFromLabel source
        let t ← nodeFromLabel target
        some (moveAction f t)
      | none => (nodeFromLabel trimmed).map placeAction

end Sanmill
