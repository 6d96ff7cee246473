import Sanmill.Mill.Setup
import Sanmill.PerfectDb.Database

/-!
# Positions and queries

`queryFromState` is the database's view of a state of the game, and
`snapshotFromPerfectQuery` rebuilds a state from the view: the board and the hands are read
off, the phase and the obligation are derived again. Both are for the option sets the database
has been computed for.
-/

namespace Sanmill

namespace MillState

/-- `set_pieces_in_hand`; `none` where an assertion fails. -/
def setPiecesInHand (state : MillState) (hands : Side → Nat) (options : MillVariantOptions) :
    Option MillState :=
  if ∀ side, hands side ≤ options.pieceCount
      ∧ state.piecesOnBoard side + hands side ≤ options.pieceCount then
    some { state with piecesInHand := hands }
  else none

/-- `set_pending_removal`. -/
def setPendingRemoval (state : MillState) (side : Side) (count : Nat) : MillState :=
  let state := state.setPendingRemovals side count
  if state.sideToMove = side.toI8 then state.refreshZobristMiscForSide side else state

end MillState

namespace PerfectDb

/-! ## Option sets -/

/-- Why the options have no database. -/
inductive PerfectDatabaseRuleMismatch where
  | commonRules
  | variantShape (pieceCount : Nat) (hasDiagonalLines mayMoveInPlacingPhase : Bool)
deriving DecidableEq

/-- The rules that all databases share. -/
def matchesPerfectDatabaseCommonRules (options : MillVariantOptions) : Bool :=
  options.flyPieceCount = 3
    && options.piecesAtLeastCount = 3
    && options.millFormationActionInPlacingPhase = .removeOpponentsPieceFromBoard
    && options.boardFullAction = .firstPlayerLose
    && !options.restrictRepeatedMillsFormation
    && options.stalemateAction = .endWithStalemateLoss
    && options.mayFly
    && !options.mayRemoveFromMillsAlways
    && !options.mayRemoveMultiple
    && !options.custodianCapture.enabled
    && !options.interventionCapture.enabled
    && !options.leapCapture.enabled
    && !options.oneTimeUseMill

/-- The variant of the options, or what does not match. -/
def DatabaseVariant.matchMillOptions (options : MillVariantOptions) :
    Except PerfectDatabaseRuleMismatch DatabaseVariant :=
  if !matchesPerfectDatabaseCommonRules options then .error .commonRules
  else match options.pieceCount, options.hasDiagonalLines, options.mayMoveInPlacingPhase with
    | 9, false, false => .ok standard
    | 10, false, true => .ok lasker
    | 12, true, false => .ok morabaraba
    | pieceCount, hasDiagonalLines, mayMoveInPlacingPhase =>
      .error (.variantShape pieceCount hasDiagonalLines mayMoveInPlacingPhase)

/-- The variant of the options, if they have one. -/
def DatabaseVariant.fromMillOptions (options : MillVariantOptions) : Option DatabaseVariant :=
  (matchMillOptions options).toOption

/-! ## Coordinates -/

/-- `PERFECT_TO_SQUARE`. -/
def perfectToSquare : List Nat :=
  [30, 31, 24, 25, 26, 27, 28, 29, 22, 23, 16, 17, 18, 19, 20, 21, 14, 15, 8, 9, 10, 11, 12, 13]

/-- The `square` of a node of the topology: node `n` is `SQ_(n + 8)`. -/
def nodeSquare (node : Node) : Nat := node + 8

/-- `node_to_perfect_index`: the place of the node's square in the table. -/
def nodeToPerfectIndex (node : Node) : Nat := perfectToSquare.idxOf (nodeSquare node)

/-- `perfect_to_node_index`, the table the other way round. -/
def perfectToNodeIndex (perfectIdx : Fin 24) : Node :=
  ((List.finRange 24).find? fun node => nodeToPerfectIndex node = perfectIdx).getD 0

/-- `bitboards_from_state`. -/
def bitboardsFromState (state : MillState) : Nat × Nat :=
  (List.finRange 24).foldl
    (fun (bits : Nat × Nat) (node : Node) =>
      let mask := 1 <<< nodeToPerfectIndex node
      if state.board node = 1 then (bits.1 ||| mask, bits.2)
      else if state.board node = 2 then (bits.1, bits.2 ||| mask)
      else bits) (0, 0)

/-! ## The two directions -/

/--
`query_from_state`: `some none` where the database does not know the option set,
`none` where an assertion fails.
-/
def queryFromState (state : MillState) (options : MillVariantOptions) (sideToMove : Int) :
    Option (Option PerfectQuery) :=
  if (DatabaseVariant.fromMillOptions options).isNone then some none
  else if ¬(sideToMove = 0 ∨ sideToMove = 1) then none
  else
    let bits := bitboardsFromState state
    let side := sideIndex sideToMove
    (PerfectQuery.new bits.1 bits.2 (state.piecesInHand 0) (state.piecesInHand 1) side
      (0 < state.pendingRemovals side)).map some

/-- The `set_piece` calls. -/
def placeQueryPieces (state : MillState) (query : PerfectQuery) : MillState :=
  (List.finRange 24).foldl
    (fun (state : MillState) (perfectIdx : Fin 24) =>
      if query.whiteBits.testBit perfectIdx then state.setPiece (perfectToNodeIndex perfectIdx) 1
      else if query.blackBits.testBit perfectIdx then
        state.setPiece (perfectToNodeIndex perfectIdx) 2
      else state) state

/-- The phase of a rebuilt state: while either hand holds a piece, placing. -/
def setQueryPhase (state : MillState) (options : MillVariantOptions) (query : PerfectQuery) :
    MillState :=
  if query.whiteInHand > 0 ∨ query.blackInHand > 0 then { state with phase := .placing }
  else if !query.onlyStoneTaking then
    match state.checkPiecesAtLeast options with
    | some winner =>
      { state with
        phase := .gameOver
        winner := winner.toI8
        sideToMove := -1
        outcomeReason := .loseFewerThanThree }
    | none => { state with phase := .moving }
  else { state with phase := .moving }

/-- The state `snapshot_from_perfect_query` encodes; `none` where an assertion fails. -/
def stateFromPerfectQuery (r : MillRules) (options : MillVariantOptions) (query : PerfectQuery) :
    Option MillState := do
  let state := placeQueryPieces (MillState.empty r.options) query
  let state := state.recomputeAux options
  let state ← state.setPiecesInHand (perSide query.whiteInHand query.blackInHand) options
  let state := state.setSideToMove query.sideToMove
  let state := setQueryPhase state options query
  some (if query.onlyStoneTaking then state.setPendingRemoval (sideIndex query.sideToMove) 1
    else state)

/-- `snapshot_from_perfect_query`. -/
def snapshotFromPerfectQuery (r : MillRules) (options : MillVariantOptions)
    (query : PerfectQuery) : Option GameStateSnapshot :=
  (stateFromPerfectQuery r options query).map fun state => state.encode r.options

end PerfectDb

end Sanmill
