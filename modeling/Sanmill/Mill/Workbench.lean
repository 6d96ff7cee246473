import Sanmill.Mill.LegalApply

/-!
# The search workbench

`MillWorkbench` owns a `MillState` and a stack of undo records. A record stores
only what the action can change under the options in force: two board cells or the
whole board, a reduced block of scalars on the standard path, and either a length
to truncate the repetition history to or a copy of it.
-/

namespace Sanmill

/-! ## Undo records -/

/-- The board before an action: the cells it touches, or all of it. -/
inductive MillBoardUndo where
  | delta (cells : List (Node × Int))
  | full (board : Node → Int)

namespace MillBoardUndo

/-- An action may write cells that it does not name. -/
def requiresFullBoardSnapshot (state : MillState) (options : MillVariantOptions) : Bool :=
  state.delayedMarkedPieces ≠ 0
    || options.millFormationActionInPlacingPhase = .markAndDelayRemovingPieces
    || options.millFormationActionInPlacingPhase = .removalBasedOnMillCounts
    || options.custodianCapture.enabled
    || options.interventionCapture.enabled
    || options.leapCapture.enabled

/-- Remember the cell of `node` unless it is no node or already remembered. -/
def pushCell (cells : List (Node × Int)) (state : MillState) (node : Int) : List (Node × Int) :=
  match boardNode? node with
  | none => cells
  | some s => if cells.any fun cell => cell.1 = s then cells else cells ++ [(s, state.board s)]

/-- What restores the board after the action. -/
def capture (state : MillState) (action : Action) (options : MillVariantOptions) :
    MillBoardUndo :=
  if requiresFullBoardSnapshot state options then full state.board
  else delta (pushCell (pushCell [] state action.fromNode) state action.toNode)

/-- The board before the action. -/
def restoreBoard (undo : MillBoardUndo) (state : MillState) : MillState :=
  match undo with
  | delta cells =>
    { state with board := cells.foldl (fun board cell => setAt board cell.1 cell.2) state.board }
  | full board => { state with board := board }

end MillBoardUndo

/-- The block restored on the standard path; capture extensions and marks stay outside it. -/
structure MillStandardUndoScalars where
  zobristKey : Key
  keyHistoryLen : Nat
  byColorBb : Side → Bitboard
  usedMillLines : Bitboard
  mobilityDiff : Int
  moveNumber : BitVec 16
  plySinceCapture : Nat
  piecesInHand : Side → Nat
  piecesOnBoard : Side → Nat
  pendingRemovals : Side → Nat
  lastMillFrom : Side → Int
  lastMillTo : Side → Int
  phase : MillPhase
  sideToMove : Int
  winner : Int
  action : MillActionState
  flags : MillStateFlags
  outcomeReason : MillOutcomeReason

namespace MillStandardUndoScalars

/-- The fields that every action may write. -/
def capture (state : MillState) : MillStandardUndoScalars where
  zobristKey := state.zobristKey
  keyHistoryLen := state.keyHistoryLen
  byColorBb := state.byColorBb
  usedMillLines := state.usedMillLines
  mobilityDiff := state.mobilityDiff
  moveNumber := state.moveNumber
  plySinceCapture := state.plySinceCapture
  piecesInHand := state.piecesInHand
  piecesOnBoard := state.piecesOnBoard
  pendingRemovals := state.pendingRemovals
  lastMillFrom := state.lastMillFrom
  lastMillTo := state.lastMillTo
  phase := state.phase
  sideToMove := state.sideToMove
  winner := state.winner
  action := state.action
  flags := state.flags
  outcomeReason := state.outcomeReason

/-- These fields as they were. -/
def restore (undo : MillStandardUndoScalars) (state : MillState) : MillState :=
  { state with
    zobristKey := undo.zobristKey
    keyHistoryLen := undo.keyHistoryLen
    byColorBb := undo.byColorBb
    usedMillLines := undo.usedMillLines
    mobilityDiff := undo.mobilityDiff
    moveNumber := undo.moveNumber
    plySinceCapture := undo.plySinceCapture
    piecesInHand := undo.piecesInHand
    piecesOnBoard := undo.piecesOnBoard
    pendingRemovals := undo.pendingRemovals
    lastMillFrom := undo.lastMillFrom
    lastMillTo := undo.lastMillTo
    phase := undo.phase
    sideToMove := undo.sideToMove
    winner := undo.winner
    action := undo.action
    flags := undo.flags
    outcomeReason := undo.outcomeReason }

end MillStandardUndoScalars

/-- What undoes an action under the standard rules. -/
structure MillStandardUndo where
  board : MillBoardUndo
  scalars : MillStandardUndoScalars

/-- `MillUndoFullCore`: the standard scalars and every capture-extension field. -/
structure MillUndoFullCore where
  board : MillBoardUndo
  scalars : MillStandardUndoScalars
  delayedMarkedPieces : Bitboard
  formedMillsBb : Side → Bitboard
  custodianTargets : Side → Bitboard
  interventionTargets : Side → Bitboard
  leapTargets : Side → Bitboard
  custodianCount : Side → Nat
  interventionCount : Side → Nat
  leapCount : Side → Nat
  preferredRemoveTarget : Int

/-- What undoes an action, apart from the key history. -/
inductive MillUndoCore where
  | standard (undo : MillStandardUndo)
  | full (undo : MillUndoFullCore)

namespace MillUndoFullCore

/-- Every field that an action may write. -/
def capture (state : MillState) (action : Action) (options : MillVariantOptions) :
    MillUndoFullCore where
  board := MillBoardUndo.capture state action options
  scalars := MillStandardUndoScalars.capture state
  delayedMarkedPieces := state.delayedMarkedPieces
  formedMillsBb := state.formedMillsBb
  custodianTargets := state.custodianTargets
  interventionTargets := state.interventionTargets
  leapTargets := state.leapTargets
  custodianCount := state.custodianCount
  interventionCount := state.interventionCount
  leapCount := state.leapCount
  preferredRemoveTarget := state.preferredRemoveTarget

/-- Every field as it was. -/
def restore (undo : MillUndoFullCore) (state : MillState) : MillState :=
  let state := undo.scalars.restore (undo.board.restoreBoard state)
  { state with
    delayedMarkedPieces := undo.delayedMarkedPieces
    formedMillsBb := undo.formedMillsBb
    custodianTargets := undo.custodianTargets
    interventionTargets := undo.interventionTargets
    leapTargets := undo.leapTargets
    custodianCount := undo.custodianCount
    interventionCount := undo.interventionCount
    leapCount := undo.leapCount
    preferredRemoveTarget := undo.preferredRemoveTarget }

end MillUndoFullCore

namespace MillStandardUndo

/-- The short form, where the rules and the state allow it. -/
def capture? (state : MillState) (action : Action) (options : MillVariantOptions)
    (standardFastPath : Bool) : Option MillStandardUndo :=
  if !standardFastPath ∨ state.delayedMarkedPieces ≠ 0 ∨ !captureStateIsEmpty state then none
  else some
    { board := MillBoardUndo.capture state action options
      scalars := MillStandardUndoScalars.capture state }

/-- The state before the action; under these rules no piece was marked. -/
def restore (undo : MillStandardUndo) (state : MillState) : MillState :=
  { undo.scalars.restore (undo.board.restoreBoard state) with delayedMarkedPieces := 0 }

end MillStandardUndo

namespace MillUndoCore

/-- The short form if it will do. -/
def capture (state : MillState) (action : Action) (options : MillVariantOptions)
    (standardFastPath : Bool) : MillUndoCore :=
  match MillStandardUndo.capture? state action options standardFastPath with
  | some undo => standard undo
  | none => full (MillUndoFullCore.capture state action options)

/-- The state before the action. -/
def restore (undo : MillUndoCore) (state : MillState) : MillState :=
  match undo with
  | standard undo => undo.restore state
  | full undo => undo.restore state

end MillUndoCore

/-- The key history before an action: its length, or all of it. -/
inductive MillKeyHistoryUndo where
  | truncate (len : Nat)
  | restore (history : List Key)

/-- What `do_move` keeps for `undo_move`. -/
structure MillUndoState where
  core : MillUndoCore
  keyHistory : MillKeyHistoryUndo

namespace MillUndoState

/-- What undoes an action; one that clears the key history saves it. -/
def capture (state : MillState) (action : Action) (options : MillVariantOptions)
    (standardFastPath : Bool) : MillUndoState :=
  let clearsHistory : Bool :=
    action.kindTag = MillActionKind.place.toI16 ∨ action.kindTag = MillActionKind.remove.toI16
  let mustRestoreHistory : Bool :=
    state.keyHistory.length = millRepetitionHistoryCap
      ∨ (clearsHistory ∧ state.keyHistory ≠ [])
  { core := MillUndoCore.capture state action options standardFastPath
    keyHistory :=
      if mustRestoreHistory then .restore state.keyHistory
      else .truncate state.keyHistory.length }

/-- The state before the action. -/
def restore (undo : MillUndoState) (state : MillState) : MillState :=
  let state := match undo.keyHistory with
    | .truncate len => { state with keyHistory := state.keyHistory.take len }
    | .restore history => { state with keyHistory := history }
  undo.core.restore state

end MillUndoState

/-! ## The workbench -/

/-- `MILL_SEARCH_STACK_CAPACITY`. -/
def millSearchStackCapacity : Nat := 128

/-- The state that the search works on, and how to take its actions back. -/
structure MillWorkbench where
  rules : MillRules
  state : MillState
  undoStack : List MillUndoState

/-- `MillGame`: the options, and the keys of the positions before the root. -/
structure MillGame where
  options : MillVariantOptions
  rootRepetitionHistory : List Key := []

namespace MillWorkbench

/-- The state as a snapshot. -/
def snapshot (wb : MillWorkbench) : GameStateSnapshot := wb.state.encode wb.rules.options

/-- The side to move on the workbench. -/
def sideToMove (wb : MillWorkbench) : Int := wb.state.sideToMove

/-- The game is over on the workbench. -/
def isTerminal (wb : MillWorkbench) : Bool := wb.state.phase = .gameOver

/-- `none` where the source asserts: the undo stack is full. -/
def doMove (wb : MillWorkbench) (a : Action) : Option MillWorkbench :=
  if wb.undoStack.length < millSearchStackCapacity then
    some { wb with
      state := wb.rules.applySearchToState wb.state a
      undoStack :=
        MillUndoState.capture wb.state a wb.rules.options wb.rules.standardFastPath
          :: wb.undoStack }
  else none

/-- `undo_move`; nothing happens at the root. -/
def undoMove (wb : MillWorkbench) : MillWorkbench :=
  match wb.undoStack with
  | undo :: rest => { wb with state := undo.restore wb.state, undoStack := rest }
  | [] => wb

end MillWorkbench

namespace MillGame

/-- `none` where `MillRules::new` panics. -/
def buildWorkbench (game : MillGame) (snap : GameStateSnapshot) : Option MillWorkbench :=
  (MillRules.new? game.options).map fun rules =>
    let state := MillState.decodeWithOptions snap rules.options
    { rules := rules
      state :=
        if game.rootRepetitionHistory.length > state.keyHistory.length then
          { state with
            keyHistory := game.rootRepetitionHistory
            keyHistoryLen := game.rootRepetitionHistory.length }
        else state
      undoStack := [] }

/-- What `generate_legal` pushes: `legal_actions_ctx` at the default context. Its list holds 72. -/
def generateLegal (wb : MillWorkbench) : List Action :=
  legalActionsWithPriority wb.state wb.rules.options (staticMovePriorityForSearch wb.rules.options)

/-- `MILL_TERMINAL_WIN_SCORE`. -/
def millTerminalWinScore : Int := 80

/-- `VALUE_DRAW + 1`, the score of a repetition. -/
def repetitionDrawBias : Int := 1

/-- The score of a finished game, for the side that asks. -/
def terminalScore (wb : MillWorkbench) (perspective : Int) (depth : Int) : Option Int :=
  if wb.state.phase = .gameOver ∧ wb.state.winner = 2 then
    if wb.state.outcomeReason = .drawThreefold then some repetitionDrawBias else some 0
  else if wb.state.phase ≠ .gameOver then none
  else if wb.state.winner = perspective then some (millTerminalWinScore + max depth 0)
  else some (-millTerminalWinScore - max depth 0)

end MillGame

end Sanmill
