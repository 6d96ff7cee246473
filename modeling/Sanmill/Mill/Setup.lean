import Sanmill.Core.Game
import Sanmill.Mill.Fen
import Sanmill.Mill.LegalApply

/-!
# Setup editing

The calls of the front end that edit a position in place of playing it. Each builds a state
from the kernel's snapshot, or from a position text, and hands it to `replaceState`, which
clears the undo and the redo stack.
-/

namespace Sanmill

namespace MillState

/-- `MillState::empty`. -/
def empty (options : MillVariantOptions) : MillState :=
  { piecesInHand := fun _ => options.pieceCount }

/-- `set_piece`. -/
def setPiece (state : MillState) (node : Node) (owner : Int) : MillState :=
  state.setBoardNode node (if owner = 1 ∨ owner = 2 then owner else 0)

/-- `set_side_to_move`. -/
def setSideToMove (state : MillState) (side : Int) : MillState :=
  { state with sideToMove := if side = 0 ∨ side = 1 then side else 0 }

/-- The pieces of a colour on a board. -/
def countPieces (board : Node → Int) (piece : Int) : Nat :=
  (List.finRange 24).countP fun node => board node = piece

/-- `recompute_aux`: everything that follows from the board, and resets of the rest. -/
def recomputeAux (state : MillState) (options : MillVariantOptions) : MillState :=
  let onBoard : Side → Nat := perSide (countPieces state.board 1) (countPieces state.board 2)
  recomputeMobilityDiff
    { state with
      piecesOnBoard := onBoard
      piecesInHand := fun side => options.pieceCount - onBoard side
      winner := -1
      outcomeReason := .ongoing
      plySinceCapture := 0
      lastMillFrom := fun _ => -1
      lastMillTo := fun _ => -1
      usedMillLines := 0
      delayedMarkedPieces := 0
      byColorBb := bitboardsFromBoard state.board 0
      formedMillsBb := fun _ => 0
      custodianTargets := fun _ => 0
      interventionTargets := fun _ => 0
      leapTargets := fun _ => 0
      custodianCount := fun _ => 0
      interventionCount := fun _ => 0
      leapCount := fun _ => 0
      preferredRemoveTarget := -1
      flags := {}
      keyHistory := []
      keyHistoryLen := 0 } options

/-- `check_pieces_at_least`: the winner where a side is short of pieces. -/
def checkPiecesAtLeast (state : MillState) (options : MillVariantOptions) : Option Side :=
  if options.piecesAtLeastCount ≤ state.piecesOnBoard 0
      ∧ options.piecesAtLeastCount ≤ state.piecesOnBoard 1 then
    none
  else if state.piecesOnBoard 1 ≤ state.piecesOnBoard 0 then some 0
  else some 1

/-- The phase that `setup_finish` decides. -/
def setupPhase (state : MillState) (options : MillVariantOptions) : MillState :=
  if 0 < state.piecesInHand 0 ∨ 0 < state.piecesInHand 1 then { state with phase := .placing }
  else match state.checkPiecesAtLeast options with
    | some winner =>
      -- `set_winner` takes the move from both sides
      { state with
        phase := .gameOver
        winner := winner.toI8
        sideToMove := -1
        outcomeReason := .loseFewerThanThree }
    | none => { state with phase := .moving }

end MillState

namespace MillRules

variable (r : MillRules)

/-- The rules as the kernel sees them. -/
def gameRules : GameRules where
  initialState := r.initialState
  legalActions := r.legalActions
  applyWithHistory := r.applyWithHistory
  outcome := r.outcome

/-! ## `tgf_kernel_setup_*` -/

/-- `tgf_kernel_setup_clear`. -/
def setupClear (kernel : GameKernel) : GameKernel :=
  kernel.replaceState ((MillState.empty r.options).encode r.options)

/-- `tgf_kernel_setup_set_piece`; `none` for a node out of range. The owner is cut to `i8`. -/
def setupSetPiece (kernel : GameKernel) (node owner : Int) : Option GameKernel :=
  (boardNode? node).map fun target =>
    let state := (MillState.decode kernel.state).setPiece target (owner.bmod 256)
    kernel.replaceState ((state.recomputeAux r.options).encode r.options)

/-- `tgf_kernel_setup_set_side`. -/
def setupSetSide (kernel : GameKernel) (side : Int) : GameKernel :=
  let state := (MillState.decode kernel.state).setSideToMove (max 0 (min side 1))
  kernel.replaceState (state.encode r.options)

/-- `tgf_kernel_setup_finish`. -/
def setupFinish (kernel : GameKernel) : GameKernel :=
  let state := (MillState.decode kernel.state).recomputeAux r.options
  kernel.replaceState ((state.setupPhase r.options).encode r.options)

/-- `tgf_kernel_set_from_fen`. -/
def kernelSetFromFen (kernel : GameKernel) (fen : Text) : Except String GameKernel :=
  (setFromFen r.options fen).map fun state => kernel.replaceState (state.encode r.options)

end MillRules

end Sanmill
