import Sanmill.Mill.LegalActions
import Sanmill.Mill.Setup

/-!
# The rules port of the front end

`NativeMillRulesPort` holds a kernel with its rules, and the snapshot of it that the front
end was last given. Every call that changes the kernel takes a new snapshot.
-/

namespace Sanmill

/-- The seats of a session. -/
inductive PlayerSeat where
  | none
  | first
  | second
deriving DecidableEq, Repr

/-- How a game stands. -/
inductive GameOutcome where
  | ongoing
  | draw
  | win (winner : PlayerSeat)
  | abandoned
deriving DecidableEq, Repr

/-- The game is over. -/
def GameOutcome.isTerminal (outcome : GameOutcome) : Bool := outcome ≠ .ongoing

/-- `MillActionTypes`, as far as the actions of a kernel have them. -/
inductive MillActionTypes where
  | place
  | move
  | remove
deriving DecidableEq, Repr

/-- An action of the front end, as `MillActionCodec.fromTgfAction` makes it. -/
structure GameAction where
  tgfAction : Action
deriving DecidableEq

namespace GameAction

/-- The type of an action, by its tag. -/
def type (action : GameAction) : MillActionTypes :=
  if action.tgfAction.kindTag = MillActionKind.place.toI16 then .place
  else if action.tgfAction.kindTag = MillActionKind.move.toI16 then .move
  else if action.tgfAction.kindTag = MillActionKind.remove.toI16 then .remove
  else .move

/-- `payload['move']`. -/
def move (action : GameAction) : Text := encodeAction action.tgfAction

end GameAction

/-- The snapshot of the front end; `raw` is what its payload holds of the kernel's. -/
structure SessionSnapshot where
  activeSeat : PlayerSeat
  outcome : GameOutcome
  lastAction : Option GameAction
  outcomeReason : String
  raw : GameStateSnapshot

/-- The seat of a side. -/
def seatFromSide (side : Int) : PlayerSeat :=
  if side = 0 then .first else if side = 1 then .second else .none

/-- The outcome of the rules as the session has it. -/
def outcomeFromTgf (outcome : Outcome) : GameOutcome :=
  match outcome.kind with
  | .win player => .win (seatFromSide player)
  | .draw => .draw
  | .ongoing => .ongoing

/-- `_snapshotFromKernel` and `_snapshotFromRaw`. -/
def snapshotFromKernel (rules : MillRules) (kernel : GameKernel) (lastAction : Option GameAction) :
    SessionSnapshot where
  activeSeat := seatFromSide kernel.state.sideToMove
  outcome := outcomeFromTgf (rules.outcome kernel.state)
  lastAction := lastAction
  outcomeReason := (rules.outcome kernel.state).reason
  raw := kernel.state

/-- The port to the rules: the kernel and the snapshot of it. -/
structure NativeMillRulesPort where
  rules : MillRules
  kernel : GameKernel
  snapshot : SessionSnapshot

namespace NativeMillRulesPort

/-- A port over a kernel, with its snapshot. -/
def ofKernel (rules : MillRules) (kernel : GameKernel) (lastAction : Option GameAction) :
    NativeMillRulesPort :=
  ⟨rules, kernel, snapshotFromKernel rules kernel lastAction⟩

/-- The constructor; `none` where the kernel refuses the options. -/
def new? (options : MillVariantOptions) : Option NativeMillRulesPort :=
  (MillRules.new? options).map fun rules => ofKernel rules (GameKernel.new rules.gameRules) none

variable (port : NativeMillRulesPort)

/-- `undoDepth` of the kernel. -/
def undoDepth : Nat := port.kernel.history.length

/-- `redoDepth` of the kernel. -/
def redoDepth : Nat := port.kernel.redoStack.length

/-- `legalActions` of the port: none once the game is over. -/
def legalActions : List GameAction :=
  if port.snapshot.outcome.isTerminal then []
  else (port.rules.legalActions port.kernel.state).map GameAction.mk

/-- `isLegal` of the port. -/
def isLegal (action : GameAction) : Bool :=
  (port.rules.legalActions port.kernel.state).contains action.tgfAction

/-! The calls below are `none` where the kernel returns an error. -/

/-- `apply` of the port; `none` where it throws. -/
def apply (action : GameAction) : Option NativeMillRulesPort :=
  (port.kernel.apply port.rules.gameRules action.tgfAction).map fun kernel =>
    ofKernel port.rules kernel (some action)

/-- `undo` of the port; `none` where nothing is left. -/
def undo : Option NativeMillRulesPort :=
  port.kernel.undo.map fun kernel => ofKernel port.rules kernel none

/-- `redo` of the port; `none` where nothing is left. -/
def redo : Option NativeMillRulesPort :=
  port.kernel.redo.map fun kernel => ofKernel port.rules kernel none

/-- `setupClear` of the port. -/
def setupClear : NativeMillRulesPort :=
  ofKernel port.rules (port.rules.setupClear port.kernel) none

/-- `setupSetPiece` of the port; `none` where it throws. -/
def setupSetPiece (node owner : Int) : Option NativeMillRulesPort :=
  (port.rules.setupSetPiece port.kernel node owner).map fun kernel =>
    ofKernel port.rules kernel none

/-- `setupSetSide` of the port. -/
def setupSetSide (side : Int) : NativeMillRulesPort :=
  ofKernel port.rules (port.rules.setupSetSide port.kernel side) none

/-- `setupFinish` of the port. -/
def setupFinish : NativeMillRulesPort :=
  ofKernel port.rules (port.rules.setupFinish port.kernel) none

/-- `setFromFen` of the port; `none` where the text is refused. -/
def setFromFen (fen : Text) : Option NativeMillRulesPort :=
  match port.rules.kernelSetFromFen port.kernel fen with
  | .error _ => none
  | .ok kernel => some (ofKernel port.rules kernel none)

/-- `exportFen` of the port. -/
def exportFen : Text := Sanmill.exportFen (MillState.decode port.kernel.state)

end NativeMillRulesPort

end Sanmill
