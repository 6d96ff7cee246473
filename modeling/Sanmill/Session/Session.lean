import Sanmill.Session.RulesPort

/-!
# The game session of the front end

`NativeMillGameSession` publishes a snapshot of the kernel and keeps, beside the kernel's
undo and redo stacks, the numbers that the pieces got when they were placed. A result that
the rules cannot see, such as a resignation, is laid over the snapshot until the next
transition.

An assertion of the source has no effect here, as in the builds that are shipped.
-/

namespace Sanmill

/-- The numbers of the pieces by their nodes. -/
structure MillPieceNumberState where
  lastPlacedNumber : Nat
  byNode : Int → Option Nat

namespace MillPieceNumberState

/-- No piece has a number. -/
def empty : MillPieceNumberState := ⟨0, fun _ => none⟩

/-- The numbers after an action: a placed piece gets the next one. -/
def after (numbers : MillPieceNumberState) (action : GameAction) : MillPieceNumberState :=
  let fromNode := action.tgfAction.fromNode
  let toNode := action.tgfAction.toNode
  match action.type with
  | .place =>
    { lastPlacedNumber := numbers.lastPlacedNumber + 1
      byNode := Function.update numbers.byNode toNode (some (numbers.lastPlacedNumber + 1)) }
  | .move =>
    -- the number of the origin, or none, replaces that of the target
    { numbers with
      byNode := Function.update (Function.update numbers.byNode fromNode none) toNode
        (numbers.byNode fromNode) }
  | .remove => { numbers with byNode := Function.update numbers.byNode toNode none }

end MillPieceNumberState

/-- `_pieceNumberHistory`, which has always a last entry: those before it, and the last. -/
structure PieceNumberHistory where
  before : List MillPieceNumberState
  last : MillPieceNumberState

/-- The numbers kept, the current ones included. -/
def PieceNumberHistory.length (history : PieceNumberHistory) : Nat := history.before.length + 1

/-- A session: the port, the snapshot shown, and the numbers of the pieces. -/
structure NativeMillGameSession where
  rulesPort : NativeMillRulesPort
  state : SessionSnapshot
  /-- A result is laid over the snapshot. -/
  forcedTerminal : Bool
  pieceNumberHistory : PieceNumberHistory
  pieceNumberRedo : List MillPieceNumberState

namespace NativeMillGameSession

/-- The session that a port starts. -/
def fromPort (rulesPort : NativeMillRulesPort) : NativeMillGameSession :=
  ⟨rulesPort, rulesPort.snapshot, false, ⟨[], .empty⟩, []⟩

variable (session : NativeMillGameSession)

/-- How many actions can be undone. -/
def undoDepth : Nat := session.rulesPort.undoDepth

/-- How many undone actions can be redone. -/
def redoDepth : Nat := session.rulesPort.redoDepth

/-- The FEN of the kernel's position. -/
def getFen : Text := session.rulesPort.exportFen

/-- `legalActions`: none once the shown outcome is final. -/
def legalActions : List GameAction :=
  if session.state.outcome.isTerminal then [] else session.rulesPort.legalActions

/-! ## The published state and the numbers -/

/-- Shows a snapshot. -/
def setState (next : SessionSnapshot) (forcedTerminal : Bool) : NativeMillGameSession :=
  { session with state := next, forcedTerminal }

/-- Publish the snapshot of the port. -/
def publish : NativeMillGameSession := session.setState session.rulesPort.snapshot false

/-- Keeps the numbers before an action and adds those after it. -/
def recordPieceNumbersAfter (action : GameAction) : NativeMillGameSession :=
  { session with
    pieceNumberHistory :=
      ⟨session.pieceNumberHistory.before ++ [session.pieceNumberHistory.last],
        session.pieceNumberHistory.last.after action⟩
    pieceNumberRedo := [] }

/-- The numbers go one action back. -/
def undoPieceNumbers : NativeMillGameSession :=
  match session.pieceNumberHistory.before.getLast? with
  | none => session
  | some numbers =>
    { session with
      pieceNumberHistory := ⟨session.pieceNumberHistory.before.dropLast, numbers⟩
      pieceNumberRedo := session.pieceNumberRedo ++ [session.pieceNumberHistory.last] }

/-- The numbers go one action forward. -/
def redoPieceNumbers : NativeMillGameSession :=
  match session.pieceNumberRedo.getLast? with
  | none => session
  | some numbers =>
    { session with
      pieceNumberHistory :=
        ⟨session.pieceNumberHistory.before ++ [session.pieceNumberHistory.last], numbers⟩
      pieceNumberRedo := session.pieceNumberRedo.dropLast }

/-- The numbers start again. -/
def resetPieceNumbers : NativeMillGameSession :=
  { session with pieceNumberHistory := ⟨[], .empty⟩, pieceNumberRedo := [] }

/-- The session over another port. -/
def withPort (rulesPort : NativeMillRulesPort) : NativeMillGameSession :=
  { session with rulesPort }

/-! ## Operations

Each returns the session, and whether the call succeeded: it is `false` where the source
returns false, throws, or emits that it ignored the call.
-/

def resetGame (rules : Option MillVariantOptions) : NativeMillGameSession × Bool :=
  let session := session.resetPieceNumbers
  match rules with
  | some options =>
    match NativeMillRulesPort.new? options with
    | none => (session, false)
    | some port => ((session.withPort port).publish, true)
  | none => ((session.withPort session.rulesPort.setupClear.setupFinish).publish, true)

/-- The board is cleared. -/
def setupClear : NativeMillGameSession :=
  ((session.withPort session.rulesPort.setupClear).resetPieceNumbers).publish

/-- A node gets a piece, or none. -/
def setupSetPiece (node owner : Int) : NativeMillGameSession × Bool :=
  match session.rulesPort.setupSetPiece node owner with
  | none => (session, false)
  | some port => (((session.withPort port).resetPieceNumbers).publish, true)

/-- The numbers are not reset here, and not in `setupFinish`. -/
def setupSetSide (side : Int) : NativeMillGameSession :=
  (session.withPort (session.rulesPort.setupSetSide side)).publish

/-- The setup ends. -/
def setupFinish : NativeMillGameSession :=
  (session.withPort session.rulesPort.setupFinish).publish

/-- The position of a text. -/
def loadFen (fen : Text) : NativeMillGameSession × Bool :=
  match session.rulesPort.setFromFen fen with
  | none => (session, false)
  | some port => (((session.withPort port).resetPieceNumbers).publish, true)

/-- `forceTerminal`: an outcome is laid over the snapshot. -/
def forceTerminal (outcome : GameOutcome) (reason : Option String) : NativeMillGameSession :=
  session.setState
    { session.state with
      outcome := outcome
      outcomeReason := reason.getD session.state.outcomeReason } true

/-- `alreadyMatched`: the action is the object that the last search returned. -/
def applyNow (action : GameAction) (alreadyMatched : Bool) : NativeMillGameSession × Bool :=
  if session.forcedTerminal then (session, false)
  else if !alreadyMatched && !session.rulesPort.isLegal action then (session, false)
  else match session.rulesPort.apply action with
    | none => (session, false)
    | some port => (((session.withPort port).recordPieceNumbersAfter action).publish, true)

/-- `applyMoveString`: the legal action with this text. -/
def applyMoveString (move : Text) : NativeMillGameSession × Bool :=
  match session.legalActions.find? fun action => action.move = move with
  | none => (session, false)
  | some action => session.applyNow action false

/-- The loop of `restoreMoveStrings`: the kernel and the numbers, not the published state. -/
def restoreMoves : List Text → NativeMillGameSession → NativeMillGameSession × Bool
  | [], session => (session, true)
  | move :: rest, session =>
    match session.rulesPort.legalActions.find? fun action => action.move = move with
    | none => (session, false)
    | some action =>
      match session.rulesPort.apply action with
      | none => (session, false)
      | some port => restoreMoves rest ((session.withPort port).recordPieceNumbersAfter action)

/-- A list of moves, published once at its end. -/
def restoreMoveStrings (moves : List Text) : NativeMillGameSession × Bool :=
  match restoreMoves moves session with
  | (session, false) => (session, false)
  | (session, true) => (session.publish, true)

/-- One action back. -/
def undo : NativeMillGameSession × Bool :=
  match session.rulesPort.undo with
  | none => (session, false)
  | some port => (((session.withPort port).undoPieceNumbers).publish, true)

/-- One action forward. -/
def redo : NativeMillGameSession × Bool :=
  match session.rulesPort.redo with
  | none => (session, false)
  | some port => (((session.withPort port).redoPieceNumbers).publish, true)

/-- The loop of `replayMainline` back to the root; every undo takes one entry off the stack. -/
def undoToRoot : Nat → NativeMillGameSession → NativeMillGameSession
  | 0, session => session
  | fuel + 1, session =>
    if session.undoDepth > 0 then undoToRoot fuel session.undo.1 else session

/-- The loop of `replayMainline` over the moves. -/
def replayMoves : List Text → NativeMillGameSession → NativeMillGameSession × Bool
  | [], session => (session, true)
  | move :: rest, session =>
    match session.legalActions.find? fun action => action.move = move with
    | none => (session, false)
    | some action => replayMoves rest (session.applyNow action false).1

/-- `replayMainline`, from the root or from a position. -/
def replayMainline (moves : List Text) (initialFen : Option Text) :
    NativeMillGameSession × Bool :=
  match initialFen with
  | none => replayMoves moves (undoToRoot session.undoDepth session)
  | some fen =>
    let replayRoot := Text.dartTrim fen
    if replayRoot.isEmpty then replayMoves moves (session.resetGame none).1
    else match session.loadFen replayRoot with
      | (session, false) => (session, false)
      | (session, true) => replayMoves moves session

end NativeMillGameSession

/-- A call of the session. -/
inductive SessionOp where
  | apply (action : GameAction) (alreadyMatched : Bool)
  | applyMoveString (move : Text)
  | undo
  | redo
  | resetGame (rules : Option MillVariantOptions)
  | setupClear
  | setupSetPiece (node owner : Int)
  | setupSetSide (side : Int)
  | setupFinish
  | loadFen (fen : Text)
  | restoreMoveStrings (moves : List Text)
  | replayMainline (moves : List Text) (initialFen : Option Text)
  | forceTerminal (outcome : GameOutcome) (reason : Option String)

/-- The session after a call. -/
def NativeMillGameSession.perform (session : NativeMillGameSession) :
    SessionOp → NativeMillGameSession × Bool
  | .apply action alreadyMatched => session.applyNow action alreadyMatched
  | .applyMoveString move => session.applyMoveString move
  | .undo => session.undo
  | .redo => session.redo
  | .resetGame rules => session.resetGame rules
  | .setupClear => (session.setupClear, true)
  | .setupSetPiece node owner => session.setupSetPiece node owner
  | .setupSetSide side => (session.setupSetSide side, true)
  | .setupFinish => (session.setupFinish, true)
  | .loadFen fen => session.loadFen fen
  | .restoreMoveStrings moves => session.restoreMoveStrings moves
  | .replayMainline moves initialFen => session.replayMainline moves initialFen
  | .forceTerminal outcome reason => (session.forceTerminal outcome reason, true)

end Sanmill
