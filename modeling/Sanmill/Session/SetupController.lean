import Sanmill.Record.Transform
import Sanmill.Session.Session

/-!
# The setup editor of the front end

`MillSetupPositionController` edits a position on a board of its own. Every edit writes the
board, the side, the phase, one count of placed pieces and the removals it was asked for
into a position text and loads the text into the session. The hands are not edited: they
are derived from the count of placed pieces.
-/

namespace Sanmill

open Bits

/-- What may stand on a node; `nobody` and `draw` are written as empty nodes. -/
inductive PieceColor where
  | none
  | white
  | black
  | marked
  | nobody
  | draw
deriving DecidableEq, Repr

/-- The phases the editor can be in. -/
inductive Phase where
  | placing
  | moving
deriving DecidableEq, Repr

/-- The colour of a side. -/
def Side.pieceColor (side : Side) : PieceColor := if side = 0 then .white else .black

/-- `MillMarkedPiecesCodec.markedNodesFromOpaquePayload`, as a test. -/
def isMarkedInPayload (payload : Payload) (node : Node) : Bool := testBit (payload.readU32 39) node

/-- `int.tryParse`, on decimal texts. -/
def intTryParse (text : Text) : Option Int := Text.parseSigned (-(2 ^ 63)) (2 ^ 63 - 1) text

/--
The rule settings stand for the options of the kernel. `_lastSyncValid` is what the last
`sync` returned and is only read right after it.
-/
structure MillSetupPositionController where
  session : NativeMillGameSession
  ruleSettings : MillVariantOptions
  board : Node → PieceColor := fun _ => .none
  paintColor : PieceColor := .white
  sideToMove : Side := 0
  phase : Phase := .placing
  /-- `setNeedRemove` lets a side owe three removals at most. -/
  needRemove : Side → Fin 4 := fun _ => 0
  placedCount : Nat := 0
  backupFen : Option Text := none

namespace MillSetupPositionController

variable (controller : MillSetupPositionController)

/-- `piecesCount` of the rules. -/
def piecesCount : Nat := controller.ruleSettings.pieceCount

/-- Only rules that delay removals have marked pieces. -/
def supportsMarkedPiece : Bool :=
  controller.ruleSettings.millFormationActionInPlacingPhase = .markAndDelayRemovingPieces

/-- The pieces of a colour on the board. -/
def countOnBoard (color : PieceColor) : Nat :=
  (List.finRange 24).countP fun node => controller.board node = color

/-- The pieces on the board. -/
def totalOnBoard : Nat := (List.finRange 24).countP fun node => controller.board node ≠ .none

/-! ## Writing -/

/-- `_pieceChar`. -/
def pieceChar : PieceColor → Char
  | .white => 'O'
  | .black => '@'
  | .marked => 'X'
  | .none | .nobody | .draw => '*'

/-- `_buildBoardField`. -/
def buildBoardField : Text :=
  joinRanks ((List.finRange 24).map fun node => pieceChar (controller.board node))

/-- `placingInHandCounts`: the hands of white and of black. -/
def placingInHandCounts (piecesCount placedCount : Nat) (sideToMove : Side) : Side → Nat :=
  let clampedPlaced := min placedCount piecesCount
  let blackInHand := min (piecesCount - clampedPlaced) piecesCount
  if sideToMove = 0 then perSide blackInHand blackInHand
  else perSide (min (blackInHand - 1) piecesCount) blackInHand

/-- `_inHandCounts`: in the moving phase the missing pieces were captured. -/
def inHandCounts : Side → Nat :=
  match controller.phase with
  | .moving => fun _ => 0
  | .placing =>
    placingInHandCounts controller.piecesCount controller.placedCount controller.sideToMove

/-- The fields of `_buildFen`. -/
def fenFields : List Text :=
  let activeRemove := controller.needRemove controller.sideToMove
  [ controller.buildBoardField,
    [if controller.sideToMove = 1 then 'b' else 'w'],
    [match controller.phase with
      | .moving => 'm'
      | .placing => 'p'],
    [if 0 < activeRemove.val then 'r'
      else match controller.phase with
      | .placing => 'p'
      | .moving => 's'],
    Text.decimal (controller.countOnBoard .white),
    Text.decimal (controller.inHandCounts 0),
    Text.decimal (controller.countOnBoard .black),
    Text.decimal (controller.inHandCounts 1),
    Text.decimal (controller.needRemove 0).val,
    Text.decimal (controller.needRemove 1).val,
    "-1".toList, "-1".toList, "-1".toList, "-1".toList,
    "0".toList, "0".toList, "1".toList,
    nodeIdFenMarker ]

/-- `_buildFen`. -/
def buildFen : Text := Text.joinBlank controller.fenFields

/-- `_sync`. -/
def sync : MillSetupPositionController × Bool :=
  let loaded := controller.session.loadFen controller.buildFen
  ({ controller with session := loaded.1 }, loaded.2)

/-! ## Reading -/

/-- `_readBoardFromSession`. -/
def readBoardFromSession : MillSetupPositionController :=
  let raw := controller.session.state.raw.opaquePayload
  { controller with
    board := fun node =>
      if isMarkedInPayload raw node then .marked
      else if raw.readU8 node = 1 then .white
      else if raw.readU8 node = 2 then .black
      else .none }

/-- The side and the phase of the published snapshot. -/
def readSideAndPhase : MillSetupPositionController :=
  let side : Side := if controller.session.state.activeSeat = .second then 1 else 0
  { controller with
    sideToMove := side
    phase :=
      if controller.session.state.raw.phaseTag = MillPhase.moving.toI16 then .moving else .placing
    paintColor := side.pieceColor }

/-- `inferPlacedCountFromBoard`. -/
def inferPlacedCountFromBoard : Nat :=
  match controller.phase with
  | .moving => controller.piecesCount
  | .placing =>
    let white := controller.countOnBoard .white
    let black := controller.countOnBoard .black
    let begin := if white > black then white else black
    let begin := if controller.sideToMove = 1 ∧ white > black then begin - 1 else begin
    min begin controller.piecesCount

/-- The placed count as the board suggests it. -/
def updatePlacedCountFromBoard : MillSetupPositionController :=
  { controller with placedCount := controller.inferPlacedCountFromBoard }

/-- `_readPlacedCountFromSessionFen`. -/
def readPlacedCountFromSessionFen : MillSetupPositionController :=
  match controller.phase with
  | .moving => { controller with placedCount := controller.piecesCount }
  | .placing =>
    match (controller.session.getFen.splitOn ' ')[7]? with
    | none => controller.updatePlacedCountFromBoard
    | some part =>
      match intTryParse part with
      | none => controller.updatePlacedCountFromBoard
      | some blackInHand =>
        let placed : Int := controller.piecesCount - blackInHand
        { controller with placedCount := (min (max placed 0) controller.piecesCount).toNat }

/-- `initFromSession`: the editor takes over the position of the session. -/
def initFromSession : MillSetupPositionController :=
  let controller := { controller with backupFen := some controller.session.getFen }
  let controller := controller.readBoardFromSession.readSideAndPhase
  { controller with needRemove := fun _ => 0 }.readPlacedCountFromSessionFen

/-! ## Edits -/

/-- The paint decides the side to move, where it is a colour. -/
def setPaintColor (color : PieceColor) : MillSetupPositionController :=
  let controller := { controller with paintColor := color }
  match color with
  | .white => { controller with sideToMove := 0 }.sync.1
  | .black => { controller with sideToMove := 1 }.sync.1
  | _ => controller

/-- The next paint of the cycle. -/
def cyclePaintColor : MillSetupPositionController :=
  match controller.paintColor with
  | .white => controller.setPaintColor .black
  | .black =>
    controller.setPaintColor
      (if controller.supportsMarkedPiece && controller.phase = .placing then .marked else .none)
  | .marked => controller.setPaintColor .none
  | .none | .nobody | .draw => controller.setPaintColor .white

/-- The phase is chosen; paint that it does not have is dropped. -/
def setPhase (next : Phase) : MillSetupPositionController :=
  let controller := { controller with phase := next }
  let controller :=
    if next ≠ .placing ∧ controller.paintColor = .marked then
      { controller with paintColor := controller.sideToMove.pieceColor }
    else controller
  let controller :=
    match next with
    | .moving => { controller with placedCount := controller.piecesCount }
    | .placing => controller.updatePlacedCountFromBoard
  controller.sync.1

/-- The placed count is chosen, while pieces are placed. -/
def setPlacedCount (count : Int) : MillSetupPositionController :=
  match controller.phase with
  | .moving => controller
  | .placing =>
    { controller with
      placedCount := (min (max count 0) controller.piecesCount).toNat }.sync.1

/-- A point can be painted while it is empty and the colour has a piece left. -/
def mayPaint (node : Node) : Bool :=
  controller.board node = .none
    && if controller.paintColor = .marked then controller.totalOnBoard < controller.piecesCount * 2
      else controller.countOnBoard controller.paintColor < controller.piecesCount

/-- `tapNode`: paints a node, or clears it. -/
def tapNode (node : Int) : MillSetupPositionController :=
  match boardNode? node with
  | none => controller
  | some node =>
    if controller.paintColor = .none then
      ({ controller with board := setAt controller.board node .none }
        ).updatePlacedCountFromBoard.sync.1
    else if controller.mayPaint node then
      ({ controller with board := setAt controller.board node controller.paintColor }
        ).updatePlacedCountFromBoard.sync.1
    else controller

/-- The count `setNeedRemove` stores. -/
def clampedRemove (side : Side) (count : Int) : Fin 4 :=
  let opponentOnBoard := controller.countOnBoard side.opponent.pieceColor
  let bound := if opponentOnBoard < 3 then opponentOnBoard else 3
  ⟨min count.toNat bound, by
    have : bound ≤ 3 := by
      dsimp only [bound]
      split <;> omega
    omega⟩

/-- A colour without a side is ignored. -/
def setNeedRemove (color : PieceColor) (count : Int) : MillSetupPositionController :=
  let owe (side : Side) : MillSetupPositionController :=
    { controller with
      needRemove := setAt (setAt controller.needRemove side (controller.clampedRemove side count))
        side.opponent 0 }.sync.1
  match color with
  | .white => owe 0
  | .black => owe 1
  | _ => controller

/-- An empty board. -/
def clear : MillSetupPositionController :=
  ({ controller with
    board := fun _ => .none
    needRemove := fun _ => 0 }).updatePlacedCountFromBoard.sync.1

/-- A text too short to be turned would be an exception; the session writes none. -/
def transform (type : Recorder.TransformationType) : MillSetupPositionController :=
  match Recorder.transformFEN controller.session.getFen type with
  | none => controller
  | some transformed =>
    match controller.session.loadFen transformed with
    | (session, false) => { controller with session }
    | (session, true) =>
      ({ controller with session }).readBoardFromSession.updatePlacedCountFromBoard

/-- The controller after `exportFen`, and the text. -/
def exportFen : MillSetupPositionController × Text :=
  (controller.sync.1, controller.sync.1.session.getFen)

/-- The position of a text from the clipboard. -/
def pasteFen (fen : Text) : MillSetupPositionController × Bool :=
  match controller.session.loadFen (Text.dartTrim fen) with
  | (session, false) => ({ controller with session }, false)
  | (session, true) =>
    let controller := ({ controller with session }).readBoardFromSession.readSideAndPhase
    (controller.readPlacedCountFromSessionFen, true)

/-! ## Completion -/

/-- Back to the text of the position the editor was opened on. -/
def cancel : MillSetupPositionController :=
  match controller.backupFen with
  | none => controller
  | some backup => { controller with session := (controller.session.loadFen backup).1 }

/-- `_isCompletablePosition`. -/
def isCompletablePosition : Bool :=
  let onWhite := controller.countOnBoard .white
  let onBlack := controller.countOnBoard .black
  let inHand := controller.inHandCounts
  let minimum := controller.ruleSettings.piecesAtLeastCount
  if onWhite + inHand 0 + onBlack + inHand 1 = 0 then false
  else if controller.phase = .moving
      ∧ (onWhite + inHand 0 < minimum ∨ onBlack + inHand 1 < minimum) then false
  else if controller.phase = .placing ∧ controller.needRemove controller.sideToMove = 0
      ∧ inHand controller.sideToMove = 0 then false
  else true

/-- The controller after `commit`, and the committed text. -/
def commit : MillSetupPositionController × Option Text :=
  if !controller.isCompletablePosition then (controller, none)
  else match controller.sync with
    | (controller, false) => (controller, none)
    | (controller, true) => (controller, some controller.session.getFen)

end MillSetupPositionController

/-- An edit; those that ask for a text or a result too. -/
inductive SetupEdit where
  | setPaintColor (color : PieceColor)
  | cyclePaintColor
  | setPhase (next : Phase)
  | setPlacedCount (count : Int)
  | tapNode (node : Int)
  | setNeedRemove (color : PieceColor) (count : Int)
  | clear
  | transform (type : Recorder.TransformationType)
  | exportFen
  | pasteFen (fen : Text)
  | commit

namespace MillSetupPositionController

/-- The editor after a call. -/
def edited (controller : MillSetupPositionController) : SetupEdit → MillSetupPositionController
  | .setPaintColor color => controller.setPaintColor color
  | .cyclePaintColor => controller.cyclePaintColor
  | .setPhase next => controller.setPhase next
  | .setPlacedCount count => controller.setPlacedCount count
  | .tapNode node => controller.tapNode node
  | .setNeedRemove color count => controller.setNeedRemove color count
  | .clear => controller.clear
  | .transform type => controller.transform type
  | .exportFen => controller.exportFen.1
  | .pasteFen fen => (controller.pasteFen fen).1
  | .commit => controller.commit.1

/-- The editor after a list of calls. -/
def editAll (controller : MillSetupPositionController) (edits : List SetupEdit) :
    MillSetupPositionController :=
  edits.foldl edited controller

end MillSetupPositionController

end Sanmill
