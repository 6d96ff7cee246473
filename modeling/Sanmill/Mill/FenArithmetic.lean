import Sanmill.Lib.Fallible
import Sanmill.Mill.Fen

/-!
# Position texts read with checked arithmetic

`setFromFen` computes as a release build does, where a value that leaves its type wraps around.
Here such a value panics. Two computations can do that: the full-move number is doubled in `i32`,
and the terminal checks add the piece counts of the board in `u8`.
-/

namespace Sanmill

/-! ## Checked operations -/

/-- An `i32`, or a panic. -/
def checkedI32 (value : Int) : Option Int :=
  if i32Min ≤ value ∧ value ≤ i32Max then some value else none

/-- Addition in `i16`, or a panic. -/
def checkedAddI16 (a b : BitVec 16) : Option (BitVec 16) :=
  if a.saddOverflow b then none else some (a + b)

/-- Addition in `u8`, or a panic. -/
def checkedAddU8 (a b : Nat) : Option Nat := if a + b ≤ 255 then some (a + b) else none

/-! ## The terminal checks -/

/-- `is_all_surrounded`; the counts are added anew for a flying side. -/
def isAllSurrounded? (state : MillState) (options : MillVariantOptions) (side : Int) :
    Option Bool :=
  if ¬(0 ≤ side ∧ side ≤ 1) then some false
  else do
    let s := sideIndex side
    let occupied ← checkedAddU8 (state.piecesOnBoard 0) (state.piecesOnBoard 1)
    if occupied ≥ 24 then some true
    else if options.mayFly && state.piecesOnBoard s ≤ options.flyPieceCount then do
      let occupied ← checkedAddU8 (state.piecesOnBoard 0) (state.piecesOnBoard 1)
      some (occupied ≥ 24)
    else
      some ((maskNodes (state.byColorBb s)).all fun source =>
        isPieceSurrounded state options s source)

/-- A flying side with an empty node left is not scanned. -/
def isStalemated? (state : MillState) (options : MillVariantOptions) : Option Bool :=
  if state.phase ≠ .moving ∨ state.sideToMove < 0 then some false
  else
    let side := sideIndex state.sideToMove
    if state.pendingRemovals side ≠ 0 then some false
    else if options.mayFly && state.piecesOnBoard side ≤ options.flyPieceCount then do
      let occupied ← checkedAddU8 (state.piecesOnBoard 0) (state.piecesOnBoard 1)
      if occupied < 24 then some false else isAllSurrounded? state options state.sideToMove
    else isAllSurrounded? state options state.sideToMove

/-- `maybe_handle_stalemate`; `none` where a sum overflows. -/
def maybeHandleStalemate? (state : MillState) (options : MillVariantOptions) :
    Option (MillState × Bool) := do
  let stalemated ← isStalemated? state options
  if stalemated then some ((applyStalemateAction state options).syncActionState, true)
  else some (state, false)

/-- `check_if_game_is_over`; `none` where a sum overflows. -/
def checkIfGameIsOver? (state : MillState) (options : MillVariantOptions) : Option MillState :=
  if state.phase = .gameOver ∨ state.sideToMove < 0 then some state
  else
    let state := maybeFinishFullBoard state options
    if state.phase = .gameOver then some state
    else
      let state := maybeDrawByNMoveRule state options true
      if state.phase = .gameOver then some state
      else match if state.phase = .moving then shortSide? state options else none with
        | some side => some (finishGame state side.opponent.toI8 .loseFewerThanThree)
        | none => (maybeHandleStalemate? state options).map Prod.fst

/-! ## Reading -/

/-- Fields 1 to 16, which are read before any extension token. -/
def parseFenFields (fields : List Text) (idMode : FenIdMode) : Except String FenRecord := do
  let field (k : Nat) : Text := fields.getD k []
  let side ← parseFenSide (field 1)
  let phase ← parseFenPhase (field 2)
  let action ← parseFenAction (field 3)
  let onBoardW ← parseU8 (field 4)
  let inHandW ← parseU8 (field 5)
  let onBoardB ← parseU8 (field 6)
  let inHandB ← parseU8 (field 7)
  let signedRemoveW ← parseI8 (field 8)
  let signedRemoveB ← parseI8 (field 9)
  let lastMillFromW ← parseNodeId (field 10) idMode
  let lastMillFromB ← parseNodeId (field 12) idMode
  let lastMillToW ← parseNodeId (field 11) idMode
  let lastMillToB ← parseNodeId (field 13) idMode
  let formedMillsRaw ← parseOr (Text.parseUnsigned (2 ^ 64 - 1) (field 14)) (field 14)
    "formed-mills bitmask"
  let formedWhite ← parseNodeBitboard (BitVec.ofNat 32 (formedMillsRaw / 2 ^ 32)) idMode
  let formedBlack ← parseNodeBitboard (BitVec.ofNat 32 formedMillsRaw) idMode
  let rule50 ← parseU16 (field 15)
  .ok
    { side, phase, action, rule50
      ext := {}
      piecesOnBoard := perSide onBoardW onBoardB
      piecesInHand := perSide inHandW inHandB
      signedRemove := perSide signedRemoveW signedRemoveB
      lastMillFrom := perSide lastMillFromW lastMillFromB
      lastMillTo := perSide lastMillToW lastMillToB
      formedMillsBb := perSide formedWhite formedBlack
      fullMove := max ((parseI32 (field 16)).getD 1) 1 }

/-- `(2 * (full_move - 1)).max(0) as i16 + side_is_black`. -/
def FenRecord.moveNumber? (record : FenRecord) : Option (BitVec 16) := do
  let moves ← checkedI32 (record.fullMove - 1)
  let plies ← checkedI32 (2 * moves)
  checkedAddI16 (BitVec.ofInt 16 (max plies 0)) (if record.side = 1 then 1 else 0)

/-- What is read before the move number is computed: the board and fields 1 to 16. -/
def readFenFields (fen : Text) : Except String (FenBoard × FenRecord) :=
  let allFields := Text.splitWhitespace (Text.trim fen)
  if allFields.length < 17 then
    .error ("FEN needs >= 17 fields, got " ++ toString allFields.length)
  else do
    let fields := allFields.take 17
    let fenBoard ← parseFenBoard (fields.getD 0 [])
    let record ← parseFenFields fields (idModeFromExtensions (allFields.drop 17))
    .ok (fenBoard, record)

/-- The extension tokens, read last. -/
def readFenExtensions (fen : Text) : Except String FenExtensions :=
  let extensionTokens := (Text.splitWhitespace (Text.trim fen)).drop 17
  extensionTokens.foldlM (parseExtension (idModeFromExtensions extensionTokens)) {}

/-- `set_from_fen`. -/
def setFromFen? (options : MillVariantOptions) (fen : Text) : Except (Fault String) MillState := do
  let (fenBoard, record) ← (readFenFields fen).mapError Fault.error
  let moveNumber ← record.moveNumber?.elim (.error .panic) .ok
  let ext ← (readFenExtensions fen).mapError Fault.error
  let state :=
    { FenRecord.toState { record with ext := ext } fenBoard with moveNumber := moveNumber }
  let state := recomputeMobilityDiff state.syncBitboardsFromBoard options
  if state.phase = .gameOver then .ok state
  else (checkIfGameIsOver? state options).elim (.error .panic) .ok

end Sanmill
