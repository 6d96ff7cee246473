import Sanmill.Lib.I32
import Sanmill.Lib.Text
import Sanmill.Mill.LegalActions

/-!
# Position texts

`setFromFen` reads a position text and `exportFen` writes one. A text has seventeen
fields separated by white space (board, side, phase, action, counts, removals, last
mills, formed mills, two counters) and then extension tokens. With the token
`ids:nodes` every square-like number is a node id; without it, a legacy square.

Reading ends with the terminal checks of `checkIfGameIsOver`, the same that follow
an action. A text is the list of its characters.
-/

namespace Sanmill

open Bits

/-! ## Conversions -/

/-- `NODE_ID_FEN_MARKER`. -/
def nodeIdFenMarker : Text := "ids:nodes".toList

/-- Whether nodes or the old square numbers are meant. -/
inductive FenIdMode where
  | legacySquares
  | nodes
deriving DecidableEq, Repr

/-- The texts are equal up to the case of ASCII letters. -/
def eqIgnoreAsciiCase (left right : Text) : Bool := left.map Char.toLower = right.map Char.toLower

/-- The marker may stand anywhere among the extensions. -/
def idModeFromExtensions (extensionTokens : List Text) : FenIdMode :=
  if extensionTokens.any fun token => eqIgnoreAsciiCase token nodeIdFenMarker then .nodes
  else .legacySquares

/-- `parse().map_err(|_| …)`. -/
def parseOr {α : Type} (parsed : Option α) (value : Text) (what : String) : Except String α :=
  match parsed with
  | some number => .ok number
  | none => .error ("cannot parse '" ++ String.ofList value ++ "' as " ++ what)

/-- A `u8`. -/
def parseU8 (value : Text) : Except String Nat := parseOr (Text.parseUnsigned 255 value) value "u8"

/-- An `i8`. -/
def parseI8 (value : Text) : Except String Int :=
  parseOr (Text.parseSigned (-128) 127 value) value "i8"

/-- A `u16`. -/
def parseU16 (value : Text) : Except String Nat :=
  parseOr (Text.parseUnsigned 65535 value) value "u16"

/-- `parse::<i32>()`. -/
def parseI32 (value : Text) : Option Int := Text.parseSigned i32Min i32Max value

/-- A node, or -1 for none. -/
def parseNodeId (value : Text) (mode : FenIdMode) : Except String Int :=
  match mode with
  | .legacySquares => do
    let legacy ← parseOr (Text.parseSigned (-32768) 32767 value) value "legacy square id"
    if legacy = 0 then .ok (-1)
    else if 8 ≤ legacy ∧ legacy < 32 then .ok (legacy - 8)
    else .error ("legacy square id must be 0 or 8..31, got " ++ toString legacy)
  | .nodes => do
    let node ← parseOr (Text.parseSigned (-128) 127 value) value "node id"
    if node = -1 ∨ 0 ≤ node ∧ node < 24 then .ok node
    else .error ("node id must be -1 or 0..23, got " ++ toString node)

/-- `legacy_square_bb_to_node_bb`. -/
def legacySquareBbToNodeBb (legacyBb : Bitboard) : Bitboard := (legacyBb >>> 8) &&& 0x00ffffff

/-- A mask of nodes, or of the old squares. -/
def parseNodeBitboard (value : Bitboard) (mode : FenIdMode) : Except String Bitboard :=
  match mode with
  | .legacySquares => .ok (legacySquareBbToNodeBb value)
  | .nodes =>
    if value &&& ~~~(0x00ffffff : Bitboard) = 0 then .ok value
    else .error ("node bitboard must use bits 0..23 only, got " ++ toString value.toNat)

/-! ## Capture fields -/

/-- The targets and the counts of one capture rule, for both sides. -/
abbrev CaptureField : Type := (Side → Bitboard) × (Side → Nat)

/-- The target nodes listed in a segment, added to `targets`. -/
def parseCaptureTargets (mode : FenIdMode) (targets : Bitboard) (squareToken : Text) :
    Except String Bitboard :=
  let token := Text.trim squareToken
  if token = [] then .ok targets
  else do
    let node ← parseNodeId token mode
    match boardNode? node with
    | some n => .ok (targets ||| nodeBit n)
    | none => .error ("capture target must be 0..23, got " ++ toString node)

/-- One side's segment `w-N-sq.sq`. The byte tests of the source are about ASCII bytes. -/
def parseCaptureSegment (mode : FenIdMode) (field : CaptureField) (rawSegment : Text) :
    Except String CaptureField :=
  let segment := Text.trim rawSegment
  let invalid : Except String CaptureField :=
    .error ("invalid capture segment '" ++ String.ofList segment ++ "'")
  match segment with
  | colour :: '-' :: afterColor =>
    if Char.utf8Size colour ≠ 1 ∨ afterColor = [] then invalid
    else do
      let side : Side ← if colour = 'w' then .ok 0 else if colour = 'b' then .ok 1
        else .error ("invalid capture side in segment '" ++ String.ofList segment ++ "'")
      match afterColor.dropWhile (· != '-') with
      | [] => invalid
      | _ :: listStr => do
        let countStr := Text.trim (afterColor.takeWhile (· != '-'))
        let parsedCount ← parseOr (parseI32 countStr) countStr "capture count"
        let targets ← (listStr.splitOn '.').foldlM (parseCaptureTargets mode) (field.1 side)
        .ok (setAt field.1 side targets,
          setAt field.2 side (min (field.2 side + parsedCount.natAbs) 255))
  | _ => invalid

/-- The segments of both sides, in any order. -/
def parseCaptureField (mode : FenIdMode) (field : CaptureField) (value : Text) :
    Except String CaptureField :=
  (value.splitOn '|').foldlM (parseCaptureSegment mode) field

/-- The token of a capture, if anything is pending. -/
def appendCaptureField (label : Char) (targets : Side → Bitboard) (count : Side → Nat) :
    List Text :=
  let segment (side : Side) : Text :=
    (if side = 0 then 'w' else 'b') :: '-' :: Text.decimal (count side)
      ++ '-' :: ['.'].intercalate ((maskNodes (targets side)).map fun node => Text.decimal node.val)
  if targets 0 = 0 ∧ targets 1 = 0 ∧ count 0 = 0 ∧ count 1 = 0 then []
  else [label :: ':' :: segment 0 ++ '|' :: segment 1]

/-! ## Reading -/

/-- `from_fen_token`. -/
def MillActionState.fromFenToken (token : Text) : MillActionState :=
  if token = ['p'] then place
  else if token = ['s'] then select
  else if token = ['r'] then remove
  else gameOver

/-- The board field: piece codes, and the marked squares, which read as empty. -/
structure FenBoard where
  board : Node → Int
  delayedMarkedPieces : Bitboard

/-- The characters of the board. -/
def isFenPiece (c : Char) : Bool := c = 'O' || c = '@' || c = '*' || c = 'X'

/-- White, black or nothing; a marked piece has lost its colour. -/
def fenPiece (c : Char) : Int := if c = 'O' then 1 else if c = '@' then 2 else 0

/-- The board of 24 characters in node order. -/
def FenBoard.ofChars (allChars : Text) : FenBoard where
  board node := fenPiece (allChars.getD node.val '*')
  delayedMarkedPieces := (List.finRange 24).foldl
    (fun marks node =>
      if allChars.getD node.val '*' = 'X' then marks ||| nodeBit node else marks) 0

/-- Three ranks of eight, the outer ring last. -/
def parseFenBoard (boardStr : Text) : Except String FenBoard :=
  let ranks := boardStr.splitOn '/'
  if ranks.length ≠ 3 ∨ ranks.any (fun rank => Text.utf8Len rank != 8) then
    .error "FEN board must be three 8-character ranks separated by '/'"
  else
    let allChars := ranks.flatten
    match allChars.find? fun c => !isFenPiece c with
    | some c => .error ("unexpected piece character '" ++ c.toString ++ "' in FEN")
    | none => .ok (.ofChars allChars)

/-- What the extension tokens `c:`, `i:`, `l:`, `p:` and `s:` carry. -/
structure FenExtensions where
  custodian : CaptureField := (fun _ => 0, fun _ => 0)
  intervention : CaptureField := (fun _ => 0, fun _ => 0)
  leap : CaptureField := (fun _ => 0, fun _ => 0)
  stalemateRemoving : Bool := false
  bothStalemateRemoving : Bool := false
  preferredRemoveTarget : Int := -1

/-- Read one extension token; an unknown one is skipped. -/
def parseExtension (mode : FenIdMode) (ext : FenExtensions) (token : Text) :
    Except String FenExtensions :=
  match token with
  | 'c' :: ':' :: value => do
    let field ← parseCaptureField mode ext.custodian value
    .ok { ext with custodian := field }
  | 'i' :: ':' :: value => do
    let field ← parseCaptureField mode ext.intervention value
    .ok { ext with intervention := field }
  | 'l' :: ':' :: value => do
    let field ← parseCaptureField mode ext.leap value
    .ok { ext with leap := field }
  | 'p' :: ':' :: value => do
    let node ← parseNodeId value mode
    .ok { ext with preferredRemoveTarget := node }
  | 's' :: ':' :: value => do
    let flag ← parseOr (parseI32 value) value "stalemate flag"
    .ok { ext with stalemateRemoving := flag = 1, bothStalemateRemoving := flag = 2 }
  | _ => .ok ext

/-- The fields after the board, parsed. -/
structure FenRecord where
  side : Side
  phase : MillPhase
  action : MillActionState
  piecesOnBoard : Side → Nat
  piecesInHand : Side → Nat
  /-- Negative where a side removes its own pieces. -/
  signedRemove : Side → Int
  lastMillFrom : Side → Int
  lastMillTo : Side → Int
  formedMillsBb : Side → Bitboard
  rule50 : Nat
  fullMove : Int
  ext : FenExtensions

/-- White or black. -/
def parseFenSide (field : Text) : Except String Side :=
  if field = ['w'] then .ok 0
  else if field = ['b'] then .ok 1
  else .error ("invalid side '" ++ String.ofList field ++ "' in FEN")

/-- Ready and none are read as placing. -/
def parseFenPhase (field : Text) : Except String MillPhase :=
  if field = ['r'] ∨ field = ['p'] ∨ field = ['n'] then .ok .placing
  else if field = ['m'] then .ok .moving
  else if field = ['o'] then .ok .gameOver
  else .error ("invalid phase '" ++ String.ofList field ++ "' in FEN")

/-- One byte, whatever it means. -/
def parseFenAction (field : Text) : Except String MillActionState :=
  if Text.utf8Len field ≠ 1 then
    .error ("invalid action token '" ++ String.ofList field ++ "' in FEN")
  else .ok (.fromFenToken field)

/-- Fields 1 to 16 and the extensions. -/
def parseFenRecord (fields extensionTokens : List Text) : Except String FenRecord := do
  let idMode := idModeFromExtensions extensionTokens
  let field (k : Nat) : Text := fields.getD k []
  let side ← parseFenSide (field 1)
  let phase ← parseFenPhase (field 2)
  let action ← parseFenAction (field 3)
  let onBoardW ← parseU8 (field 4)
  let inHandW ← parseU8 (field 5)
  let onBoardB ← parseU8 (field 6)
  let inHandB ← parseU8 (field 7)
  let signedRemoveW ← parseI8 (field 8)
  let signedRemoveB ← parseI8 (field 9)
  let lastMillFromW ← parseNodeId (field 10) idMode
  let lastMillFromB ← parseNodeId (field 12) idMode
  let lastMillToW ← parseNodeId (field 11) idMode
  let lastMillToB ← parseNodeId (field 13) idMode
  let formedMillsRaw ← parseOr (Text.parseUnsigned (2 ^ 64 - 1) (field 14)) (field 14)
    "formed-mills bitmask"
  let formedWhite ← parseNodeBitboard (BitVec.ofNat 32 (formedMillsRaw / 2 ^ 32)) idMode
  let formedBlack ← parseNodeBitboard (BitVec.ofNat 32 formedMillsRaw) idMode
  let rule50 ← parseU16 (field 15)
  let ext ← extensionTokens.foldlM (parseExtension idMode) {}
  .ok
    { side, phase, action, rule50, ext
      piecesOnBoard := perSide onBoardW onBoardB
      piecesInHand := perSide inHandW inHandB
      signedRemove := perSide signedRemoveW signedRemoveB
      lastMillFrom := perSide lastMillFromW lastMillFromB
      lastMillTo := perSide lastMillToW lastMillToB
      formedMillsBb := perSide formedWhite formedBlack
      fullMove := max ((parseI32 (field 16)).getD 1) 1 }

namespace FenRecord

/-- Some capture of the active side is counted. -/
def capturesCounted (record : FenRecord) : Bool :=
  record.ext.custodian.2 record.side > 0 || record.ext.intervention.2 record.side > 0
    || record.ext.leap.2 record.side > 0

/-- The pending removals; a bare remove token stands for one. -/
def finalRemove (record : FenRecord) (side : Side) : Nat :=
  if record.action = .remove ∧ record.signedRemove 0 = 0 ∧ record.signedRemove 1 = 0
      ∧ record.capturesCounted = false then
    if side = record.side then 1 else 0
  else (record.signedRemove side).natAbs

/-- `2 * (full_move - 1)` in `i32`, cut to `i16`, plus one for black. -/
def moveNumber (record : FenRecord) : BitVec 16 :=
  BitVec.ofInt 16 (max (wrapI32 (2 * (record.fullMove - 1))) 0)
    + (if record.side = 1 then 1 else 0)

/-- The state a text describes, before the derived fields and the terminal checks. -/
def toState (record : FenRecord) (fenBoard : FenBoard) : MillState where
  board := fenBoard.board
  delayedMarkedPieces := fenBoard.delayedMarkedPieces
  sideToMove := record.side.toI8
  phase := record.phase
  action := record.action
  moveNumber := record.moveNumber
  piecesOnBoard := record.piecesOnBoard
  piecesInHand := record.piecesInHand
  pendingRemovals := record.finalRemove
  flags :=
    { removeOwnPiece := fun side => record.signedRemove side < 0
      millAvailableAtRemoval :=
        (record.finalRemove 0 > 0 || record.finalRemove 1 > 0) && !record.capturesCounted
      stalemateRemoving := record.ext.stalemateRemoving
      bothStalemateRemoving := record.ext.bothStalemateRemoving }
  plySinceCapture := record.rule50
  lastMillFrom := record.lastMillFrom
  lastMillTo := record.lastMillTo
  custodianTargets := record.ext.custodian.1
  custodianCount := record.ext.custodian.2
  interventionTargets := record.ext.intervention.1
  interventionCount := record.ext.intervention.2
  leapTargets := record.ext.leap.1
  leapCount := record.ext.leap.2
  formedMillsBb := record.formedMillsBb
  preferredRemoveTarget := record.ext.preferredRemoveTarget

end FenRecord

/-- A side that cannot reach the minimum any more, white first. -/
def shortSide? (state : MillState) (options : MillVariantOptions) : Option Side :=
  [0, 1].find? fun side : Side =>
    state.piecesOnBoard side + state.piecesInHand side < options.piecesAtLeastCount

/-- `check_if_game_is_over`: the terminal checks in the order of the source. -/
def checkIfGameIsOver (state : MillState) (options : MillVariantOptions) : MillState :=
  if state.phase = .gameOver ∨ state.sideToMove < 0 then state
  else
    let state := maybeFinishFullBoard state options
    if state.phase = .gameOver then state
    else
      let state := maybeDrawByNMoveRule state options true
      if state.phase = .gameOver then state
      else match if state.phase = .moving then shortSide? state options else none with
        | some side => finishGame state side.opponent.toI8 .loseFewerThanThree
        | none => (maybeHandleStalemate state options).1

/-- `set_from_fen`. -/
def setFromFen (options : MillVariantOptions) (fen : Text) : Except String MillState :=
  let allFields := Text.splitWhitespace (Text.trim fen)
  if allFields.length < 17 then
    .error ("FEN needs >= 17 fields, got " ++ toString allFields.length)
  else do
    let fields := allFields.take 17
    let fenBoard ← parseFenBoard (fields.getD 0 [])
    let record ← parseFenRecord fields (allFields.drop 17)
    let state := recomputeMobilityDiff (record.toState fenBoard).syncBitboardsFromBoard options
    .ok (if state.phase = .gameOver then state else checkIfGameIsOver state options)

/-! ## Writing -/

/-- What stands on the node. -/
def fenChar (state : MillState) (node : Node) : Char :=
  if state.isMarked node then 'X'
  else if state.board node = 1 then 'O'
  else if state.board node = 2 then '@'
  else '*'

/-- Three ranks of eight. -/
def joinRanks (chars : Text) : Text :=
  chars.take 8 ++ '/' :: (chars.drop 8).take 8 ++ '/' :: chars.drop 16

/-- The board as `export_fen` writes it. -/
def fenBoardStr (state : MillState) : Text := joinRanks ((List.finRange 24).map (fenChar state))

/-- The letter of a phase. -/
def MillPhase.toFenToken : MillPhase → Char
  | placing => 'p'
  | moving => 'm'
  | gameOver => 'o'
  | ready => 'r'

/-- Rust's `/` on integers truncates. -/
def fenFullMove (state : MillState) : Int :=
  max (1 + Int.tdiv (state.moveNumber.toInt - (if state.sideToMove = 1 then 1 else 0)) 2) 1

/-- What is owed, negative for own pieces. -/
def fenSignedRemove (state : MillState) (side : Side) : Int :=
  if state.flags.removeOwnPiece side then -(state.pendingRemovals side : Int)
  else state.pendingRemovals side

/-- The tokens of `export_fen`, in order. -/
def fenTokens (state : MillState) : List Text :=
  [ fenBoardStr state,
    [if state.sideToMove = 1 then 'b' else 'w'],
    [state.phase.toFenToken],
    [state.action.toFenToken],
    Text.decimal (state.piecesOnBoard 0),
    Text.decimal (state.piecesInHand 0),
    Text.decimal (state.piecesOnBoard 1),
    Text.decimal (state.piecesInHand 1),
    Text.signedDecimal (fenSignedRemove state 0),
    Text.signedDecimal (fenSignedRemove state 1),
    Text.signedDecimal (state.lastMillFrom 0),
    Text.signedDecimal (state.lastMillTo 0),
    Text.signedDecimal (state.lastMillFrom 1),
    Text.signedDecimal (state.lastMillTo 1),
    Text.decimal ((state.formedMillsBb 0 &&& 0x00ffffff).toNat * 2 ^ 32
      + (state.formedMillsBb 1 &&& 0x00ffffff).toNat),
    Text.decimal state.plySinceCapture,
    Text.signedDecimal (fenFullMove state),
    nodeIdFenMarker ]
  ++ appendCaptureField 'c' state.custodianTargets state.custodianCount
  ++ appendCaptureField 'i' state.interventionTargets state.interventionCount
  ++ appendCaptureField 'l' state.leapTargets state.leapCount
  ++ (if state.preferredRemoveTarget ≥ 0 then
      ['p' :: ':' :: Text.signedDecimal state.preferredRemoveTarget] else [])
  ++ (if state.flags.stalemateRemoving then ["s:1".toList]
    else if state.flags.bothStalemateRemoving then ["s:2".toList] else [])

/-- `export_fen`. -/
def exportFen (state : MillState) : Text := Text.joinBlank (fenTokens state)

end Sanmill
