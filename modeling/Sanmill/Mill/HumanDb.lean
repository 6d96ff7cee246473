import Sanmill.Mill.Fen
import Sanmill.Mill.LegalActions

/-!
# The human database codec

A `state_key` is the board in its own canonical orientation (the least image under
the eight symmetries of the square), the side, the phase and the counts. The moves
stored for a key live in the same orientation. `none` stands for a panic where the
source asserts.
-/

namespace Sanmill.HumanDb

/-! ## Tables -/

/-- `NMM_POSITION_ORDER_NODES`: outer, middle and inner ring, each from the upper left. -/
def nmmPositionOrderNodes : List Node :=
  [23, 16, 17, 18, 19, 20, 21, 22, 15, 8, 9, 10, 11, 12, 13, 14, 7, 0, 1, 2, 3, 4, 5, 6]

/-- The names of the points, ring by ring from the outside. -/
def nmmPositions : List Text :=
  ["a7", "d7", "g7", "g4", "g1", "d1", "a1", "a4", "b6", "d6", "f6", "f4", "f2", "d2", "b2", "b4",
    "c5", "d5", "e5", "e4", "e3", "d3", "c3", "c4"].map String.toList

/-- Their coordinates around the centre. -/
def positionCoords : List (Int × Int) :=
  [(-3, 3), (0, 3), (3, 3), (3, 0), (3, -3), (0, -3), (-3, -3), (-3, 0),
    (-2, 2), (0, 2), (2, 2), (2, 0), (2, -2), (0, -2), (-2, -2), (-2, 0),
    (-1, 1), (0, 1), (1, 1), (1, 0), (1, -1), (0, -1), (-1, -1), (-1, 0)]

/-- `SYMMETRIES`: a matrix `(a, b, c, d)` acting on the coordinates. -/
def symmetries : List (Int × Int × Int × Int) :=
  [(1, 0, 0, 1), (0, -1, 1, 0), (-1, 0, 0, -1), (0, 1, -1, 0), (-1, 0, 0, 1), (1, 0, 0, -1),
    (0, 1, 1, 0), (0, -1, -1, 0)]

/-- `SYM_INVERSE`. -/
def symInverse : List Nat := [0, 3, 2, 1, 4, 5, 6, 7]

/-! ## Coordinates -/

/-- The number of a point. -/
def positionIndex (pos : Text) : Option Nat := nmmPositions.findIdx? (· = pos)

/-- The number of the point at these coordinates. -/
def positionIndexFromCoords (coords : Int × Int) : Option Nat :=
  positionCoords.findIdx? (· = coords)

/-- Map an index of `nmmPositions` through a symmetry. -/
def transformIndex (idx symIdx : Nat) : Option Nat :=
  match positionCoords[idx]?, symmetries[symIdx]? with
  | some (x, y), some (a, b, c, d) => positionIndexFromCoords (a * x + b * y, c * x + d * y)
  | _, _ => none

/-- The image of a point. -/
def transformPos (pos : Text) (symIdx : Nat) : Option Text :=
  match positionIndex pos with
  | some idx => (transformIndex idx symIdx).map fun next => nmmPositions.getD next []
  | none => none

/-- Map a stored notation (place, move, with or without a capture) through a symmetry. -/
def transformNotation (text : Text) (symIdx : Nat) : Option Text :=
  if symIdx = 0 then some text
  else
    let (base, capture) := match Text.splitOnce 'x' text with
      | some (base, capture) => (base, some capture)
      | none => (text, none)
    let captureSuffix := match capture with
      | some pos => (transformPos pos symIdx).map fun pos => 'x' :: pos
      | none => some []
    captureSuffix.bind fun captureSuffix =>
      if base = [] then some captureSuffix
      else match Text.splitOnce '-' base with
        | some (source, target) =>
          (transformPos source symIdx).bind fun source =>
            (transformPos target symIdx).map fun target => source ++ '-' :: target ++ captureSuffix
        | none => (transformPos base symIdx).map fun base => base ++ captureSuffix

/-! ## Boards -/

/-- The 24 characters of a board, outer ring first. -/
def nmmBoard24 (board : Node → Int) : Text :=
  nmmPositionOrderNodes.map fun node =>
    if board node = 1 then 'W' else if board node = 2 then 'B' else '.'

/-- The board with each character at the image of its point. -/
def applyBoardSym (board24 : Text) (symIdx : Nat) : Option Text :=
  if board24.length ≠ 24 ∨ symIdx ≥ symmetries.length then none
  else
    board24.zipIdx.foldlM
      (fun result p => (transformIndex p.2 symIdx).map fun newIdx => result.set newIdx p.1)
      (List.replicate 24 '?')

/-- One round of the search for the least image. -/
def canonicalStep (board24 : Text) (best : Text × Nat) (symIdx : Nat) : Option (Text × Nat) :=
  (applyBoardSym board24 symIdx).map fun transformed =>
    if transformed < best.1 then (transformed, symIdx) else best

/-- The least image, and the first symmetry that produces it. -/
def canonicalBoardStr (board24 : Text) : Option (Text × Nat) :=
  if board24.length ≠ 24 then none
  else [1, 2, 3, 4, 5, 6, 7].foldlM (canonicalStep board24) (board24, 0)

/-! ## Keys -/

/-- What a side does next; three pieces fly, whatever the rules. -/
def phaseForSide (phase : MillPhase) (piecesInHand piecesOnBoard : Nat) : Text :=
  if phase = .placing ∨ piecesInHand > 0 then "place".toList
  else if piecesOnBoard ≤ 3 then "fly".toList
  else "move".toList

/-- The first complaint about the counts; the sum is a `u8`. -/
def countError? (state : MillState) : Option String :=
  [0, 1].findSome? fun side : Side =>
    if state.piecesInHand side > 9 then
      some "Human Database supports standard Nine Men's Morris hand counts only"
    else if (state.piecesOnBoard side + state.piecesInHand side) % 256 > 9 then
      some "Human Database supports standard Nine Men's Morris piece totals only"
    else none

/-- The fields of a key with bars between them. -/
def joinKey (canonical turn phase placedW placedB onW onB : Text) : Text :=
  ['|'].intercalate [canonical, turn, phase, placedW, placedB, onW, onB]

/-- `state_key_from_fen`: the key and the symmetry that produced its board. -/
def stateKeyFromFen (fen : Text) : Option (Except String (Text × Nat)) :=
  let fields := Text.splitWhitespace fen
  let sideField := fields.getD 1 []
  if fields.length < 8 then some (.error "Mill FEN must contain at least 8 fields")
  else if sideField ≠ ['w'] ∧ sideField ≠ ['b'] then
    some (.error ("invalid side-to-move in Mill FEN: " ++ String.ofList sideField))
  else match setFromFen {} fen with
    | .error message => some (.error message)
    | .ok state =>
      match countError? state with
      | some message => some (.error message)
      | none => (canonicalBoardStr (nmmBoard24 state.board)).map fun (canonical, symIdx) =>
        let side : Side := if sideField = ['w'] then 0 else 1
        .ok (joinKey canonical (if sideField = ['w'] then ['W'] else ['B'])
            (phaseForSide state.phase (state.piecesInHand side) (state.piecesOnBoard side))
            (Text.decimal (9 - state.piecesInHand 0)) (Text.decimal (9 - state.piecesInHand 1))
            (Text.decimal (state.piecesOnBoard 0)) (Text.decimal (state.piecesOnBoard 1)),
          symIdx)

/-- The board of a key in node order; any other character makes the key malformed. -/
def keyBoard (canonical : Text) : Option Text :=
  (canonical.zip nmmPositionOrderNodes).foldlM
    (fun board p =>
      (if p.1 = 'W' then some 'O' else if p.1 = 'B' then some '@'
        else if p.1 = '.' then some '*' else none).map fun piece => board.set p.2.val piece)
    (List.replicate 24 '*')

/-- `9_u8.checked_sub(field.parse::<u8>().ok()?)?`. -/
def handFromPlaced (field : Text) : Option Nat :=
  (Text.parseUnsigned 255 field).bind fun placed => if placed ≤ 9 then some (9 - placed) else none

/-- The FEN of a key of the database. -/
def fenFromStateKey (stateKey : Text) : Option Text :=
  let fields := stateKey.splitOn '|'
  let field (k : Nat) : Text := fields.getD k []
  if fields.length < 7 then none
  else if Text.utf8Len (field 0) ≠ 24 then none
  else do
    let side ← if field 1 = ['W'] then some ['w'] else if field 1 = ['B'] then some ['b'] else none
    let phase ← if field 2 = "place".toList then some ['p']
      else if field 2 = "move".toList ∨ field 2 = "fly".toList then some ['m'] else none
    let action : Text := if phase = ['p'] then ['p'] else ['s']
    let onW ← Text.parseUnsigned 255 (field 5)
    let onB ← Text.parseUnsigned 255 (field 6)
    let handW ← handFromPlaced (field 3)
    let handB ← handFromPlaced (field 4)
    let board ← keyBoard (field 0)
    some (Text.joinBlank
      ([joinRanks board, side, phase, action,
        Text.decimal onW, Text.decimal handW, Text.decimal onB, Text.decimal handB]
      ++ ["0", "0", "-1", "-1", "-1", "-1", "0", "0", "1", "ids:nodes"].map String.toList))

end Sanmill.HumanDb
