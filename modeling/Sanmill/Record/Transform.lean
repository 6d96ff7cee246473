import Mathlib.Data.List.Basic
import Sanmill.Lib.Text

/-!
# Recorded moves and the board symmetries

`ext_move.dart` and `transform.dart`. A recorded move is a point, a removal `x` and a point,
two points with a dash, or one of three words; the constructor of `ExtMove` throws on
anything else. The sixteen symmetries rewrite the points of a move and the board of a FEN.
Strings are lists of characters, assertions are off.
-/

namespace Sanmill.Recorder

/-- What a move text stands for. -/
inductive MoveType where
  | place
  | move
  | remove
  | draw
  | none
deriving Repr, DecidableEq

/-- `[a-g][1-7]`. -/
def isPoint : Text → Bool
  | [file, rank] =>
    decide ('a' ≤ file) && decide (file ≤ 'g') && (decide ('1' ≤ rank) && decide (rank ≤ '7'))
  | _ => false

/-- `x[a-g][1-7]`. -/
def isRemoval : Text → Bool
  | 'x' :: point => isPoint point
  | _ => false

/-- `[a-g][1-7]-[a-g][1-7]`. -/
def isSlide : Text → Bool
  | [f, r, '-', f', r'] => isPoint [f, r] && isPoint [f', r']
  | _ => false

/-- The text of a draw. -/
def drawText : Text := "draw".toList

/-- The texts that stand for no move. -/
def noneTexts : List Text := ["(none)".toList, "none".toList]

/-- `MoveParser.parseMoveType`; the exception is `none`. -/
def parseMoveType (move : Text) : Option MoveType :=
  if isRemoval move then some .remove
  else if isSlide move then some .move
  else if isPoint move then some .place
  else if move = drawText then some .draw
  else if move ∈ noneTexts then some .none
  else Option.none

/-- `ExtMove._checkLegal`. -/
def checkLegal (move : Text) : Bool :=
  if move = drawText ∨ move ∈ noneTexts then true
  else if isPoint move then true
  else if isRemoval move then true
  else if isSlide move then
    match move.splitOn '-' with
    | source :: target :: _ => source ≠ target
    | _ => true
  else false

/-- The strings that the constructor of `ExtMove` takes. -/
def acceptsMove (move : Text) : Bool := (parseMoveType move).isSome && checkLegal move

/-- `ExtMove`, with the fields that a symmetry rewrites. -/
structure ExtMove where
  move : Text
  boardLayout : Option Text
  preferredRemoveTarget : Option Int
  accepted : acceptsMove move = true

/-- The constructor; the exception is `none`. -/
def ExtMove.new? (move : Text) (boardLayout : Option Text) (preferredRemoveTarget : Option Int) :
    Option ExtMove :=
  if accepted : acceptsMove move = true then
    some { move, boardLayout, preferredRemoveTarget, accepted }
  else none

/-! ## The symmetries -/

/-- The sixteen transformations of the board. -/
inductive TransformationType where
  | identity
  | rotate90
  | rotate180
  | rotate270
  | mirrorVertical
  | mirrorHorizontal
  | mirrorBackslash
  | mirrorSlash
  | swap
  | swapRotate90
  | swapRotate180
  | swapRotate270
  | swapMirrorVertical
  | swapMirrorHorizontal
  | swapMirrorBackslash
  | swapMirrorSlash
deriving Repr, DecidableEq

/-- `transformationMap`. -/
def getTransformMap : TransformationType → List Nat
  | .identity =>
    [0, 1, 2, 3, 4, 5, 6, 7, 8, 9, 10, 11, 12, 13, 14, 15, 16, 17, 18, 19, 20, 21, 22, 23]
  | .rotate90 =>
    [2, 3, 4, 5, 6, 7, 0, 1, 10, 11, 12, 13, 14, 15, 8, 9, 18, 19, 20, 21, 22, 23, 16, 17]
  | .rotate180 =>
    [4, 5, 6, 7, 0, 1, 2, 3, 12, 13, 14, 15, 8, 9, 10, 11, 20, 21, 22, 23, 16, 17, 18, 19]
  | .rotate270 =>
    [6, 7, 0, 1, 2, 3, 4, 5, 14, 15, 8, 9, 10, 11, 12, 13, 22, 23, 16, 17, 18, 19, 20, 21]
  | .mirrorVertical =>
    [4, 3, 2, 1, 0, 7, 6, 5, 12, 11, 10, 9, 8, 15, 14, 13, 20, 19, 18, 17, 16, 23, 22, 21]
  | .mirrorHorizontal =>
    [0, 7, 6, 5, 4, 3, 2, 1, 8, 15, 14, 13, 12, 11, 10, 9, 16, 23, 22, 21, 20, 19, 18, 17]
  | .mirrorBackslash =>
    [2, 1, 0, 7, 6, 5, 4, 3, 10, 9, 8, 15, 14, 13, 12, 11, 18, 17, 16, 23, 22, 21, 20, 19]
  | .mirrorSlash =>
    [6, 5, 4, 3, 2, 1, 0, 7, 14, 13, 12, 11, 10, 9, 8, 15, 22, 21, 20, 19, 18, 17, 16, 23]
  | .swap => [16, 17, 18, 19, 20, 21, 22, 23, 8, 9, 10, 11, 12, 13, 14, 15, 0, 1, 2, 3, 4, 5, 6, 7]
  | .swapRotate90 =>
    [18, 19, 20, 21, 22, 23, 16, 17, 10, 11, 12, 13, 14, 15, 8, 9, 2, 3, 4, 5, 6, 7, 0, 1]
  | .swapRotate180 =>
    [20, 21, 22, 23, 16, 17, 18, 19, 12, 13, 14, 15, 8, 9, 10, 11, 4, 5, 6, 7, 0, 1, 2, 3]
  | .swapRotate270 =>
    [22, 23, 16, 17, 18, 19, 20, 21, 14, 15, 8, 9, 10, 11, 12, 13, 6, 7, 0, 1, 2, 3, 4, 5]
  | .swapMirrorVertical =>
    [20, 19, 18, 17, 16, 23, 22, 21, 12, 11, 10, 9, 8, 15, 14, 13, 4, 3, 2, 1, 0, 7, 6, 5]
  | .swapMirrorHorizontal =>
    [16, 23, 22, 21, 20, 19, 18, 17, 8, 15, 14, 13, 12, 11, 10, 9, 0, 7, 6, 5, 4, 3, 2, 1]
  | .swapMirrorBackslash =>
    [18, 17, 16, 23, 22, 21, 20, 19, 10, 9, 8, 15, 14, 13, 12, 11, 2, 1, 0, 7, 6, 5, 4, 3]
  | .swapMirrorSlash =>
    [22, 21, 20, 19, 18, 17, 16, 23, 14, 13, 12, 11, 10, 9, 8, 15, 6, 5, 4, 3, 2, 1, 0, 7]

/-- `inverseTransformMap`. -/
def inverseTransformMap (map : List Nat) : List Nat :=
  (List.range 24).foldl (fun inverse i => inverse.set (map.getD i 0) i) (List.replicate 24 0)

/-- `_transformIndexToNotation`. -/
def transformIndexToNotation : List Text :=
  ["d5", "e5", "e4", "e3", "d3", "c3", "c4", "c5", "d6", "f6", "f4", "f2", "d2", "b2", "b4", "b6",
    "d7", "g7", "g4", "g1", "d1", "a1", "a4", "a7"].map String.toList

/-- `_notationToTransformIndex`, the same table read backwards. -/
def notationToTransformIndex (point : Text) : Option Nat :=
  transformIndexToNotation.idxOf? point

/-- `_transformSquareNotation`. -/
def transformSquareNotation (point : Text) (map : List Nat) : Text :=
  match notationToTransformIndex (point.map Char.toLower) with
  | none => point
  | some index => transformIndexToNotation.getD (map.getD index 0) []

/-- `transformMoveNotationWithMap`. -/
def transformMoveNotationWithMap (move : Text) (map : List Nat) : Text :=
  let trimmed := Text.dartTrim move
  if trimmed = drawText ∨ trimmed ∈ noneTexts then trimmed
  else if trimmed.head? = some 'x' ∧ trimmed.length = 3 then
    'x' :: transformSquareNotation (trimmed.drop 1) map
  else
    match decide ('-' ∈ trimmed ∧ trimmed.length = 5), trimmed.splitOn '-' with
    | true, [source, target] =>
      transformSquareNotation source map ++ '-' :: transformSquareNotation target map
    | _, _ => if isPoint trimmed then transformSquareNotation trimmed map else trimmed

/-- `transformMoveNotation`, with the map of the transformation. -/
def transformMoveNotation (move : Text) (type : TransformationType) : Text :=
  transformMoveNotationWithMap move (getTransformMap type)

/-! ## Boards -/

/-- `_transformString`; an index past the end of the string is `none`. -/
def transformString (s : Text) (type : TransformationType) : Option Text :=
  if s.length < 24 then none
  else
    let map := getTransformMap type
    some <| (List.range 24).foldl
      (fun result i => result.set (map.getD i 0) (s.getD i ' ')) (List.replicate 24 ' ')

/-- The loop that puts the separators back, from character `i` and separator `slashIdx` on. -/
def insertSlashes (slashPositions : List Nat) : Text → Nat → Nat → Text
  | [], _, _ => []
  | c :: rest, i, slashIdx =>
    if slashPositions[slashIdx]?.any fun p => (i : Int) = p - slashIdx then
      '/' :: c :: insertSlashes slashPositions rest (i + 1) (slashIdx + 1)
    else c :: insertSlashes slashPositions rest (i + 1) slashIdx

/-- `transformFEN`; a FEN shorter than the board field is `none`. -/
def transformFEN (fen : Text) (type : TransformationType) : Option Text :=
  if fen.length < 26 then none
  else
    let boardPart := fen.take 26
    let otherPart := fen.drop 26
    let slashPositions := (List.range 26).filter fun i => boardPart[i]? = some '/'
    (transformString (boardPart.filter (· ≠ '/')) type).map fun transformed =>
      insertSlashes slashPositions transformed 0 0 ++ otherPart

/-- `_transformFenOrNull`. -/
def transformFenOrNull (fen : Option Text) (type : TransformationType) : Option (Option Text) :=
  match fen with
  | none => some none
  | some [] => some (some [])
  | some fen => (transformFEN fen type).map some

/-! ## A recorded move under a symmetry -/

/-- `MillBoardCoordinateMaps.legacySquareToNotation`. -/
def legacySquareToNotation (square : Int) : Text :=
  if 8 ≤ square ∧ square < 32 then transformIndexToNotation.getD (square.toNat - 8) [] else []

/-- `MillBoardCoordinateMaps.notationToLegacySquare`. -/
def notationToLegacySquare (point : Text) : Int :=
  match notationToTransformIndex ((Text.dartTrim point).map Char.toLower) with
  | some index => index + 8
  | none => -1

/-- `_transformPreferredRemoveTarget`. -/
def transformPreferredRemoveTarget (square : Option Int) (type : TransformationType) :
    Option Int :=
  square.map fun square =>
    if square ≤ 0 then square
    else notationToLegacySquare (transformMoveNotation (legacySquareToNotation square) type)

/-- `_transformMove`; the exceptions of its parts are `none`. -/
def transformMove (move : ExtMove) (type : TransformationType) : Option ExtMove := do
  let boardLayout ← transformFenOrNull move.boardLayout type
  ExtMove.new? (transformMoveNotation move.move type) boardLayout
    (transformPreferredRemoveTarget move.preferredRemoveTarget type)

end Sanmill.Recorder
