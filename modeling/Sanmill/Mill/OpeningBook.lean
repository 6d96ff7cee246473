import Sanmill.Lib.Scatter
import Sanmill.Mill.Fen
import Sanmill.Mill.LegalActions
import Sanmill.Mill.LegalApply

/-!
# Opening-book symmetries

The sixteen transforms of the opening book are the eight symmetries of the square, each with
or without exchanging the inner and the outer ring. `transformState` carries a whole rule
state along one of them.

A book stores one position text for each orbit under the transforms: the least image of the
normalized text. A transform permutes the points of the board field and leaves every other
field as it is; normalizing sets the formed mills and the first counter to zero.
-/

namespace Sanmill

open Bits

/-- A transform code, `0..16`: the spatial part modulo eight, the ring swap above. -/
abbrev BoardTransform : Type := Fin 16

/-- The rows of `transform_ring_index`: where each point of a ring goes. -/
def ringIndexTable : List (List Nat) :=
  [[0, 1, 2, 3, 4, 5, 6, 7], [2, 3, 4, 5, 6, 7, 0, 1], [4, 5, 6, 7, 0, 1, 2, 3],
    [6, 7, 0, 1, 2, 3, 4, 5], [4, 3, 2, 1, 0, 7, 6, 5], [0, 7, 6, 5, 4, 3, 2, 1],
    [2, 1, 0, 7, 6, 5, 4, 3], [6, 5, 4, 3, 2, 1, 0, 7]]

/-- The image of a point on its ring. -/
def transformRingIndex (index spatial : Nat) : Nat := (ringIndexTable.getD spatial []).getD index 0

/-- `transform_opening_book_node` as a number. -/
def transformNodeIndex (node : Node) (transform : BoardTransform) : Nat :=
  let ring := node.val / 8
  let targetRing := if transform.val ≥ 8 then 2 - ring else ring
  targetRing * 8 + transformRingIndex (node.val % 8) (transform.val % 8)

theorem transformNodeIndex_lt (transform : BoardTransform) (node : Node) :
    transformNodeIndex node transform < 24 := by
  revert transform node
  decide

/-- The image of a node. -/
def transformOpeningBookNode (node : Node) (transform : BoardTransform) : Node :=
  ⟨transformNodeIndex node transform, transformNodeIndex_lt transform node⟩

/-- `INVERSE_TRANSFORMS`. -/
def inverseTransforms : List BoardTransform :=
  [0, 3, 2, 1, 4, 5, 6, 7, 8, 11, 10, 9, 12, 13, 14, 15]

/-- The symmetry that takes another back. -/
def inverseOpeningBookTransform (transform : BoardTransform) : BoardTransform :=
  inverseTransforms.getD transform.val 0

/-! ## Images -/

/-- The image of a node mask. -/
def transformMask (transform : BoardTransform) (mask : Bitboard) : Bitboard :=
  (maskNodes mask).foldl
    (fun image node => image ||| nodeBit (transformOpeningBookNode node transform)) 0

/-- The image of a node-valued `i8`; a sentinel stays. -/
def transformI8 (transform : BoardTransform) (value : Int) : Int :=
  match boardNode? value with
  | some node => (transformOpeningBookNode node transform).toI8
  | none => value

/-- The image of an action: both nodes move. -/
def transformAction (transform : BoardTransform) (action : Action) : Action :=
  { action with
    fromNode := transformI8 transform action.fromNode
    toNode := transformI8 transform action.toNode }

/-! ## Texts -/

/-- `{:?}` of a text. -/
def quoteText (text : Text) : String := (String.ofList text).quote

/-- One of the sixteen. -/
def validateTransform (transform : Nat) : Except String BoardTransform :=
  if h : transform < 16 then .ok ⟨transform, h⟩
  else .error ("opening-book transform must be in 0..16, got " ++ toString transform)

/-- The points of a board field; any character stands for a point. -/
def boardChars (board : Text) : Except String Text :=
  let rings := board.splitOn '/'
  if rings.length ≠ 3 ∨ rings.any (fun ring => ring.length != 8) then
    .error ("opening-book board must contain three eight-point rings: " ++ quoteText board)
  else if rings.flatten.length ≠ 24 then
    .error "opening-book board must contain exactly 24 points"
  else .ok rings.flatten

/-- The fields of a text that is long enough. -/
def bookFields (fen : Text) : Except String (List Text) :=
  let fields := Text.splitWhitespace fen
  if fields.length < 17 then
    .error ("opening-book FEN must contain at least 17 fields, got " ++ toString fields.length)
  else .ok fields

/-- `normalize_opening_book_fen`. -/
def normalizeOpeningBookFen (fen : Text) : Except String Text := do
  let fields ← bookFields fen
  let _ ← boardChars (fields.getD 0 [])
  .ok (Text.joinBlank ((fields.set 14 ['0']).set 15 ['0']))

/-- The piece at each node goes to the image of the node. -/
def transformChars (transform : BoardTransform) (board : Text) : Text :=
  moveAlong (fun node => transformOpeningBookNode node transform) '?' board

/-- `transform_opening_book_fen`. -/
def transformOpeningBookFen (fen : Text) (transform : Nat) : Except String Text := do
  let transform ← validateTransform transform
  let fields ← bookFields fen
  let board ← boardChars (fields.getD 0 [])
  normalizeOpeningBookFen
    (Text.joinBlank (fields.set 0 (joinRanks (transformChars transform board))))

/-- One round of the search for the least text. -/
def canonicalFenStep (normalized : Text) (best : Text × Nat) (transform : Nat) :
    Except String (Text × Nat) := do
  let candidate ← transformOpeningBookFen normalized transform
  .ok (if candidate < best.1 then (candidate, transform) else best)

/-- `canonical_opening_book_fen`: the least image and the first transform that reaches it. -/
def canonicalOpeningBookFen (fen : Text) : Except String (Text × Nat) := do
  let normalized ← normalizeOpeningBookFen fen
  (List.range 16).foldlM (canonicalFenStep normalized) (normalized, 0)

/-! ## Moves -/

/-- The image of a single action. -/
def transformAtomicNotation (text : Text) (transform : BoardTransform) : Except String Text :=
  match decodeAction text with
  | none => .error ("invalid Mill notation " ++ quoteText text)
  | some action =>
    let transformed := encodeAction (transformAction transform action)
    if transformed = [] then .error ("unsupported Mill notation " ++ quoteText text)
    else .ok transformed

/-- `transform_opening_book_notation`: one action, or one action and a capture. -/
def transformOpeningBookNotation (text : Text) (transform : Nat) : Except String Text := do
  let transform ← validateTransform transform
  let trimmed := Text.trim text
  if trimmed = [] then .error "opening-book notation must not be empty"
  else match Text.splitOnce 'x' trimmed with
    | some (base, capture) =>
      if 'x' ∈ capture ∨ capture = [] then
        .error ("invalid combined Mill notation " ++ quoteText trimmed)
      else do
        let capture ← transformAtomicNotation ('x' :: capture) transform
        if base = [] then .ok capture
        else do
          let base ← transformAtomicNotation base transform
          .ok (base ++ capture)
    | none => transformAtomicNotation trimmed transform

/-- `decode_legal`: the action a token stands for, when it is legal in the snapshot. -/
def decodeLegal (rules : MillRules) (snapshot : GameStateSnapshot) (token : Text) :
    Option Action :=
  (decodeAction token).bind fun action =>
    (rules.legalActions snapshot).find? fun item => item = action

/-- The check of `validate_oracle`: the text is read and the move is legal there. -/
def legalBookMove (rules : MillRules) (fen token : Text) : Bool :=
  match setFromFen rules.options fen with
  | .ok state => (decodeLegal rules (state.encode rules.options) token).isSome
  | .error _ => false

end Sanmill
