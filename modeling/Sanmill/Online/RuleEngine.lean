import Sanmill.Mill.LegalActions
import Sanmill.Online.Types

/-!
# The rule engine of a room

The rules of a game are an adapter: it creates the initial position of a rule set and
applies an action, written as text, to an opaque snapshot. A room that transforms its
board rewrites the texts of its actions and replays them.
-/

namespace Sanmill.Online

/-! ## Board transformations -/

open SpatialTransformation in
/-- The board transformations by name. -/
def BOARD_TRANSFORMATIONS : List (String × BoardTransformation) :=
  [("identity", ⟨identity, false⟩), ("rotate90", ⟨rotate90, false⟩),
    ("rotate180", ⟨rotate180, false⟩), ("rotate270", ⟨rotate270, false⟩),
    ("mirrorVertical", ⟨mirrorVertical, false⟩), ("mirrorHorizontal", ⟨mirrorHorizontal, false⟩),
    ("mirrorBackslash", ⟨mirrorBackslash, false⟩), ("mirrorSlash", ⟨mirrorSlash, false⟩),
    ("swap", ⟨identity, true⟩), ("swapRotate90", ⟨rotate90, true⟩),
    ("swapRotate180", ⟨rotate180, true⟩), ("swapRotate270", ⟨rotate270, true⟩),
    ("swapMirrorVertical", ⟨mirrorVertical, true⟩),
    ("swapMirrorHorizontal", ⟨mirrorHorizontal, true⟩),
    ("swapMirrorBackslash", ⟨mirrorBackslash, true⟩), ("swapMirrorSlash", ⟨mirrorSlash, true⟩)]

/-- The image of each of the eight points of a ring. -/
def POINT_MAPS : SpatialTransformation → List Nat
  | .identity => [0, 1, 2, 3, 4, 5, 6, 7]
  | .rotate90 => [2, 3, 4, 5, 6, 7, 0, 1]
  | .rotate180 => [4, 5, 6, 7, 0, 1, 2, 3]
  | .rotate270 => [6, 7, 0, 1, 2, 3, 4, 5]
  | .mirrorVertical => [4, 3, 2, 1, 0, 7, 6, 5]
  | .mirrorHorizontal => [0, 7, 6, 5, 4, 3, 2, 1]
  | .mirrorBackslash => [2, 1, 0, 7, 6, 5, 4, 3]
  | .mirrorSlash => [6, 5, 4, 3, 2, 1, 0, 7]

/-- The squares ring by ring, the innermost ring first. -/
def BOARD_SQUARES : List Text :=
  ["d5", "e5", "e4", "e3", "d3", "c3", "c4", "c5", "d6", "f6", "f4", "f2", "d2", "b2", "b4", "b6",
    "d7", "g7", "g4", "g1", "d1", "a1", "a4", "a7"].map String.toList

/-- `isBoardTransformation`: the transformation a member names. -/
def isBoardTransformation (value : Option Json) : Option BoardTransformation := do
  let name ← value.bind Json.asString
  let entry ← BOARD_TRANSFORMATIONS.find? fun entry => entry.1.toList = name
  some entry.2

/-- The image of a point; any other text stays as it is. -/
def transformSquare (square : Text) (transformation : BoardTransformation) : Text :=
  match BOARD_SQUARES.findIdx? fun name => name = square.map Char.toLower with
  | none => square
  | some sourceIndex =>
    let sourceRing := sourceIndex / 8
    let sourcePoint := sourceIndex % 8
    let targetRing := if transformation.swapRings then 2 - sourceRing else sourceRing
    let targetPoint := (POINT_MAPS transformation.spatial).getD sourcePoint 0
    BOARD_SQUARES.getD (targetRing * 8 + targetPoint) []

/-- The white space `trim` removes: the Unicode spaces and the byte order mark, not U+0085. -/
def isTrimSpace (c : Char) : Bool :=
  (Text.isWhitespace c || c.toNat = 0xFEFF) && c.toNat ≠ 0x85

/-- `trim` of JavaScript. -/
def trim (text : Text) : Text :=
  ((text.dropWhile isTrimSpace).reverse.dropWhile isTrimSpace).reverse

/-- `length` counts UTF-16 code units. -/
def utf16Length (text : Text) : Nat := (text.map fun c => if c.toNat < 0x10000 then 1 else 2).sum

/-- The image of a move. -/
def transformMillAction (action : Text) (transformation : BoardTransformation) : Text :=
  let trimmed := trim action
  if trimmed = "draw".toList ∨ trimmed = "(none)".toList ∨ trimmed = "none".toList then trimmed
  else if trimmed.head? = some 'x' ∧ utf16Length trimmed = 3 then
    'x' :: transformSquare trimmed.tail transformation
  else
    match decide ('-' ∈ trimmed ∧ utf16Length trimmed = 5), trimmed.splitOn '-' with
    | true, [source, target] =>
      transformSquare source transformation ++ '-' :: transformSquare target transformation
    | _, _ =>
      match trimmed with
      | [file, rank] =>
        if ('a' ≤ file ∧ file ≤ 'g') ∧ '1' ≤ rank ∧ rank ≤ '7' then
          transformSquare trimmed transformation
        else trimmed
      | _ => trimmed

/-! ## Rule adapters -/

/-- `OnlineRuleAdapter`; the functions of a game, which may throw. -/
structure OnlineRuleAdapter where
  create : Json.Members → Option RuleResult
  apply : Json.Members → Text → Text → Option RuleResult

/-- The one adapter there is, under its game and its rule set. -/
def ruleAdapterFor (mill : OnlineRuleAdapter) (gameId rulesetId : Text) :
    Option OnlineRuleAdapter :=
  if gameId = "mill".toList ∧ rulesetId = "custom-v1".toList then some mill else none

/-- The position an action leads to, when the adapter answers with all of it. -/
def OnlineRuleAdapter.play (adapter : OnlineRuleAdapter) (options : Json.Members)
    (position : RulePosition) (action : Text) : Option RulePosition :=
  (adapter.apply options position.snapshot action).bind completeRuleResult

/-- `replayActions`; `none` where the source throws. -/
def replayActions (mill : OnlineRuleAdapter) (state : RoomState) : Option RulePosition := do
  let adapter ← ruleAdapterFor mill state.gameId state.rulesetId
  let result ← adapter.create state.ruleOptions
  let position ← completeRuleResult result
  state.actions.foldlM (adapter.play state.ruleOptions) position

end Sanmill.Online
