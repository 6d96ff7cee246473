import Mathlib.Logic.Function.Basic
import Sanmill.Mill.Snapshot

/-!
# Othello

The second game of the framework (`tgf-othello`): an 8 by 8 board of empty squares (0) and the
discs of the two players (1 and 2). A disc may be placed where it brackets a run of opponent
discs, which it flips. There is no pass. The rules and the search workbench share the move
generator and each decide on their own when the game is over.

Debug assertions are off, and an index outside the board panics: `none`.
-/

namespace Sanmill.Othello

/-- The squares, row by row from the top left. -/
abbrev Square : Type := Fin 64

/-- Each square: empty (0), black (1) or white (2). -/
abbrev Board : Type := Square → Int

/-- A position: the board, the side to move and the number of the move. -/
structure OthelloState where
  board : Board
  sideToMove : Int
  moveNumber : BitVec 16

/-! ## Geometry -/

/-- `in_bounds`. -/
abbrev InBounds (c r : Int) : Prop := 0 ≤ c ∧ c < 8 ∧ 0 ≤ r ∧ r < 8

/-- `idx`, on the board. -/
def idx (c r : Int) (h : InBounds c r) : Square := ⟨(r * 8 + c).toNat, by omega⟩

/-- The column of a square. -/
def column (sq : Square) : Int := (sq.val % 8 : Nat)
/-- The row of a square. -/
def row (sq : Square) : Int := (sq.val / 8 : Nat)

/-- The eight steps `(dx, dy)`, in the order of the loops. -/
def directions : List (Int × Int) :=
  ([-1, 0, 1].flatMap fun dy : Int => [-1, 0, 1].map fun dx : Int => (dx, dy)).filter
    fun d => ¬(d.1 = 0 ∧ d.2 = 0)

/-- The squares that `while in_bounds(c, r)` visits from `(c, r)` on. -/
def walk (d : Int × Int) : Nat → Int → Int → List Square
  | 0, _, _ => []
  | fuel + 1, c, r =>
    if h : InBounds c r then idx c r h :: walk d fuel (c + d.1) (r + d.2) else []

/-- The squares beyond `sq` in a direction; a line has eight squares. -/
def ray (sq : Square) (d : Int × Int) : List Square := walk d 8 (column sq + d.1) (row sq + d.2)

/-! ## State -/

/-- The four discs of the start, with black to move. -/
def OthelloState.default : OthelloState where
  board sq :=
    if sq = 27 ∨ sq = 36 then 2 else if sq = 35 ∨ sq = 28 then 1 else 0
  sideToMove := 0
  moveNumber := 0

/-- `othello_key`. -/
def othelloKey (state : OthelloState) : BitVec 64 :=
  let mix (key : BitVec 64) (byte : BitVec 8) : BitVec 64 :=
    (key ^^^ byte.setWidth 64) * 0x1000000001b3#64
  let key := (List.finRange 64).foldl (fun key sq => mix key (i8Byte (state.board sq)))
    0xcbf29ce484222325#64
  let key := mix key (i8Byte state.sideToMove)
  let key := mix key (leByte state.moveNumber 0)
  let key := mix key (leByte state.moveNumber 1)
  if key = 0 then 1 else key

/-- The snapshot of a position: the squares lie in the payload. -/
def encode (state : OthelloState) : GameStateSnapshot where
  sideToMove := state.sideToMove
  phaseTag := 0
  moveNumber := state.moveNumber
  zobristKey := othelloKey state
  opaquePayload offset := if h : offset.val < 64 then i8Byte (state.board ⟨offset.val, h⟩) else 0

/-- The position of a snapshot. -/
def decode (snapshot : GameStateSnapshot) : OthelloState where
  board sq := snapshot.opaquePayload.readI8 sq
  sideToMove := snapshot.sideToMove
  moveNumber := snapshot.moveNumber

/-! ## Placing a disc -/

/-- `side ^ 1` of an `i8`. -/
def flipSide (side : Int) : Int := (i8Byte side ^^^ 1).toInt

/-- The disc of the player to move, and that of the other player. -/
def OthelloState.own (state : OthelloState) : Int := state.sideToMove + 1
/-- The disc of the opponent. -/
def OthelloState.opp (state : OthelloState) : Int := flipSide state.sideToMove + 1

/-- The inner loop of `would_flip`: how many opponent discs an own disc closes off. -/
def bracketed (board : Board) (own opp : Int) : List Square → Nat → Option Nat
  | [], _ => none
  | sq :: rest, count =>
    if board sq = opp then bracketed board own opp rest (count + 1)
    else if board sq = own ∧ 0 < count then some count
    else none

/-- One round of the loop of `would_flip`. -/
def addDirection (state : OthelloState) (sq : Square) (found : Nat × List (Int × Int))
    (d : Int × Int) : Nat × List (Int × Int) :=
  match bracketed state.board state.own state.opp (ray sq d) 0 with
  | some count => (found.1 + count, found.2 ++ [d])
  | none => found

/-- `would_flip`: the number of discs, and the directions they lie in. -/
def wouldFlip (state : OthelloState) (sq : Square) : Nat × List (Int × Int) :=
  if state.board sq ≠ 0 then (0, []) else directions.foldl (addDirection state sq) (0, [])

/-- The flipping loop: on to the next own disc. -/
def flipRay (own : Int) : List Square → Board → Board
  | [], board => board
  | sq :: rest, board =>
    if board sq = own then board else flipRay own rest (Function.update board sq own)

/-- `apply_othello_action`: places a disc and turns what it captures. -/
def applyOthelloAction (state : OthelloState) (action : Action) : Option OthelloState :=
  if h : 0 ≤ action.toNode ∧ action.toNode < 64 then
    let sq : Square := ⟨action.toNode.toNat, by omega⟩
    let dirs := (wouldFlip state sq).2
    some
      { board := dirs.foldl (fun board d => flipRay state.own (ray sq d) board)
          (Function.update state.board sq state.own)
        sideToMove := flipSide state.sideToMove
        moveNumber := state.moveNumber + 1 }
  else none

/-! ## Rules -/

/-- The action that places a disc. -/
def placeAction (sq : Square) : Action :=
  { kindTag := 0, fromNode := -1, toNode := sq.val, aux := -1, payloadBits := 0 }

/-- The empty squares where a disc turns at least one. -/
def legalActionsFor (state : OthelloState) : List Action :=
  ((List.finRange 64).filter fun sq => state.board sq = 0
    ∧ 0 < (wouldFlip state sq).1).map placeAction

/-- `initial_state` of the rules. -/
def initialState : GameStateSnapshot := encode .default

/-- `legal_actions` of the rules. -/
def legalActions (snap : GameStateSnapshot) : List Action := legalActionsFor (decode snap)

/-- `apply` of the rules. -/
def apply (snap : GameStateSnapshot) (action : Action) : Option GameStateSnapshot :=
  (applyOthelloAction (decode snap) action).map encode

/-- How often a disc, or the empty square, occurs on a board. -/
def countOn (board : Board) (piece : Int) : Nat :=
  (List.finRange 64).countP fun sq => board sq = piece

/-- `outcome` of the rules: the discs are counted once the board is full. -/
def outcome (snap : GameStateSnapshot) : Outcome :=
  let board := (decode snap).board
  if 0 < countOn board 0 then { kind := .ongoing, reason := "ongoing" }
  else if countOn board 2 < countOn board 1 then { kind := .win 0, reason := "othelloDiskCount" }
  else if countOn board 1 < countOn board 2 then { kind := .win 1, reason := "othelloDiskCount" }
  else { kind := .draw, reason := "othelloDraw" }

/-! ## The search workbench -/

/-- The workbench of a search: the position and those it came from. -/
structure OthelloWorkbench where
  state : OthelloState
  undoStack : List OthelloState

namespace OthelloWorkbench

/-- `build_workbench`. -/
def build (snap : GameStateSnapshot) : OthelloWorkbench := { state := decode snap, undoStack := [] }

/-- `snapshot` of the workbench. -/
def snapshot (wb : OthelloWorkbench) : GameStateSnapshot := encode wb.state

/-- `is_terminal` of the workbench: nothing can be placed. -/
def isTerminal (wb : OthelloWorkbench) : Bool := (legalActionsFor wb.state).isEmpty

/-- `generate_legal` of the workbench. -/
def generateLegal (wb : OthelloWorkbench) : List Action := legalActionsFor wb.state

/-- `do_move` of the workbench. -/
def doMove (wb : OthelloWorkbench) (action : Action) : Option OthelloWorkbench :=
  (applyOthelloAction wb.state action).map fun state =>
    { state, undoStack := wb.state :: wb.undoStack }

/-- `undo_move` of the workbench. -/
def undoMove (wb : OthelloWorkbench) : OthelloWorkbench :=
  match wb.undoStack with
  | prev :: rest => { state := prev, undoStack := rest }
  | [] => wb

end OthelloWorkbench

end Sanmill.Othello
