import Sanmill.Core.Action

/-!
# The two contracts of a game

`Game` is what the search engine knows of a game: a mutable workbench with
`do_move` and `undo_move`, a static evaluator, a move generator, and a handful of
hooks. The search is generic in it, so a game is a record of these operations
over a type of workbenches.

The only law is `Reversible`: taking a generated move back restores the
workbench. Nothing else is assumed of a game anywhere.

`GameRules` is what a session knows of it: immutable snapshots. `GameKernel` is the
session object behind the front end: a current snapshot, the undo stack below it and
the redo stack beside it, for any rules.
-/

namespace Sanmill

/-- `MoveOrderAlgorithm`. -/
inductive MoveOrderAlgorithm where
  | alphaBeta
  | pvs
  | mtdf
  | mcts
  | random
deriving DecidableEq, Repr

/-- `MoveOrderContext`. -/
structure MoveOrderContext where
  algorithm : MoveOrderAlgorithm := .pvs
  skillLevel : Nat := 0
  shuffling : Bool := false
  hashMove : Option Action := none
  /-- Seed of the shuffled move priority. -/
  shuffleSeed : BitVec 64 := 0
deriving DecidableEq, Repr

/-- `Action::NONE`. -/
def Action.none : Action :=
  { kindTag := -1, fromNode := -1, toNode := -1, aux := -1, payloadBits := 0 }

/-- `Action::is_none`. -/
def Action.isNone (action : Action) : Bool := action.kindTag < 0

/-- The operations of `Workbench`, `Evaluator` and `Game` that a search uses. -/
structure Game (W : Type) where
  key : W → BitVec 64
  sideToMove : W → Int
  isTerminal : W → Bool
  doMove : W → Action → W
  undoMove : W → W
  hasCurrentRepetition : W → Bool
  currentPositionResetsRepetition : W → Bool
  /-- `Evaluator::score`, from the side to move. -/
  score : W → Int
  generateLegalCtx : W → MoveOrderContext → List Action
  generateQuiescenceCtx : W → MoveOrderContext → Int → List Action
  moveOrderBiasCtx : W → Action → MoveOrderContext → Int
  /-- The score of the i-th action, and whether they are out of order. -/
  moveOrderScoresCtx : W → List Action → MoveOrderContext → (Nat → Int) × Bool
  /-- Score of a finished position for the given player, at the given depth. -/
  terminalScore : W → Int → Int → Option Int
  searchAlphaOverride : W → Option Int
  uniqueRootMoveScore : Int
  nullMoveTerminalGuard : Int
  repetitionDrawBias : Int
  actionResetsRepetition : Action → Bool
  packTtAction : Action → Option (BitVec 16)
  unpackTtAction : BitVec 16 → Option Action
  mctsTerminalScore : W → Int
  rootShortCircuitDraw : W → Option String

/-- `do_move` and `undo_move` are inverse on generated moves. -/
structure Game.Reversible {W : Type} (g : Game W) : Prop where
  legal : ∀ wb ctx, ∀ a ∈ g.generateLegalCtx wb ctx, g.undoMove (g.doMove wb a) = wb
  quiescence : ∀ wb ctx kind, ∀ a ∈ g.generateQuiescenceCtx wb ctx kind,
    g.undoMove (g.doMove wb a) = wb

/-- The default `terminal_score`: the evaluator, whoever asks. -/
def defaultTerminalScore {W : Type} (isTerminal : W → Bool) (score : W → Int) (wb : W)
    (_perspective _depth : Int) : Option Int :=
  if isTerminal wb then some (score wb) else Option.none

/-! ## The game kernel -/

/-- The operations of `GameRules` a session uses. -/
structure GameRules where
  initialState : GameStateSnapshot
  legalActions : GameStateSnapshot → List Action
  applyWithHistory : GameStateSnapshot → Action → List GameStateSnapshot → GameStateSnapshot
  outcome : GameStateSnapshot → Outcome

/-- `is_legal` of a rule set: the action is in its list. -/
def GameRules.isLegal (rules : GameRules) (snap : GameStateSnapshot) (action : Action) : Bool :=
  (rules.legalActions snap).contains action

/-- `history` is chronological; the last entry of `redoStack` is redone first. -/
structure GameKernel where
  state : GameStateSnapshot
  history : List GameStateSnapshot
  redoStack : List GameStateSnapshot

namespace GameKernel

variable (rules : GameRules)

/-- `GameKernel::new`: the initial position with nothing to undo. -/
def new : GameKernel := { state := rules.initialState, history := [], redoStack := [] }

/-- `none` where the source returns `IllegalAction`. -/
def apply (kernel : GameKernel) (action : Action) : Option GameKernel :=
  if rules.isLegal kernel.state action then
    some
      { state := rules.applyWithHistory kernel.state action kernel.history
        history := kernel.history ++ [kernel.state]
        redoStack := [] }
  else none

/-- `none` where the source returns `UndoEmpty`. -/
def undo (kernel : GameKernel) : Option GameKernel :=
  kernel.history.getLast?.map fun prev =>
    { state := prev
      history := kernel.history.dropLast
      redoStack := kernel.redoStack ++ [kernel.state] }

/-- `none` where the source returns `RedoEmpty`. -/
def redo (kernel : GameKernel) : Option GameKernel :=
  kernel.redoStack.getLast?.map fun next =>
    { state := next
      history := kernel.history ++ [kernel.state]
      redoStack := kernel.redoStack.dropLast }

/-- `apply` for callers that have checked the action already. -/
def applyUnchecked (kernel : GameKernel) (action : Action) : GameKernel :=
  { state := rules.applyWithHistory kernel.state action kernel.history
    history := kernel.history ++ [kernel.state]
    redoStack := [] }

/-- `reset`: back to the initial position, with nothing to undo or redo. -/
def reset (_kernel : GameKernel) : GameKernel :=
  { state := rules.initialState, history := [], redoStack := [] }

/-- `replace_state`. -/
def replaceState (_kernel : GameKernel) (newState : GameStateSnapshot) : GameKernel :=
  { state := newState, history := [], redoStack := [] }

/-- How many actions can be undone. -/
def undoDepth (kernel : GameKernel) : Nat := kernel.history.length

/-- How many undone actions can be redone. -/
def redoDepth (kernel : GameKernel) : Nat := kernel.redoStack.length

/-- `is_terminal`: the outcome of the current position is settled. -/
def isTerminal (kernel : GameKernel) : Bool := (rules.outcome kernel.state).kind ≠ .ongoing

end GameKernel

end Sanmill
