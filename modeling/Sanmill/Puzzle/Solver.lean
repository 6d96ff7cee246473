import Sanmill.PerfectDb.TurnChoice

/-!
# Solution lines of a puzzle

`mill_puzzle/solver.rs` plays a database win out. `build_solution_lines` follows every fastest
win of the solving side, `build_principal_solution_line` only the first; the defender takes its
first best reply. The counter of complete turns runs down here: `remaining` is what is left of
`MAX_SOLUTION_LOGICAL_PLIES`.
-/

namespace Sanmill.Puzzle

open PerfectDb

/-- A ply of a solution as it is exported. -/
structure SolutionPly where
  notation_ : Text
  side : Int
deriving DecidableEq

/-- A line of a solution. -/
structure BuiltSolution where
  plies : List SolutionPly
  solverMoveCount : Nat
  sacrifice : Bool
  onlyMoveCount : Nat
  decisionPointCount : Nat
  doubleMill : Bool
  vsFlying : Bool
  immobilizationWin : Bool
deriving DecidableEq

/-- A line under construction. -/
structure LineState where
  snap : GameStateSnapshot
  history : List GameStateSnapshot
  plies : List SolutionPly
  solverMoveCount : Nat
  sacrifice : Bool
  onlyMoveCount : Nat
  decisionPointCount : Nat
  doubleMill : Bool
  vsFlying : Bool
  previousSolverTurnClosedMill : Bool

/-- The line with nothing played. -/
def LineState.new (rootSnap : GameStateSnapshot) : LineState where
  snap := rootSnap
  history := []
  plies := []
  solverMoveCount := 0
  sacrifice := false
  onlyMoveCount := 0
  decisionPointCount := 0
  doubleMill := false
  vsFlying := false
  previousSolverTurnClosedMill := false

/-- No line is longer than this. -/
def maxSolutionLogicalPlies : Nat := 60

/-- No puzzle has more lines than this. -/
def maxExportedSolutionLines : Nat := 128

/-- How the lines fail to be built. -/
inductive SolutionBuildFailure where
  | emptyStrategy
  | lineCap
  | unexpectedTerminal
  | logicalPlyCap
  | databaseUnavailable
  | defenderEscaped
deriving DecidableEq, Repr

/-- `assert!`. -/
def assertThat (condition : Prop) [Decidable condition] :
    Except (Fault SolutionBuildFailure) Unit :=
  if condition then .ok () else .error .panic

section

variable (r : MillRules) (solverSide : Int)

/-- What a turn says about the line, before it is played. -/
def noteTurn (state : LineState) (turn : PerfectLogicalTurnChoice) : LineState :=
  let mover := state.snap.sideToMove
  let millState := MillState.decode state.snap
  let vsFlying := state.vsFlying
    || (mover ≠ solverSide && r.options.mayFly && millState.phase = .moving
      && millState.piecesOnBoard (sideIndex mover) ≤ r.options.flyPieceCount)
  let closesMill := turn.actions.any fun action => action.kindTag = MillActionKind.remove.toI16
  if mover = solverSide then
    { state with
      vsFlying
      solverMoveCount := state.solverMoveCount + 1
      doubleMill := state.doubleMill || (closesMill && state.previousSolverTurnClosedMill)
      previousSolverTurnClosedMill := closesMill }
  else { state with vsFlying, sacrifice := state.sacrifice || closesMill }

/-- One action of a turn. -/
def playAction (mover : Int) (state : LineState) (action : Action) : LineState :=
  { state with
    plies := state.plies ++ [⟨encodeAction action, mover⟩]
    snap := r.applyWithHistory state.snap action state.history
    history := state.history ++ [state.snap] }

/-- The loop over the actions, which must all belong to one side. -/
def playActions (mover : Int) :
    List Action → LineState → Except (Fault SolutionBuildFailure) LineState
  | [], state => .ok state
  | action :: rest, state => do
    assertThat (state.snap.sideToMove = mover)
    playActions mover rest (playAction r mover state action)

/-- Plays a whole turn and notes its plies. -/
def applyTurn (state : LineState) (turn : PerfectLogicalTurnChoice) :
    Except (Fault SolutionBuildFailure) LineState := do
  assertThat (turn.actions ≠ [])
  let mover := state.snap.sideToMove
  let state ← playActions r mover turn.actions (noteTurn r solverSide state turn)
  assertThat ((r.outcome state.snap).kind ≠ .ongoing ∨ state.snap.sideToMove ≠ mover)
  .ok state

/-- The finished line. -/
def finishSolution (state : LineState) : BuiltSolution where
  plies := state.plies
  solverMoveCount := state.solverMoveCount
  sacrifice := state.sacrifice
  onlyMoveCount := state.onlyMoveCount
  decisionPointCount := state.decisionPointCount
  doubleMill := state.doubleMill
  vsFlying := state.vsFlying
  immobilizationWin :=
    r.options.piecesAtLeastCount
      ≤ (MillState.decode state.snap).piecesOnBoard (sideIndex (1 - solverSide))

/-- The answer of the database: what is missing is a failure, any other error a panic. -/
def bestTurnsOf :
    Except (Fault TurnError) (Option (List PerfectLogicalTurnChoice)) →
      Except (Fault SolutionBuildFailure) (List PerfectLogicalTurnChoice)
  | .ok (some (first :: rest)) => .ok (first :: rest)
  | .ok _ => .error (.error .databaseUnavailable)
  | .error (.error error) =>
    if error.isMissingAsset then .error (.error .databaseUnavailable) else .error .panic
  | .error .panic => .error .panic

/-- The counters of a decision of the solver. -/
def noteDecision (onlyMove : Bool) (state : LineState) : LineState :=
  { state with
    decisionPointCount := state.decisionPointCount + 1
    onlyMoveCount := if onlyMove then state.onlyMoveCount + 1 else state.onlyMoveCount }

end

section

variable {m : Type → Type} [Monad m] (source : OutcomeSource m) (r : MillRules) (solverSide : Int)

/-- A check or a step that does not ask the database. -/
def pureStep {α : Type} (x : Except (Fault SolutionBuildFailure) α) :
    ExceptT (Fault SolutionBuildFailure) m α :=
  ExceptT.mk (pure x)

/-- The best turns of the side to move, by the steps. -/
def bestTurns (snap : GameStateSnapshot) (history : List GameStateSnapshot) :
    ExceptT (Fault SolutionBuildFailure) m (List PerfectLogicalTurnChoice) :=
  ExceptT.mk <|
    bestTurnsOf <$> (bestLogicalTurnChoicesWithOrdering source r snap history .strictSteps).run

/-- `expand_lines`: every best turn of a position, a line for each. -/
def expandLines (maxExportedLines : Nat) :
    Nat → LineState → List BuiltSolution →
      ExceptT (Fault SolutionBuildFailure) m (List BuiltSolution)
  | remaining, state, solutions =>
    match (r.outcome state.snap).kind with
    | .win side =>
      if side = solverSide then
        if maxExportedLines ≤ solutions.length then throw (.error .lineCap)
        else pure (solutions ++ [finishSolution r solverSide state])
      else throw (.error .unexpectedTerminal)
    | .draw => throw (.error .unexpectedTerminal)
    | .ongoing =>
      match remaining with
      | 0 => throw (.error .logicalPlyCap)
      | remaining + 1 => do
        let mover := state.snap.sideToMove
        pureStep (assertThat (mover = 0 ∨ mover = 1))
        let choices ← bestTurns source r state.snap state.history
        if mover = solverSide then do
          pureStep (assertThat (∀ choice ∈ choices, choice.outcome.wdl = 1))
          choices.foldlM
            (fun solutions choice => do
              let branch ← pureStep
                (applyTurn r solverSide (noteDecision (choices.length = 1) state) choice)
              expandLines maxExportedLines remaining branch solutions)
            solutions
        else
          match choices with
          | [] => throw .panic
          | choice :: _ =>
            if choice.outcome.wdl ≠ -1 then throw (.error .defenderEscaped)
            else do
              let continuation ← pureStep (applyTurn r solverSide state choice)
              expandLines maxExportedLines remaining continuation solutions

/-- What both builders assert of their arguments. -/
def checkArguments (firstTurn : PerfectLogicalTurnChoice) :
    Except (Fault SolutionBuildFailure) Unit :=
  do
    assertThat (solverSide = 0 ∨ solverSide = 1)
    assertThat (firstTurn.outcome.wdl = 1)

/-- `build_solution_lines`: the lines after a first turn. -/
def buildSolutionLines (rootSnap : GameStateSnapshot) (firstTurn : PerfectLogicalTurnChoice)
    (maxExportedLines : Nat) : ExceptT (Fault SolutionBuildFailure) m (List BuiltSolution) := do
  pureStep (checkArguments solverSide firstTurn)
  pureStep (assertThat (1 ≤ maxExportedLines ∧ maxExportedLines ≤ maxExportedSolutionLines))
  let state ← pureStep (applyTurn r solverSide (.new rootSnap) firstTurn)
  let solutions ← expandLines source r solverSide maxExportedLines (maxSolutionLogicalPlies - 1)
    state []
  if solutions = [] then throw (.error .emptyStrategy) else pure solutions

/-- The loop of `build_principal_solution_line`. -/
def principalLine :
    Nat → LineState → ExceptT (Fault SolutionBuildFailure) m BuiltSolution
  | remaining, state =>
    match (r.outcome state.snap).kind with
    | .win side =>
      if side = solverSide then pure (finishSolution r solverSide state)
      else throw (.error .unexpectedTerminal)
    | .draw => throw (.error .unexpectedTerminal)
    | .ongoing =>
      match remaining with
      | 0 => throw (.error .logicalPlyCap)
      | remaining + 1 => do
        let mover := state.snap.sideToMove
        pureStep (assertThat (mover = 0 ∨ mover = 1))
        let choices ← bestTurns source r state.snap state.history
        match choices with
        | [] => throw .panic
        | choice :: _ =>
          if mover = solverSide then do
            pureStep (assertThat (∀ choice ∈ choices, choice.outcome.wdl = 1))
            let state ← pureStep
              (applyTurn r solverSide (noteDecision (choices.length = 1) state) choice)
            principalLine remaining state
          else if choice.outcome.wdl ≠ -1 then throw (.error .defenderEscaped)
          else do
            let state ← pureStep (applyTurn r solverSide state choice)
            principalLine remaining state

/-- `build_principal_solution_line`: the first best turn each time. -/
def buildPrincipalSolutionLine (rootSnap : GameStateSnapshot)
    (firstTurn : PerfectLogicalTurnChoice) :
    ExceptT (Fault SolutionBuildFailure) m BuiltSolution := do
  pureStep (checkArguments solverSide firstTurn)
  let state ← pureStep (applyTurn r solverSide (.new rootSnap) firstTurn)
  principalLine source r solverSide (maxSolutionLogicalPlies - 1) state

end

end Sanmill.Puzzle
