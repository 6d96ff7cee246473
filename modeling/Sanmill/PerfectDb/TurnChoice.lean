import Mathlib.Data.List.Sort
import Sanmill.Mill.LegalActions
import Sanmill.Mill.LegalApply
import Sanmill.PerfectDb.Query

/-!
# Turns and their outcomes

`all_logical_turn_outcomes_with_database` asks the database for every complete turn, and
`best_logical_turn_choices_with_ordering` keeps the best ones. The database is reached through
an `OutcomeSource`, whose monad carries the cache that a query may change.
-/

namespace Sanmill.PerfectDb

/-! ## Outcomes -/

namespace PerfectOutcome

/-- The order of outcomes without their steps. -/
def defaultRank (outcome : PerfectOutcome) : Int := outcome.wdl

/-- `strict_cmp`: fewer steps to a win are better, more to a loss. -/
def strictCmp (outcome other : PerfectOutcome) : Ordering :=
  match compare outcome.wdl other.wdl with
  | .eq =>
    match outcome, other with
    | .win steps, .win otherSteps => compare otherSteps steps
    | .loss steps, .loss otherSteps => compare steps otherSteps
    | _, _ => .eq
  | ordering => ordering

/-- The outcome seen from the other side. -/
def negate : PerfectOutcome → PerfectOutcome
  | .win steps => .loss steps
  | .draw steps => .draw steps
  | .loss steps => .win steps

end PerfectOutcome

/-- How the best turns are told from the others. -/
inductive PerfectMoveOrdering where
  | legacyWdl
  | strictSteps
deriving DecidableEq

/-- The comparison of an ordering. -/
def PerfectMoveOrdering.compare (ordering : PerfectMoveOrdering)
    (candidate incumbent : PerfectOutcome) : Ordering :=
  match ordering with
  | .legacyWdl => Ord.compare candidate.defaultRank incumbent.defaultRank
  | .strictSteps => candidate.strictCmp incumbent

/-! ## The database, as its callers use it -/

/-- A database as its callers see it. -/
structure OutcomeSource (m : Type → Type) where
  variant : DatabaseVariant
  evaluateOutcome : PerfectQuery → ExceptT (Fault DatabaseError) m (Option PerfectOutcome)

/-- A database that is open for `variant`; its cache is the state. -/
def Database.source (variant : DatabaseVariant) : OutcomeSource (StateM Database) where
  variant := variant
  evaluateOutcome query := ExceptT.mk fun db => db.evaluateOutcome query

/-- `DatabaseError` with `InvalidState`, which only these functions return. -/
inductive TurnError where
  | database (error : DatabaseError)
  | invalidTurns (error : LogicalTurnError)
  | invalidSide (side : Int)
deriving DecidableEq

/-- `is_missing_asset` of an error on the way. -/
def TurnError.isMissingAsset : TurnError → Bool
  | .database error => error.isMissingAsset
  | _ => false

/-- `PerfectLogicalTurnChoice`. -/
structure PerfectLogicalTurnChoice where
  actions : List Action
  tokens : List Text
  outcome : PerfectOutcome
deriving DecidableEq

/-- The order of `tokens`: strings are compared by their characters. -/
def tokensLe (left right : PerfectLogicalTurnChoice) : Prop :=
  (compare left.tokens right.tokens).isLE = true

instance (left right : PerfectLogicalTurnChoice) : Decidable (tokensLe left right) :=
  inferInstanceAs (Decidable (_ = true))

/-- The outcome of a finished position for the side at the root. -/
def terminalOutcomeForRoot (r : MillRules) (snap : GameStateSnapshot) (rootSide : Int) :
    Option PerfectOutcome :=
  match (r.outcome snap).kind with
  | .ongoing => none
  | .draw => some (.draw 0)
  | .win side => some (if side = rootSide then .win 0 else .loss 0)

section

variable {m : Type → Type} [Monad m] (source : OutcomeSource m) (r : MillRules)

/-- The database is that of the options. -/
def databaseMatchesOptions : Bool :=
  DatabaseVariant.fromMillOptions r.options = some source.variant

/-- The outcome of a state for the side to move, if the database has it. -/
def evaluateStateOutcomeWithDatabase (state : MillState) (sideToMove : Int) :
    ExceptT (Fault DatabaseError) m (Option PerfectOutcome) :=
  if !databaseMatchesOptions source r then pure none
  else
    match queryFromState state r.options sideToMove with
    | none => throw .panic
    | some none => pure none
    | some (some query) => source.evaluateOutcome query

/-- The answer of the database for a turn: a sector without a value is not covered. -/
def coveredOutcome :
    Except (Fault DatabaseError) (Option PerfectOutcome) →
      Except (Fault TurnError) (Option PerfectOutcome)
  | .ok outcome => .ok outcome
  | .error (.error (.missingSectorValue _)) => .ok none
  | .error (.error error) => .error (.error (.database error))
  | .error .panic => .error .panic

/-- The outcome of one turn, for the side that plays it. -/
def turnOutcome (rootSide : Int) (turn : MillLogicalTurn) :
    ExceptT (Fault TurnError) m (Option PerfectOutcome) :=
  match terminalOutcomeForRoot r turn.finalSnapshot rootSide with
  | some outcome => pure (some outcome)
  | none =>
    let finalSide := turn.finalSnapshot.sideToMove
    if finalSide ≠ 0 ∧ finalSide ≠ 1 then throw (.error (.invalidSide finalSide))
    else do
      let state := MillState.decode turn.finalSnapshot
      let outcome ← ExceptT.mk
        (coveredOutcome <$> (evaluateStateOutcomeWithDatabase source r state finalSide).run)
      pure (outcome.map fun outcome =>
        if finalSide = rootSide then outcome else outcome.negate)

/-- The loop over the turns; one that is not covered ends it. -/
def turnChoices (rootSide : Int) :
    List MillLogicalTurn → ExceptT (Fault TurnError) m (Option (List PerfectLogicalTurnChoice))
  | [] => pure (some [])
  | turn :: rest => do
    match ← turnOutcome source r rootSide turn with
    | none => pure none
    | some outcome => do
      let choices ← turnChoices rootSide rest
      pure (choices.map fun choices =>
        { actions := turn.actions, tokens := turn.actions.map encodeAction, outcome } :: choices)

/-- The turns in the order of their tokens; `None` when there are none. -/
def sortedChoices (choices : List PerfectLogicalTurnChoice) :
    Option (List PerfectLogicalTurnChoice) :=
  match choices.insertionSort tokensLe with
  | [] => none
  | sorted => some sorted

/-- Every whole turn of the side to move, with its outcome. -/
def allLogicalTurnOutcomesWithDatabase (snap : GameStateSnapshot)
    (history : List GameStateSnapshot) :
    ExceptT (Fault TurnError) m (Option (List PerfectLogicalTurnChoice)) :=
  let rootSide := snap.sideToMove
  if !databaseMatchesOptions source r then pure none
  else if rootSide ≠ 0 ∧ rootSide ≠ 1 then pure none
  else
    match r.legalLogicalTurns snap history with
    | .error error => throw (.error (.invalidTurns error))
    | .ok turns => do
      let choices ← turnChoices source r rootSide turns
      pure (choices.bind sortedChoices)

/-- One round of the selection: the best outcome so far, and its turns. -/
def keepBest (ordering : PerfectMoveOrdering)
    (best : Option PerfectOutcome × List PerfectLogicalTurnChoice)
    (choice : PerfectLogicalTurnChoice) :
    Option PerfectOutcome × List PerfectLogicalTurnChoice :=
  match best.1 with
  | none => (some choice.outcome, best.2 ++ [choice])
  | some incumbent =>
    match ordering.compare choice.outcome incumbent with
    | .gt => (some choice.outcome, [choice])
    | .eq => (some incumbent, best.2 ++ [choice])
    | .lt => best

/-- The turns that no other one beats. -/
def bestLogicalTurnChoicesWithOrdering (snap : GameStateSnapshot)
    (history : List GameStateSnapshot) (ordering : PerfectMoveOrdering) :
    ExceptT (Fault TurnError) m (Option (List PerfectLogicalTurnChoice)) := do
  let turns ← allLogicalTurnOutcomesWithDatabase source r snap history
  pure (turns.bind fun turns => sortedChoices (turns.foldl (keepBest ordering) (none, [])).2)

end

end Sanmill.PerfectDb
