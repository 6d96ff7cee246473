import Sanmill.Lib.Expansion
import Sanmill.Proof.Puzzle.LostWin

/-!
# What the solution lines are

The builders walk a tree: below a position of the solver are its strict-best turns, below one
of the defender is its first. With a sound database they collect the ends of that tree from
left to right, so they panic exactly when the first end that is no win is a position in which
the strategy trips, and otherwise the lines are the plays of the strategy.
-/

namespace Sanmill.Puzzle

open PerfectDb

variable {r : MillRules} {solverSide : Int} {state : LineState} {provider : DatabaseProvider}
  {variant : DatabaseVariant} {secVals : SecValTable} {source : OutcomeSource Id}

/-! ## The tree of the strategy -/

/-- The strict-best turns of a position. -/
def strictBest (source : OutcomeSource Id) (r : MillRules) (state : LineState) :
    Except (Fault SolutionBuildFailure) (List PerfectLogicalTurnChoice) :=
  bestTurnsOf (bestLogicalTurnChoicesWithOrdering source r state.snap state.history
    .strictSteps).run

/-- The states after the turns that the strategy takes; the solver must go on winning. -/
def strategyTurns (source : OutcomeSource Id) (r : MillRules) (solverSide : Int)
    (state : LineState) : Except (Fault SolutionBuildFailure) (List LineState) := do
  let choices ← strictBest source r state
  if state.snap.sideToMove = solverSide then do
    assertThat (∀ choice ∈ choices, choice.outcome.wdl = 1)
    .ok (choices.map (advance r solverSide (noteDecision (choices.length = 1) state)))
  else
    match choices with
    | [] => .error .panic
    | choice :: _ =>
      if choice.outcome.wdl ≠ -1 then .error (.error .defenderEscaped)
      else .ok [advance r solverSide state choice]

def strategy (source : OutcomeSource Id) (r : MillRules) (solverSide : Int) :
    Expansion LineState (Fault SolutionBuildFailure) BuiltSolution where
  finished state :=
    match (r.outcome state.snap).kind with
    | .win side =>
      some (if side = solverSide then .ok (finishSolution r solverSide state)
        else .error (.error .unexpectedTerminal))
    | .draw => some (.error (.error .unexpectedTerminal))
    | .ongoing => none
  below := strategyTurns source r solverSide
  cut := .error .logicalPlyCap

theorem strictBest_eq_ok_iff {choices : List PerfectLogicalTurnChoice} :
    strictBest source r state = .ok choices
      ↔ (bestLogicalTurnChoicesWithOrdering source r state.snap state.history .strictSteps).run
        = .ok (some choices) := by
  unfold strictBest
  constructor
  · intro h
    cases hbest : (bestLogicalTurnChoicesWithOrdering source r state.snap state.history
        .strictSteps).run with
    | error e =>
      rw [hbest] at h
      cases e with
      | panic => cases h
      | error e =>
        unfold bestTurnsOf at h
        dsimp only at h
        split at h
        · cases h
        · cases h
    | ok found =>
      rw [hbest] at h
      cases found with
      | none => cases h
      | some found =>
        cases found with
        | nil => cases h
        | cons first rest => rw [Except.ok.inj h]
  · intro h
    rw [h]
    -- the source reports an empty list as no turn, but a best turn exists where it is asked
    obtain ⟨-, -, hne, -⟩ := isTurn_of_best h
    cases choices with
    | nil => exact absurd rfl hne
    | cons first rest => rfl

/-- What is known of the positions in which the strategy looks on. -/
theorem isTurn_of_strictBest {choices : List PerfectLogicalTurnChoice}
    (h : strictBest source r state = .ok choices) :
    choices ≠ [] ∧ ∀ choice ∈ choices, IsTurn r state.position choice := by
  obtain ⟨-, -, hne, hturns⟩ := isTurn_of_best (strictBest_eq_ok_iff.1 h)
  exact ⟨hne, hturns⟩

/-- What can be below a position: the turns of the solver, or the first of the defender. -/
theorem strategyTurns_eq_ok_iff {states : List LineState} :
    strategyTurns source r solverSide state = .ok states
      ↔ ∃ choices, strictBest source r state = .ok choices
        ∧ if state.snap.sideToMove = solverSide then
            (∀ choice ∈ choices, choice.outcome.wdl = 1)
              ∧ states = choices.map
                (advance r solverSide (noteDecision (choices.length = 1) state))
          else ∃ choice, choices.head? = some choice ∧ choice.outcome.wdl = -1
            ∧ states = [advance r solverSide state choice] := by
  unfold strategyTurns
  rw [Except.bind_ok_iff]
  refine exists_congr fun choices => and_congr_right fun _ => ?_
  by_cases hside : state.snap.sideToMove = solverSide
  -- the solver plays every best turn and asserts that each is a win
  · rw [if_pos hside, if_pos hside]
    unfold assertThat
    by_cases hwins : ∀ choice ∈ choices, choice.outcome.wdl = 1
    · rw [if_pos hwins]
      constructor
      · intro h
        exact ⟨hwins, (Except.ok.inj h).symm⟩
      · intro h
        exact congrArg Except.ok h.2.symm
    · rw [if_neg hwins]
      constructor
      · intro h
        cases h
      · intro h
        exact absurd h.1 hwins
  -- the defender plays the first, which must be a loss
  · rw [if_neg hside, if_neg hside]
    cases choices with
    | nil =>
      constructor
      · intro h
        cases h
      · intro h
        obtain ⟨choice, hchoice, -⟩ := h
        cases hchoice
    | cons first rest =>
      dsimp only
      by_cases hescaped : first.outcome.wdl ≠ -1
      · rw [if_pos hescaped]
        constructor
        · intro h
          cases h
        · intro h
          obtain ⟨choice, hchoice, hwdl, -⟩ := h
          obtain rfl := Option.some.inj hchoice
          exact absurd hwdl hescaped
      · rw [if_neg hescaped]
        constructor
        · intro h
          exact ⟨first, rfl, not_not.1 hescaped, (Except.ok.inj h).symm⟩
        · intro h
          obtain ⟨choice, hchoice, -, rfl⟩ := h
          obtain rfl := Option.some.inj hchoice
          rfl

/-- Why nothing is below a position. -/
theorem strategyTurns_eq_error_iff {e : Fault SolutionBuildFailure} :
    strategyTurns source r solverSide state = .error e
      ↔ strictBest source r state = .error e ∨ ∃ choices, strictBest source r state = .ok choices
        ∧ if state.snap.sideToMove = solverSide then
            e = .panic ∧ ∃ choice ∈ choices, choice.outcome.wdl ≠ 1
          else e = .error .defenderEscaped
            ∧ ∃ choice, choices.head? = some choice ∧ choice.outcome.wdl ≠ -1 := by
  unfold strategyTurns
  cases hbest : strictBest source r state with
  | error e' =>
    constructor
    · intro h
      exact .inl (congrArg Except.error (Except.error.inj h))
    · intro h
      rcases h with h | ⟨choices, hok, -⟩
      · exact congrArg Except.error (Except.error.inj h)
      · cases hok
  | ok choices =>
    simp only [reduceCtorEq, false_or, Except.ok.injEq, exists_eq_left']
    show (if state.snap.sideToMove = solverSide then _ else _) = _ ↔ _
    by_cases hside : state.snap.sideToMove = solverSide
    · rw [if_pos hside, if_pos hside]
      unfold assertThat
      by_cases hwins : ∀ choice ∈ choices, choice.outcome.wdl = 1
      · rw [if_pos hwins]
        constructor
        · intro h
          cases h
        · intro h
          obtain ⟨-, choice, hchoice, hwdl⟩ := h
          exact absurd (hwins choice hchoice) hwdl
      · rw [if_neg hwins]
        constructor
        · intro h
          push Not at hwins
          exact ⟨(Except.error.inj h).symm, hwins⟩
        · intro h
          rw [h.1]
          rfl
    · rw [if_neg hside, if_neg hside]
      cases choices with
      -- among best turns there is a first, so only the outcome of it can fail
      | nil => exact absurd rfl (isTurn_of_strictBest hbest).1
      | cons first rest =>
        dsimp only
        by_cases hescaped : first.outcome.wdl ≠ -1
        · rw [if_pos hescaped]
          constructor
          · intro h
            exact ⟨(Except.error.inj h).symm, first, rfl, hescaped⟩
          · intro h
            rw [h.1]
        · rw [if_neg hescaped]
          constructor
          · intro h
            cases h
          · intro h
            obtain ⟨-, choice, hchoice, hwdl⟩ := h
            obtain rfl := Option.some.inj hchoice
            exact absurd hwdl hescaped

theorem strategyTurns_ne_nil (state : LineState) :
    strategyTurns source r solverSide state ≠ .ok [] := by
  intro h
  obtain ⟨choices, hchoices, hturns⟩ := strategyTurns_eq_ok_iff.1 h
  obtain ⟨hne, -⟩ := isTurn_of_strictBest hchoices
  split at hturns
  · exact hne (List.map_eq_nil_iff.1 hturns.2.symm)
  · obtain ⟨choice, -, -, hnil⟩ := hturns
    cases hnil

/-! ## The builders walk the tree -/

/-- Play goes on only with a definite side to move. -/
def Definite (r : MillRules) (state : LineState) : Prop :=
  (r.outcome state.snap).kind = .ongoing → state.snap.sideToMove = 0 ∨ state.snap.sideToMove = 1

theorem definite_advance {choice : PerfectLogicalTurnChoice} (h : IsTurn r state.position choice) :
    Definite r (advance r solverSide state choice) := by
  have hend : (advance r solverSide state choice).snap
      = (played r state.position choice.actions).1 :=
    congrArg Prod.fst (@advance_position r solverSide state choice)
  unfold Definite
  rw [hend]
  exact h.definite

theorem bestTurns_uncached (state : LineState) :
    Uncached provider variant secVals
      (bestTurns (Database.source variant) r state.snap state.history)
      (strictBest (freshSource provider variant secVals) r state) :=
  Transparent.reread bestTurnsOf (bestChoices_uncached state.snap state.history .strictSteps)

theorem strategy_finished_of_ongoing (hkind : (r.outcome state.snap).kind = .ongoing) :
    (strategy source r solverSide).finished state = none := by
  unfold strategy
  dsimp only
  rw [hkind]

theorem strategy_finished_of_win {side : Int} (hkind : (r.outcome state.snap).kind = .win side) :
    (strategy source r solverSide).finished state
      = some (if side = solverSide then .ok (finishSolution r solverSide state)
        else .error (.error .unexpectedTerminal)) := by
  unfold strategy
  dsimp only
  rw [hkind]

theorem strategy_finished_of_draw (hkind : (r.outcome state.snap).kind = .draw) :
    (strategy source r solverSide).finished state = some (.error (.error .unexpectedTerminal)) := by
  unfold strategy
  dsimp only
  rw [hkind]

/-- **`expand_lines` collects from the tree.** -/
theorem expandLines_uncached (maxExportedLines n : Nat) (state : LineState)
    (solutions : List BuiltSolution) (hdefinite : Definite r state) :
    Uncached provider variant secVals
      (expandLines (Database.source variant) r solverSide maxExportedLines n state solutions)
      ((strategy (freshSource provider variant secVals) r solverSide).collect maxExportedLines
        (.error .lineCap) n state solutions) := by
  -- the fuel of the source is the depth of the expansion, and the answers of the database do not
  -- depend on what was asked before
  induction n generalizing state solutions with
  | zero =>
    unfold expandLines Expansion.collect
    cases hkind : (r.outcome state.snap).kind with
    | ongoing =>
      rw [strategy_finished_of_ongoing hkind]
      exact Transparent.throw _
    | draw =>
      rw [strategy_finished_of_draw hkind]
      exact Transparent.throw _
    | win side =>
      rw [strategy_finished_of_win hkind]
      dsimp only
      split
      · dsimp only
        split
        · exact Transparent.throw _
        · exact Transparent.pure _
      · exact Transparent.throw _
  | succ n ih =>
    cases hkind : (r.outcome state.snap).kind with
    | draw =>
      unfold expandLines Expansion.collect
      rw [strategy_finished_of_draw hkind, hkind]
      exact Transparent.throw _
    | win side =>
      unfold expandLines Expansion.collect
      rw [strategy_finished_of_win hkind, hkind]
      dsimp only
      split
      · dsimp only
        split
        · exact Transparent.throw _
        · exact Transparent.pure _
      · exact Transparent.throw _
    -- a running position asks the database once, then goes below each turn
    | ongoing =>
      rw [Expansion.collect_below (strategy_finished_of_ongoing hkind)]
      show Uncached _ _ _ _ (strategyTurns _ _ _ state >>= _)
      unfold expandLines strategyTurns
      rw [hkind, bind_assoc]
      dsimp only
      refine Transparent.skip (if_pos (hdefinite hkind)) ?_
      refine Transparent.bind (bestTurns_uncached state) ?_
      intro choices hchoices
      obtain ⟨-, hturns⟩ := isTurn_of_strictBest hchoices
      by_cases hside : state.snap.sideToMove = solverSide
      · rw [if_pos hside, if_pos hside, bind_assoc]
        refine Transparent.bind (Transparent.fixed _) ?_
        intro _ _
        show Uncached _ _ _ _ (List.foldlM _ solutions (choices.map _))
        rw [List.foldlM_map]
        refine Transparent.foldlM ?_ solutions
        intro found choice hchoice
        have hturn : IsTurn r (noteDecision (choices.length = 1) state).position choice :=
          hturns choice hchoice
        exact Transparent.skip (applyTurn_eq hturn) (ih _ _ (definite_advance hturn))
      · rw [if_neg hside, if_neg hside]
        cases choices with
        | nil => exact Transparent.throw _
        | cons choice rest =>
          have hturn : IsTurn r state.position choice := hturns choice List.mem_cons_self
          dsimp only
          split
          · exact Transparent.throw _
          · refine Transparent.skip (applyTurn_eq hturn) ?_
            have hone : ∀ (step : List BuiltSolution → LineState →
                Except (Fault SolutionBuildFailure) (List BuiltSolution)) (next : LineState),
                ((.ok [next] : Except (Fault SolutionBuildFailure) (List LineState)) >>=
                  fun states => states.foldlM step solutions) = step solutions next := by
              intro step next
              show List.foldlM step solutions [next] = _
              rw [List.foldlM_cons]
              exact bind_pure _
            rw [hone]
            exact ih _ _ (definite_advance hturn)

/-- **The principal line is the leftmost way down.** -/
theorem principalLine_uncached (n : Nat) (state : LineState) (hdefinite : Definite r state) :
    Uncached provider variant secVals (principalLine (Database.source variant) r solverSide n state)
      ((strategy (freshSource provider variant secVals) r solverSide).leftmost n state) := by
  -- the same induction as for all lines, along the first turn only
  induction n generalizing state with
  | zero =>
    unfold principalLine Expansion.leftmost
    cases hkind : (r.outcome state.snap).kind with
    | ongoing =>
      rw [strategy_finished_of_ongoing hkind]
      exact Transparent.throw _
    | draw =>
      rw [strategy_finished_of_draw hkind]
      exact Transparent.throw _
    | win side =>
      rw [strategy_finished_of_win hkind]
      dsimp only
      split
      · exact Transparent.pure _
      · exact Transparent.throw _
  | succ n ih =>
    cases hkind : (r.outcome state.snap).kind with
    | draw =>
      unfold principalLine Expansion.leftmost
      rw [strategy_finished_of_draw hkind, hkind]
      exact Transparent.throw _
    | win side =>
      unfold principalLine Expansion.leftmost
      rw [strategy_finished_of_win hkind, hkind]
      dsimp only
      split
      · exact Transparent.pure _
      · exact Transparent.throw _
    | ongoing =>
      rw [Expansion.leftmost_below (strategy_finished_of_ongoing hkind)]
      show Uncached _ _ _ _ (strategyTurns _ _ _ state >>= _)
      unfold principalLine strategyTurns
      rw [hkind, bind_assoc]
      dsimp only
      refine Transparent.skip (if_pos (hdefinite hkind)) ?_
      refine Transparent.bind (bestTurns_uncached state) ?_
      intro choices hchoices
      obtain ⟨hne, hturns⟩ := isTurn_of_strictBest hchoices
      cases choices with
      | nil => exact absurd rfl hne
      | cons choice rest =>
        by_cases hside : state.snap.sideToMove = solverSide
        · rw [if_pos hside, bind_assoc]
          dsimp only
          rw [if_pos hside]
          refine Transparent.bind (Transparent.fixed _) ?_
          intro _ _
          have hturn : IsTurn r (noteDecision ((choice :: rest).length = 1) state).position
              choice :=
            hturns choice List.mem_cons_self
          exact Transparent.skip (applyTurn_eq hturn) (ih _ (definite_advance hturn))
        · have hturn : IsTurn r state.position choice := hturns choice List.mem_cons_self
          rw [if_neg hside]
          dsimp only
          rw [if_neg hside]
          split
          · exact Transparent.throw _
          · exact Transparent.skip (applyTurn_eq hturn) (ih _ (definite_advance hturn))

/-! ## The plays of the strategy -/

/--
The games from a position on in which the solver takes any strict-best turn and the defender
its first one.
-/
inductive StrategyPlay (db : Database) (variant : DatabaseVariant) (r : MillRules)
    (solverSide : Int) : GameStateSnapshot × List GameStateSnapshot → List Action → Prop
  | decided {s : GameStateSnapshot × List GameStateSnapshot}
      (h : (r.outcome s.1).kind ≠ .ongoing) : StrategyPlay db variant r solverSide s []
  | turn {s : GameStateSnapshot × List GameStateSnapshot} {choices : List PerfectLogicalTurnChoice}
      {choice : PerfectLogicalTurnChoice} {rest : List Action}
      (hbest : StrictBest db variant r s choices)
      (hchoice :
        if s.1.sideToMove = solverSide then choice ∈ choices else choices.head? = some choice)
      (hrest : StrategyPlay db variant r solverSide (played r s choice.actions) rest) :
      StrategyPlay db variant r solverSide s (choice.actions ++ rest)

/-- The plies of a game of legal actions that the solver wins. -/
def WinningPlies (r : MillRules) (root : GameStateSnapshot) (solverSide : Int)
    (plies : List SolutionPly) : Prop :=
  ∃ actions, (gameWalk r).Complete (root, []) actions (played r (root, []) actions)
    ∧ (r.outcome (played r (root, []) actions).1).kind = .win solverSide
    ∧ plies = spelled r (root, []) actions

section

variable {db : Database} {solution : BuiltSolution}

theorem strictBest_eq (hdb : Database.Sound provider variant secVals db) :
    strictBest (freshSource provider variant secVals) r state
      = bestTurnsOf (bestAnswer db variant r .strictSteps state.position) := by
  rw [bestAnswer_eq hdb]
  rfl

theorem strictBest_iff (hdb : Database.Sound provider variant secVals db)
    {choices : List PerfectLogicalTurnChoice} :
    StrictBest db variant r state.position choices
      ↔ strictBest (freshSource provider variant secVals) r state = .ok choices := by
  unfold StrictBest
  rw [bestAnswer_eq hdb, strictBest_eq_ok_iff]
  exact Iff.rfl

theorem strategy_finished_eq_none_iff :
    (strategy source r solverSide).finished state = none
      ↔ (r.outcome state.snap).kind = .ongoing := by
  cases hkind : (r.outcome state.snap).kind with
  | ongoing =>
    rw [strategy_finished_of_ongoing hkind]
    exact ⟨fun _ => rfl, fun _ => rfl⟩
  | draw =>
    rw [strategy_finished_of_draw hkind]
    constructor
    · intro h
      cases h
    · intro h
      cases h
  | win side =>
    rw [strategy_finished_of_win hkind]
    constructor
    · intro h
      cases h
    · intro h
      cases h

theorem strategy_finished_eq_ok (h : (strategy source r solverSide).finished state
    = some (.ok solution)) :
    (r.outcome state.snap).kind = .win solverSide
      ∧ solution = finishSolution r solverSide state := by
  cases hkind : (r.outcome state.snap).kind with
  | ongoing =>
    rw [strategy_finished_of_ongoing hkind] at h
    cases h
  | draw =>
    rw [strategy_finished_of_draw hkind] at h
    cases Option.some.inj h
  | win side =>
    rw [strategy_finished_of_win hkind] at h
    by_cases hside : side = solverSide
    · rw [if_pos hside] at h
      rw [hside]
      exact ⟨rfl, (Except.ok.inj (Option.some.inj h)).symm⟩
    · rw [if_neg hside] at h
      cases Option.some.inj h

/-- A state below a position comes from a turn that the strategy takes there. -/
theorem mem_strategyTurns {states : List LineState} {next : LineState}
    (h : strategyTurns source r solverSide state = .ok states) (hnext : next ∈ states) :
    ∃ choices choice, strictBest source r state = .ok choices
      ∧ (if state.snap.sideToMove = solverSide then choice ∈ choices
        else choices.head? = some choice)
      ∧ next.position = played r state.position choice.actions
      ∧ next.plies = state.plies ++ spelled r state.position choice.actions
      ∧ IsTurn r state.position choice := by
  obtain ⟨choices, hbest, hturns⟩ := strategyTurns_eq_ok_iff.1 h
  obtain ⟨-, hall⟩ := isTurn_of_strictBest hbest
  by_cases hside : state.snap.sideToMove = solverSide
  · rw [if_pos hside] at hturns
    obtain ⟨-, rfl⟩ := hturns
    obtain ⟨choice, hchoice, rfl⟩ := List.mem_map.1 hnext
    have hturn : IsTurn r (noteDecision (choices.length = 1) state).position choice :=
      hall choice hchoice
    refine ⟨choices, choice, hbest, ?_, advance_position choice, advance_plies hturn, hturn⟩
    rw [if_pos hside]
    exact hchoice
  · rw [if_neg hside] at hturns
    obtain ⟨choice, hfirst, -, rfl⟩ := hturns
    obtain rfl := List.mem_singleton.1 hnext
    have hturn : IsTurn r state.position choice := hall choice (List.mem_of_head? hfirst)
    refine ⟨choices, choice, hbest, ?_, advance_position choice, advance_plies hturn, hturn⟩
    rw [if_neg hside]
    exact hfirst

/-- Every turn that the strategy takes has a state below the position. -/
theorem exists_strategyTurns {states : List LineState} {choices : List PerfectLogicalTurnChoice}
    {choice : PerfectLogicalTurnChoice} (h : strategyTurns source r solverSide state = .ok states)
    (hbest : strictBest source r state = .ok choices)
    (hchoice : if state.snap.sideToMove = solverSide then choice ∈ choices
      else choices.head? = some choice) :
    ∃ next ∈ states, next.position = played r state.position choice.actions
      ∧ next.plies = state.plies ++ spelled r state.position choice.actions := by
  obtain ⟨choices', hbest', hturns⟩ := strategyTurns_eq_ok_iff.1 h
  obtain rfl := Except.ok.inj (hbest'.symm.trans hbest)
  obtain ⟨-, hall⟩ := isTurn_of_strictBest hbest
  by_cases hside : state.snap.sideToMove = solverSide
  · rw [if_pos hside] at hturns hchoice
    obtain ⟨-, rfl⟩ := hturns
    have hturn : IsTurn r (noteDecision (choices'.length = 1) state).position choice :=
      hall choice hchoice
    exact ⟨_, List.mem_map_of_mem hchoice, advance_position choice, advance_plies hturn⟩
  · rw [if_neg hside] at hturns hchoice
    obtain ⟨first, hfirst, -, rfl⟩ := hturns
    obtain rfl := Option.some.inj (hfirst.symm.trans hchoice)
    have hturn : IsTurn r state.position first := hall first (List.mem_of_head? hfirst)
    exact ⟨_, List.mem_singleton_self _, advance_position first, advance_plies hturn⟩

/-- **What the tree leads to are plays of the strategy**, legal and won by the solver. -/
theorem play_of_leads (hdb : Database.Sound provider variant secVals db)
    (h : (strategy (freshSource provider variant secVals) r solverSide).Leads state solution) :
    ∃ rest, StrategyPlay db variant r solverSide state.position rest
      ∧ (gameWalk r).Complete state.position rest (played r state.position rest)
      ∧ (r.outcome (played r state.position rest).1).kind = .win solverSide
      ∧ solution.plies = state.plies ++ spelled r state.position rest := by
  induction h with
  | @here state solution h =>
    obtain ⟨hwin, rfl⟩ := strategy_finished_eq_ok h
    have hover : (r.outcome state.snap).kind ≠ .ongoing := by
      rw [hwin]
      exact nofun
    exact ⟨[], .decided hover, .nil (decide_eq_true hover), hwin, (List.append_nil _).symm⟩
  | @step state next states solution h hbelow hnext _ ih =>
    obtain ⟨rest, hplay, hlegal, hwin, hplies⟩ := ih
    obtain ⟨choices, choice, hbest, hchoice, hposition, hwritten, hturn⟩ :=
      mem_strategyTurns hbelow hnext
    rw [hposition] at hplay hlegal hwin hplies
    refine ⟨choice.actions ++ rest, .turn ((strictBest_iff hdb).2 hbest) hchoice hplay, ?_, ?_, ?_⟩
    · rw [played_append]
      exact complete_append hturn.line hlegal
    · rw [played_append]
      exact hwin
    · rw [hplies, hwritten, spelled_append, List.append_assoc]

/-- **Every play of the strategy is led to**, where no end of the tree is an error. -/
theorem leads_of_play (hdb : Database.Sound provider variant secVals db)
    {s : GameStateSnapshot × List GameStateSnapshot} {rest : List Action}
    (h : StrategyPlay db variant r solverSide s rest) :
    ∀ (n : Nat) (state : LineState), state.position = s →
      (strategy (freshSource provider variant secVals) r solverSide).Flawless n state →
      ∃ solution, (strategy (freshSource provider variant secVals) r solverSide).Leads
        state solution
        ∧ solution.plies = state.plies ++ spelled r state.position rest := by
  -- the play is followed turn by turn; no leaf below the state fails, so each turn is in the tree
  induction h with
  | @decided s h =>
    rintro n state rfl hall
    cases hfinished : (strategy (freshSource provider variant secVals) r solverSide).finished
      state with
    | none => exact absurd (strategy_finished_eq_none_iff.1 hfinished) h
    | some end_ =>
      have hleaf : end_ ∈ (strategy (freshSource provider variant secVals) r solverSide).leaves n
          state := by
        unfold Expansion.leaves
        rw [hfinished]
        exact List.mem_singleton_self _
      obtain ⟨solution, rfl⟩ := hall end_ hleaf
      obtain ⟨-, rfl⟩ := strategy_finished_eq_ok hfinished
      exact ⟨_, .here hfinished, (List.append_nil _).symm⟩
  | @turn s choices choice rest hbest hchoice _ ih =>
    rintro n state rfl hall
    have hbest' := (strictBest_iff hdb).1 hbest
    have hongoing : (r.outcome state.snap).kind = .ongoing :=
      (isTurn_of_best (strictBest_eq_ok_iff.1 hbest')).1
    have hfinished : (strategy (freshSource provider variant secVals) r solverSide).finished state
        = none := strategy_finished_of_ongoing hongoing
    obtain ⟨m, states, rfl, hbelow, hlater⟩ := hall.below hfinished
    obtain ⟨next, hnext, hposition, hwritten⟩ := exists_strategyTurns hbelow hbest' hchoice
    obtain ⟨solution, hleads, hplies⟩ := ih m next hposition (hlater next hnext)
    refine ⟨solution, .step hfinished hbelow hnext hleads, ?_⟩
    rw [hplies, hwritten, hposition, spelled_append, List.append_assoc]

end

/-! ## The ways of the tree -/

section

variable {db : Database}

theorem strictBest_eq_panic_iff (hdb : Database.Sound provider variant secVals db) :
    strictBest (freshSource provider variant secVals) r state = .error .panic
      ↔ Breaks db variant r state.position := by
  rw [strictBest_eq hdb]
  unfold Breaks bestTurnsOf
  split
  · rename_i first rest hanswer
    simp [hanswer]
  · rename_i found _ hanswer
    simp [hanswer]
  · rename_i error hanswer
    cases hmissing : error.isMissingAsset with
    | true => simp [hanswer, hmissing]
    | false => simp [hanswer, hmissing]
  · rename_i hanswer
    simp [hanswer]

theorem strictBest_eq_failure_iff (hdb : Database.Sound provider variant secVals db)
    {failure : SolutionBuildFailure} :
    strictBest (freshSource provider variant secVals) r state = .error (.error failure)
      ↔ Uncovered db variant r state.position ∧ failure = .databaseUnavailable := by
  have hne : bestAnswer db variant r .strictSteps state.position ≠ .ok (some []) := by
    intro h
    exact (isTurn_of_strictBest ((strictBest_iff hdb).1 h)).1 rfl
  have hcomm : SolutionBuildFailure.databaseUnavailable = failure
      ↔ failure = .databaseUnavailable :=
    eq_comm
  rw [strictBest_eq hdb]
  unfold Uncovered bestTurnsOf
  split
  · rename_i first rest hanswer
    simp [hanswer]
  · rename_i found hfound hanswer
    cases found with
    | none => simp [hanswer, hcomm]
    | some choices =>
      cases choices with
      | nil => exact absurd hanswer hne
      | cons first rest => exact absurd rfl (hfound first rest)
  · rename_i error hanswer
    cases hmissing : error.isMissingAsset with
    | true => simp [hanswer, hmissing, hcomm]
    | false => simp [hanswer, hmissing]
  · rename_i hanswer
    simp [hanswer]

/-- The turns of the solver that are best win or lose together. -/
theorem wdl_eq_of_strictBest {s : GameStateSnapshot × List GameStateSnapshot}
    {choices : List PerfectLogicalTurnChoice} {choice other : PerfectLogicalTurnChoice}
    (hdb : Database.Sound provider variant secVals db)
    (hbest : StrictBest db variant r s choices) (hchoice : choice ∈ choices)
    (hother : other ∈ choices) : choice.outcome.wdl = other.outcome.wdl := by
  unfold StrictBest at hbest
  rw [bestAnswer_eq hdb] at hbest
  obtain ⟨-, -, -, -, sorted, -, -, -, hchoices⟩ := best_eq_some_iff.1 hbest
  have hmem := (sortedChoices_eq_some hchoices).2
  exact (kept_foldl .strictSteps sorted).wdl_eq ((hmem choice).1 hchoice) ((hmem other).1 hother)

/-- **What is below a position is a panic exactly where the strategy trips.** -/
theorem strategyTurns_eq_panic_iff (hdb : Database.Sound provider variant secVals db)
    (hmatch : DatabaseVariant.fromMillOptions r.options = some variant)
    (hsolver : solverSide = 0 ∨ solverSide = 1)
    (hongoing : (r.outcome state.snap).kind = .ongoing) :
    strategyTurns (freshSource provider variant secVals) r solverSide state = .error .panic
      ↔ Trips db variant r solverSide state.position := by
  rw [strategyTurns_eq_error_iff, strictBest_eq_panic_iff hdb]
  unfold Trips
  -- only the solver's assertion can fail, or the database
  rw [or_comm]
  refine or_congr ?_ Iff.rfl
  by_cases hside : state.snap.sideToMove = solverSide
  · have hdefinite : state.position.1.sideToMove = 0 ∨ state.position.1.sideToMove = 1 := by
      show state.snap.sideToMove = 0 ∨ state.snap.sideToMove = 1
      rwa [hside]
    simp only [if_pos hside]
    rw [winLost_iff hdb hmatch hdefinite hongoing]
    constructor
    · intro h
      obtain ⟨choices, hbest, -, hnotWon⟩ := h
      exact ⟨hside, choices, (strictBest_iff hdb).2 hbest, hnotWon⟩
    · intro h
      obtain ⟨-, choices, hbest, hnotWon⟩ := h
      exact ⟨choices, (strictBest_iff hdb).1 hbest, trivial, hnotWon⟩
  · simp only [if_neg hside]
    constructor
    · intro h
      obtain ⟨-, -, hpanic, -⟩ := h
      cases hpanic
    · intro h
      exact absurd h.1 hside

/-- A state below a position, by its place, is where the way of the strategy goes on. -/
theorem getElem?_strategyTurns_iff (hdb : Database.Sound provider variant secVals db)
    {u : GameStateSnapshot × List GameStateSnapshot} {i : Nat} :
    (∃ states next, strategyTurns (freshSource provider variant secVals) r solverSide state
        = .ok states ∧ states[i]? = some next ∧ next.position = u)
      ↔ ∃ choices choice, StrictBest db variant r state.position choices
        ∧ choices[i]? = some choice ∧ (state.snap.sideToMove ≠ solverSide → i = 0)
        ∧ choice.outcome.wdl = (if state.snap.sideToMove = solverSide then 1 else -1)
        ∧ u = played r state.position choice.actions := by
  constructor
  · intro h
    obtain ⟨states, next, hstates, hnext, rfl⟩ := h
    obtain ⟨choices, hbest, hturns⟩ := strategyTurns_eq_ok_iff.1 hstates
    -- the solver's turns are numbered, the defender has number 0 only
    by_cases hside : state.snap.sideToMove = solverSide
    · rw [if_pos hside] at hturns ⊢
      obtain ⟨hwins, rfl⟩ := hturns
      rw [List.getElem?_map] at hnext
      obtain ⟨choice, hchoice, rfl⟩ := Option.map_eq_some_iff.1 hnext
      exact ⟨choices, choice, (strictBest_iff hdb).2 hbest, hchoice, fun h => absurd hside h,
        hwins choice (List.mem_of_getElem? hchoice), advance_position choice⟩
    · rw [if_neg hside] at hturns ⊢
      obtain ⟨choice, hfirst, hwdl, rfl⟩ := hturns
      obtain ⟨hi, rfl⟩ := List.getElem?_eq_some_iff.1 hnext
      obtain rfl : i = 0 := Nat.lt_one_iff.1 hi
      refine ⟨choices, choice, (strictBest_iff hdb).2 hbest, ?_, fun _ => rfl, hwdl,
        advance_position choice⟩
      rwa [← List.head?_eq_getElem?]
  · intro h
    obtain ⟨choices, choice, hbest, hchoice, hfirst, hwdl, rfl⟩ := h
    have hok := (strictBest_iff hdb).1 hbest
    have hmem := List.mem_of_getElem? hchoice
    by_cases hside : state.snap.sideToMove = solverSide
    · rw [if_pos hside] at hwdl
      refine ⟨choices.map (advance r solverSide (noteDecision (choices.length = 1) state)),
        advance r solverSide (noteDecision (choices.length = 1) state) choice,
        strategyTurns_eq_ok_iff.2 ⟨choices, hok, ?_⟩, ?_, advance_position choice⟩
      · rw [if_pos hside]
        -- best turns agree in their outcome, so if one wins all do
        refine ⟨?_, rfl⟩
        intro other hother
        rw [← hwdl]
        exact wdl_eq_of_strictBest hdb hbest hother hmem
      · rw [List.getElem?_map, hchoice]
        rfl
    · obtain rfl := hfirst hside
      rw [if_neg hside] at hwdl
      refine ⟨[advance r solverSide state choice], advance r solverSide state choice,
        strategyTurns_eq_ok_iff.2 ⟨choices, hok, ?_⟩, ?_, advance_position choice⟩
      · rw [if_neg hside]
        exact ⟨choice, by rw [List.head?_eq_getElem?, hchoice], hwdl, rfl⟩
      · rfl

/-- **The ways of the tree are those of the strategy.** -/
theorem way_iff (hdb : Database.Sound provider variant secVals db) {way : List Nat}
    {u : GameStateSnapshot × List GameStateSnapshot} :
    (∃ t, (strategy (freshSource provider variant secVals) r solverSide).Way state way t
        ∧ t.position = u)
      ↔ StrategyWay db variant r solverSide state.position way u := by
  -- a way in the tree and a way by the rules have the same numbers, one turn each
  induction way generalizing state with
  | nil =>
    constructor
    · intro h
      obtain ⟨t, hway, rfl⟩ := h
      cases hway
      exact .here
    · intro h
      cases h
      exact ⟨state, .here, rfl⟩
  | cons i way ih =>
    constructor
    · intro h
      obtain ⟨t, hway, rfl⟩ := h
      cases hway with
      | @down _ next _ states _ _ hfinished hbelow hnext rest =>
        obtain ⟨choices, choice, hbest, hchoice, hfirst, hwdl, hposition⟩ :=
          (getElem?_strategyTurns_iff hdb).1 ⟨states, next, hbelow, hnext, rfl⟩
        refine .turn hbest hchoice hfirst hwdl ?_
        rw [← hposition]
        exact ih.1 ⟨t, rest, rfl⟩
    · intro h
      cases h with
      | @turn _ _ choices choice _ _ hbest hchoice hfirst hwdl rest =>
        obtain ⟨states, next, hstates, hnext, hposition⟩ := (getElem?_strategyTurns_iff hdb).2
          ⟨choices, choice, hbest, hchoice, hfirst, hwdl, rfl⟩
        rw [← hposition] at rest
        obtain ⟨t, hway, rfl⟩ := ih.2 rest
        have hongoing := (isTurn_of_best (strictBest_eq_ok_iff.1 ((strictBest_iff hdb).1 hbest))).1
        exact ⟨t, .down (strategy_finished_of_ongoing hongoing) hstates hnext hway, rfl⟩

/-! ## How the ways end -/

theorem endAt_eq_ok_iff {left : Nat} :
    (∃ solution, (strategy source r solverSide).endAt left state = some (.ok solution))
      ↔ (r.outcome state.snap).kind = .win solverSide := by
  cases hkind : (r.outcome state.snap).kind with
  | draw =>
    rw [Expansion.endAt_of_finished (strategy_finished_of_draw hkind)]
    simp
  | win side =>
    rw [Expansion.endAt_of_finished (strategy_finished_of_win hkind)]
    by_cases hside : side = solverSide
    · simp [hside]
    · simp [hside]
  | ongoing =>
    have hfinished := @strategy_finished_of_ongoing r solverSide state source hkind
    cases left with
    | zero =>
      rw [Expansion.endAt_zero hfinished]
      simp
    | succ left =>
      simp [Expansion.endAt_succ_iff hfinished]

/-- An end that is no win: the game is over otherwise, the turns are used up, or there is
nothing below. -/
theorem endAt_eq_error_iff {left : Nat} {e : Fault SolutionBuildFailure} :
    (strategy source r solverSide).endAt left state = some (.error e)
      ↔ ((r.outcome state.snap).kind ≠ .ongoing ∧ (r.outcome state.snap).kind ≠ .win solverSide
          ∧ e = .error .unexpectedTerminal)
        ∨ ((r.outcome state.snap).kind = .ongoing ∧ left = 0 ∧ e = .error .logicalPlyCap)
        ∨ ((r.outcome state.snap).kind = .ongoing ∧ 0 < left
          ∧ strategyTurns source r solverSide state = .error e) := by
  cases hkind : (r.outcome state.snap).kind with
  | draw =>
    rw [Expansion.endAt_of_finished (strategy_finished_of_draw hkind)]
    simp [eq_comm]
  | win side =>
    rw [Expansion.endAt_of_finished (strategy_finished_of_win hkind)]
    by_cases hside : side = solverSide
    · simp [hside]
    · have hside' : solverSide ≠ side := fun h => hside h.symm
      simp [hside, eq_comm]
      exact fun _ => hside'
  | ongoing =>
    have hfinished := @strategy_finished_of_ongoing r solverSide state source hkind
    cases left with
    | zero =>
      rw [Expansion.endAt_zero hfinished]
      simp [strategy, eq_comm]
    | succ left =>
      rw [Expansion.endAt_succ_iff hfinished]
      simp [strategy]

theorem endAt_eq_panic_iff (hdb : Database.Sound provider variant secVals db)
    (hmatch : DatabaseVariant.fromMillOptions r.options = some variant)
    (hsolver : solverSide = 0 ∨ solverSide = 1) {left : Nat} :
    (strategy (freshSource provider variant secVals) r solverSide).endAt left state
        = some (.error .panic)
      ↔ 0 < left ∧ (r.outcome state.snap).kind = .ongoing
        ∧ Trips db variant r solverSide state.position := by
  rw [endAt_eq_error_iff]
  constructor
  · intro h
    rcases h with ⟨-, -, h⟩ | ⟨-, -, h⟩ | ⟨hongoing, hleft, hturns⟩
    · cases h
    · cases h
    · exact ⟨hleft, hongoing, (strategyTurns_eq_panic_iff hdb hmatch hsolver hongoing).1 hturns⟩
  · intro h
    obtain ⟨hleft, hongoing, htrips⟩ := h
    exact .inr (.inr ⟨hongoing, hleft,
      (strategyTurns_eq_panic_iff hdb hmatch hsolver hongoing).2 htrips⟩)

/-- **A way fails exactly for one of the four reasons.** -/
theorem exists_endAt_iff (hdb : Database.Sound provider variant secVals db) {left turns : Nat}
    (hturns : turns + left = maxSolutionLogicalPlies) :
    (∃ e, e ≠ .panic ∧ (strategy (freshSource provider variant secVals) r solverSide).endAt left
      state
        = some (.error e))
      ↔ Fails db variant r solverSide turns state.position := by
  constructor
  · intro h
    obtain ⟨e, he, hend⟩ := h
    rcases endAt_eq_error_iff.1 hend with ⟨hover, hother, -⟩ | ⟨hongoing, hleft, -⟩
      | ⟨hongoing, -, hbelow⟩
    · exact .unexpectedTerminal hover hother
    · exact .logicalPlyCap hongoing (by omega)
    · rcases strategyTurns_eq_error_iff.1 hbelow with hbest | ⟨choices, hbest, hcause⟩
      · cases e with
        | panic => exact absurd rfl he
        | error failure =>
          exact .databaseUnavailable hongoing ((strictBest_eq_failure_iff hdb).1 hbest).1
      · by_cases hside : state.snap.sideToMove = solverSide
        · rw [if_pos hside] at hcause
          exact absurd hcause.1 he
        · rw [if_neg hside] at hcause
          obtain ⟨-, choice, hfirst, hwdl⟩ := hcause
          exact .defenderEscaped hside ((strictBest_iff hdb).2 hbest) hfirst hwdl
  · intro h
    -- with no turns left an undecided game fails in any case
    have hfails : (r.outcome state.snap).kind = .ongoing → ∀ failure : SolutionBuildFailure,
        strategyTurns (freshSource provider variant secVals) r solverSide state
            = .error (.error failure) →
          ∃ e, e ≠ .panic ∧ (strategy (freshSource provider variant secVals) r solverSide).endAt
            left
            state = some (.error e) := by
      intro hongoing failure hbelow
      by_cases hleft : left = 0
      · refine ⟨.error .logicalPlyCap, ?_,
          endAt_eq_error_iff.2 (.inr (.inl ⟨hongoing, hleft, rfl⟩))⟩
        intro h
        cases h
      · refine ⟨.error failure, ?_,
          endAt_eq_error_iff.2 (.inr (.inr ⟨hongoing, Nat.pos_of_ne_zero hleft, hbelow⟩))⟩
        intro h
        cases h
    cases h with
    | unexpectedTerminal hover hother =>
      refine ⟨.error .unexpectedTerminal, ?_, endAt_eq_error_iff.2 (.inl ⟨hover, hother, rfl⟩)⟩
      intro h
      cases h
    | logicalPlyCap hongoing hcap =>
      refine ⟨.error .logicalPlyCap, ?_,
        endAt_eq_error_iff.2 (.inr (.inl ⟨hongoing, by omega, rfl⟩))⟩
      intro h
      cases h
    | databaseUnavailable hongoing huncovered =>
      refine hfails hongoing .databaseUnavailable (strategyTurns_eq_error_iff.2 (.inl ?_))
      exact (strictBest_eq_failure_iff hdb).2 ⟨huncovered, rfl⟩
    | @defenderEscaped choices choice hside hbest hfirst hwdl =>
      have hok := (strictBest_iff hdb).1 hbest
      have hongoing := (isTurn_of_best (strictBest_eq_ok_iff.1 hok)).1
      have hside' : ¬state.snap.sideToMove = solverSide := hside
      refine hfails hongoing .defenderEscaped
        (strategyTurns_eq_error_iff.2 (.inr ⟨choices, hok, ?_⟩))
      rw [if_neg hside']
      exact ⟨rfl, choice, hfirst, hwdl⟩

section

variable {way : List Nat}

theorem ends_panic_iff (hdb : Database.Sound provider variant secVals db)
    (hmatch : DatabaseVariant.fromMillOptions r.options = some variant)
    (hsolver : solverSide = 0 ∨ solverSide = 1) :
    (strategy (freshSource provider variant secVals) r solverSide).Ends
      (maxSolutionLogicalPlies - 1)
        state way (.error .panic)
      ↔ ∃ u, StrategyWay db variant r solverSide state.position way u
        ∧ way.length + 1 < maxSolutionLogicalPlies ∧ (r.outcome u.1).kind = .ongoing
        ∧ Trips db variant r solverSide u := by
  constructor
  · intro h
    obtain ⟨t, hway, hlength, hend⟩ := h
    obtain ⟨hleft, hongoing, htrips⟩ := (endAt_eq_panic_iff hdb hmatch hsolver).1 hend
    exact ⟨t.position, (way_iff hdb).1 ⟨t, hway, rfl⟩, by omega, hongoing, htrips⟩
  · intro h
    obtain ⟨u, hway, hlength, hongoing, htrips⟩ := h
    obtain ⟨t, hdown, rfl⟩ := (way_iff hdb).2 hway
    exact ⟨t, hdown, by omega,
      (endAt_eq_panic_iff hdb hmatch hsolver).2 ⟨by omega, hongoing, htrips⟩⟩

theorem exists_ends_error_iff (hdb : Database.Sound provider variant secVals db) :
    (∃ e, e ≠ .panic ∧ (strategy (freshSource provider variant secVals) r solverSide).Ends
        (maxSolutionLogicalPlies - 1) state way (.error e))
      ↔ ∃ u, StrategyWay db variant r solverSide state.position way u
        ∧ way.length + 1 ≤ maxSolutionLogicalPlies
        ∧ Fails db variant r solverSide (way.length + 1) u := by
  have hmax : maxSolutionLogicalPlies = 60 := rfl
  constructor
  · intro h
    obtain ⟨e, he, t, hway, hlength, hend⟩ := h
    refine ⟨t.position, (way_iff hdb).1 ⟨t, hway, rfl⟩, by omega, ?_⟩
    exact (exists_endAt_iff hdb (by omega)).1 ⟨e, he, hend⟩
  · intro h
    obtain ⟨u, hway, hlength, hfails⟩ := h
    obtain ⟨t, hdown, rfl⟩ := (way_iff hdb).2 hway
    have hturns : way.length + 1 + (maxSolutionLogicalPlies - 1 - way.length)
        = maxSolutionLogicalPlies := by omega
    obtain ⟨e, he, hend⟩ := (exists_endAt_iff hdb hturns).2 hfails
    exact ⟨e, he, t, hdown, by omega, hend⟩

theorem exists_ends_ok_iff (hdb : Database.Sound provider variant secVals db) :
    (∃ solution, (strategy (freshSource provider variant secVals) r solverSide).Ends
        (maxSolutionLogicalPlies - 1) state way (.ok solution))
      ↔ way.length + 1 ≤ maxSolutionLogicalPlies
        ∧ ∃ u, StrategyWay db variant r solverSide state.position way u
          ∧ (r.outcome u.1).kind = .win solverSide := by
  have hmax : maxSolutionLogicalPlies = 60 := rfl
  constructor
  · intro h
    obtain ⟨solution, t, hway, hlength, hend⟩ := h
    exact ⟨by omega, t.position, (way_iff hdb).1 ⟨t, hway, rfl⟩, endAt_eq_ok_iff.1 ⟨solution, hend⟩⟩
  · intro h
    obtain ⟨hlength, u, hway, hwin⟩ := h
    obtain ⟨t, hdown, rfl⟩ := (way_iff hdb).2 hway
    obtain ⟨solution, hend⟩ := endAt_eq_ok_iff.2 hwin
    exact ⟨solution, t, hdown, by omega, hend⟩

end

end

/-! ## What the builders promise -/

/-- What both builders promise for a first turn that wins. -/
structure SolutionsHold (db : Database) (variant : DatabaseVariant) (r : MillRules)
    (solverSide : Int) (root : GameStateSnapshot) (firstTurn : PerfectLogicalTurnChoice)
    (maxExportedLines : Nat) : Prop where
  linesReturn : (ExceptT.answer (buildSolutionLines (Database.source variant) r solverSide root
    firstTurn maxExportedLines) db).1 ≠ .error .panic
  principalReturns : (ExceptT.answer (buildPrincipalSolutionLine (Database.source variant) r
    solverSide root firstTurn) db).1 ≠ .error .panic
  linesWin : ∀ solutions, (ExceptT.answer (buildSolutionLines (Database.source variant) r solverSide
    root firstTurn maxExportedLines) db).1 = .ok solutions →
      ∀ solution ∈ solutions, WinningPlies r root solverSide solution.plies
  principalWins : ∀ solution, (ExceptT.answer
    (buildPrincipalSolutionLine (Database.source variant) r
    solverSide root firstTurn) db).1 = .ok solution → WinningPlies r root solverSide solution.plies
  linesAreTheStrategy : ∀ solutions, (ExceptT.answer (buildSolutionLines (Database.source variant) r
    solverSide root firstTurn maxExportedLines) db).1 = .ok solutions →
      ∀ plies, plies ∈ solutions.map BuiltSolution.plies ↔ ∃ rest,
        StrategyPlay db variant r solverSide (played r (root, []) firstTurn.actions) rest
          ∧ plies = spelled r (root, []) (firstTurn.actions ++ rest)

/-- The ends of the strategy below the first turn, from left to right. -/
def strategyEnds (source : OutcomeSource Id) (r : MillRules) (solverSide : Int)
    (root : GameStateSnapshot) (firstTurn : PerfectLogicalTurnChoice) :
    List (Except (Fault SolutionBuildFailure) BuiltSolution) :=
  (strategy source r solverSide).leaves (maxSolutionLogicalPlies - 1)
    (advance r solverSide (.new root) firstTurn)

/-- A winning turn of the side to move, best under one of the orderings, and arguments that the
builders accept. -/
structure FirstTurn (db : Database) (variant : DatabaseVariant) (r : MillRules) (solverSide : Int)
    (root : GameStateSnapshot) (firstTurn : PerfectLogicalTurnChoice) (maxExportedLines : Nat) :
    Prop where
  best : ∃ ordering choices, bestAnswer db variant r ordering (root, []) = .ok (some choices)
    ∧ firstTurn ∈ choices
  wins : firstTurn.outcome.wdl = 1
  solver : solverSide = root.sideToMove
  limit : 1 ≤ maxExportedLines ∧ maxExportedLines ≤ maxExportedSolutionLines

section

variable {db : Database} {root : GameStateSnapshot} {firstTurn : PerfectLogicalTurnChoice}
  {maxExportedLines : Nat}

theorem FirstTurn.isTurn (hdb : Database.Sound provider variant secVals db)
    (h : FirstTurn db variant r solverSide root firstTurn maxExportedLines) :
    (solverSide = 0 ∨ solverSide = 1) ∧ IsTurn r (LineState.new root).position firstTurn := by
  obtain ⟨ordering, choices, hbest, hmem⟩ := h.best
  rw [bestAnswer_eq hdb] at hbest
  obtain ⟨-, hside, -, hturns⟩ := isTurn_of_best hbest
  rw [h.solver]
  exact ⟨hside, hturns firstTurn hmem⟩

/-- Turns are rated only by a database of the variant that the options are for. -/
theorem FirstTurn.sameVariant (hdb : Database.Sound provider variant secVals db)
    (h : FirstTurn db variant r solverSide root firstTurn maxExportedLines) :
    DatabaseVariant.fromMillOptions r.options = some variant := by
  obtain ⟨ordering, choices, hbest, -⟩ := h.best
  rw [bestAnswer_eq hdb] at hbest
  exact of_decide_eq_true (best_eq_some_iff.1 hbest).1

theorem FirstTurn.arguments (hdb : Database.Sound provider variant secVals db)
    (h : FirstTurn db variant r solverSide root firstTurn maxExportedLines) :
    checkArguments solverSide firstTurn = .ok () :=
  Except.bind_ok_iff.2 ⟨(), if_pos (h.isTurn hdb).1, if_pos h.wins⟩

/-- All lines, as they are gathered from the ends of the strategy. -/
theorem buildSolutionLines_answer (hdb : Database.Sound provider variant secVals db)
    (h : FirstTurn db variant r solverSide root firstTurn maxExportedLines) :
    (ExceptT.answer (buildSolutionLines (Database.source variant) r solverSide root firstTurn
      maxExportedLines) db).1
      = Expansion.gather maxExportedLines (.error .lineCap)
          (strategyEnds (freshSource provider variant secVals) r solverSide root firstTurn) []
        >>= fun solutions =>
          if solutions = [] then .error (.error .emptyStrategy) else .ok solutions := by
  have hturn := (h.isTurn hdb).2
  refine Transparent.answer_eq ?_ hdb
  refine Transparent.skip (h.arguments hdb) (Transparent.skip (if_pos h.limit) ?_)
  refine Transparent.skip (applyTurn_eq hturn) ?_
  unfold strategyEnds
  rw [← Expansion.collect_eq]
  refine Transparent.bind (expandLines_uncached maxExportedLines _ _ [] (definite_advance hturn)) ?_
  intro solutions _
  split
  · exact Transparent.throw _
  · exact Transparent.pure _

/-- The principal line is the first end of the strategy. -/
theorem buildPrincipalSolutionLine_answer (hdb : Database.Sound provider variant secVals db)
    (h : FirstTurn db variant r solverSide root firstTurn maxExportedLines) :
    (strategyEnds (freshSource provider variant secVals) r solverSide root firstTurn).head?
      = some (ExceptT.answer (buildPrincipalSolutionLine (Database.source variant) r solverSide root
        firstTurn) db).1 := by
  have hturn := (h.isTurn hdb).2
  have hanswer : (ExceptT.answer (buildPrincipalSolutionLine (Database.source variant) r solverSide
      root firstTurn) db).1 = (strategy (freshSource provider variant secVals) r
        solverSide).leftmost
        (maxSolutionLogicalPlies - 1) (advance r solverSide (.new root) firstTurn) := by
    refine Transparent.answer_eq ?_ hdb
    refine Transparent.skip (h.arguments hdb) (Transparent.skip (applyTurn_eq hturn) ?_)
    exact principalLine_uncached _ _ (definite_advance hturn)
  rw [hanswer]
  exact Expansion.head?_leaves strategyTurns_ne_nil _ _

/-- What the strategy leads to after the first turn is a game from the root on. -/
theorem game_of_leads (hdb : Database.Sound provider variant secVals db)
    (h : FirstTurn db variant r solverSide root firstTurn maxExportedLines)
    {solution : BuiltSolution}
    (hleads : (strategy (freshSource provider variant secVals) r solverSide).Leads
      (advance r solverSide (.new root) firstTurn) solution) :
    WinningPlies r root solverSide solution.plies
      ∧ ∃ rest, StrategyPlay db variant r solverSide (played r (root, []) firstTurn.actions) rest
        ∧ solution.plies = spelled r (root, []) (firstTurn.actions ++ rest) := by
  have hturn := (h.isTurn hdb).2
  obtain ⟨rest, hplay, hlegal, hwin, hplies⟩ := play_of_leads hdb hleads
  rw [advance_position] at hplay hlegal hwin hplies
  have hwritten : solution.plies = spelled r (root, []) (firstTurn.actions ++ rest) := by
    rw [hplies, advance_plies hturn, spelled_append]
    rfl
  refine ⟨⟨firstTurn.actions ++ rest, ?_, ?_, hwritten⟩, rest, hplay, hwritten⟩
  · rw [played_append]
    exact complete_append hturn.line hlegal
  · rw [played_append]
    exact hwin

/-- The lines of a builder that returns. -/
theorem gather_of_answer {solutions : List BuiltSolution}
    {gathered : Except (Fault SolutionBuildFailure) (List BuiltSolution)}
    (h : (gathered >>= fun solutions =>
      if solutions = [] then .error (.error .emptyStrategy) else .ok solutions) = .ok solutions) :
    gathered = .ok solutions := by
  obtain ⟨found, hfound, hreturn⟩ := Except.bind_ok_iff.1 h
  split at hreturn
  · cases hreturn
  · rwa [← Except.ok.inj hreturn]

/-- Unless the ends are gathered up to a panic, everything promised holds. -/
theorem solutionsHold_of_gather (hdb : Database.Sound provider variant secVals db)
    (h : FirstTurn db variant r solverSide root firstTurn maxExportedLines)
    (hgathered : Expansion.gather maxExportedLines (.error .lineCap)
      (strategyEnds (freshSource provider variant secVals) r solverSide root firstTurn) []
        ≠ .error .panic) :
    SolutionsHold db variant r solverSide root firstTurn maxExportedLines := by
  have hlines := buildSolutionLines_answer hdb h
  have hprincipal := buildPrincipalSolutionLine_answer hdb h
  -- the two calls return, each line is a game, and the lines are all the games
  refine ⟨?_, ?_, ?_, ?_, ?_⟩
  · intro hreturn
    rw [hlines] at hreturn
    cases hgather : Expansion.gather maxExportedLines (.error .lineCap)
        (strategyEnds (freshSource provider variant secVals) r solverSide root firstTurn) [] with
    | error e =>
      rw [hgather] at hreturn
      obtain rfl : e = .panic := Except.error.inj hreturn
      exact hgathered hgather
    | ok solutions =>
      rw [hgather] at hreturn
      have hif : (if solutions = [] then .error (.error .emptyStrategy) else .ok solutions :
          Except (Fault SolutionBuildFailure) (List BuiltSolution)) = .error .panic := hreturn
      split at hif
      · cases hif
      · cases hif
  · intro hreturn
    rw [hreturn] at hprincipal
    obtain ⟨rest, hrest⟩ := List.head?_eq_some_iff.1 hprincipal
    refine hgathered ?_
    rw [hrest]
    rfl
  · intro solutions hreturn solution hsolution
    rw [hlines] at hreturn
    have hleads := (Expansion.mem_gathered_iff (gather_of_answer hreturn) solution).1 hsolution
    exact (game_of_leads hdb h hleads).1
  · intro solution hreturn
    rw [hreturn] at hprincipal
    have hmem : .ok solution ∈ strategyEnds (freshSource provider variant secVals) r solverSide root
        firstTurn := List.mem_of_head? hprincipal
    exact (game_of_leads hdb h (Expansion.leads_of_mem_leaves hmem)).1
  · intro solutions hreturn plies
    rw [hlines] at hreturn
    have hgather := gather_of_answer hreturn
    rw [List.mem_map]
    constructor
    · intro hin
      obtain ⟨solution, hsolution, rfl⟩ := hin
      exact (game_of_leads hdb h ((Expansion.mem_gathered_iff hgather solution).1 hsolution)).2
    · intro hplay
      obtain ⟨rest, hplay, rfl⟩ := hplay
      -- a play by the rules leads through the tree, as nothing in it fails
      have hturn := (h.isTurn hdb).2
      obtain ⟨solution, hleads, hplies⟩ := leads_of_play hdb hplay _
        (advance r solverSide (.new root) firstTurn) (advance_position firstTurn)
        (Expansion.flawless_of_gather hgather)
      refine ⟨solution, (Expansion.mem_gathered_iff hgather solution).2 hleads, ?_⟩
      rw [hplies, advance_plies hturn, spelled_append, advance_position]
      rfl

/--
**The builders keep their promise exactly when the strategy trips too late to be met**, if at
all: no position without a turn that keeps the win comes before a failure or too many lines.
-/
theorem solutionsHold_iff (hdb : Database.Sound provider variant secVals db)
    (h : FirstTurn db variant r solverSide root firstTurn maxExportedLines) :
    SolutionsHold db variant r solverSide root firstTurn maxExportedLines
      ↔ TripsTooLate db variant r solverSide maxExportedLines
        (played r (root, []) firstTurn.actions) := by
  have hpanic : (Fault.panic : Fault SolutionBuildFailure) ≠ .error .lineCap := by
    intro h
    cases h
  -- the parts of `SolutionsHold` follow from the lines being gathered without a panic
  have hgathered : SolutionsHold db variant r solverSide root firstTurn maxExportedLines
      ↔ Expansion.gather maxExportedLines (.error .lineCap)
        (strategyEnds (freshSource provider variant secVals) r solverSide root firstTurn) []
          ≠ .error .panic := by
    constructor
    · intro hholds hgather
      refine hholds.linesReturn ?_
      rw [buildSolutionLines_answer hdb h, hgather]
      rfl
    · exact solutionsHold_of_gather hdb h
  have hstart : (advance r solverSide (.new root) firstTurn).position
      = played r (root, []) firstTurn.actions := advance_position firstTurn
  rw [hgathered]
  unfold strategyEnds TripsTooLate
  -- a panic is reached exactly if its way comes before the stop
  rw [Expansion.gather_leaves_ne_error_iff hpanic]
  simp only [ends_panic_iff hdb (h.sameVariant hdb) (h.isTurn hdb).1, exists_ends_error_iff hdb,
    exists_ends_ok_iff hdb, hstart]
  constructor
  · intro hall way t hway hlength hongoing htrips
    exact hall way ⟨t, hway, hlength, hongoing, htrips⟩
  · intro hall way htrip
    obtain ⟨t, hway, hlength, hongoing, htrips⟩ := htrip
    exact hall way t hway hlength hongoing htrips

end

end Sanmill.Puzzle
