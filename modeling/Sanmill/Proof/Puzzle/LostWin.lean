import Mathlib.Data.List.Lex
import Mathlib.Data.Set.Card
import Sanmill.Proof.PerfectDb.FreshDatabase
import Sanmill.Proof.Puzzle.Turns

/-!
# Where a win is lost

The database rates boards. It knows neither how many plies have passed without a removal nor
which positions have been there, and the rules end a game over both. So a position that it calls
won can be one in which no turn keeps the win: the turns that it means end the game as a draw,
or it rates none of them as it should. Here such positions are described by the legal turns, the
rules and the ratings, and with them the games that the strategy plays until it meets one.
-/

namespace Sanmill.Puzzle

open PerfectDb

section

variable (db : Database) (variant : DatabaseVariant) (r : MillRules)

/-- What the database says of a position in which play goes on, for the side to move. -/
def rating (snap : GameStateSnapshot) : Except (Fault DatabaseError) (Option PerfectOutcome) :=
  (ExceptT.answer (evaluateStateOutcomeWithDatabase (Database.source variant) r
    (MillState.decode snap) snap.sideToMove) db).1

/-- The position is decided, or the database has a rating of it. -/
def Rated (snap : GameStateSnapshot) : Prop :=
  (r.outcome snap).kind ≠ .ongoing
    ∨ ((snap.sideToMove = 0 ∨ snap.sideToMove = 1)
      ∧ ∃ outcome, rating db variant r snap = .ok (some outcome))

/-- A turn of `side` that ends here keeps its win: the side has won, or the other is to move and
rated lost. -/
def KeepsWin (side : Int) (snap : GameStateSnapshot) : Prop :=
  (r.outcome snap).kind = .win side
    ∨ ((r.outcome snap).kind = .ongoing
      ∧ ∃ steps, rating db variant r snap = .ok (some (.loss steps)))

/-- Each turn of the side to move leads to a rated position, and none keeps the win. -/
structure WinLost (s : GameStateSnapshot × List GameStateSnapshot) : Prop where
  complete : r.TurnsComplete s.1 s.2
  hasTurn : ∃ actions final, r.TurnLine s.1 s.2 actions final
  rated : ∀ actions final, r.TurnLine s.1 s.2 actions final → Rated db variant r final
  lost : ∀ actions final, r.TurnLine s.1 s.2 actions final →
    ¬KeepsWin db variant r s.1.sideToMove final

/-- The answer to the question for the best turns. -/
def bestAnswer (ordering : PerfectMoveOrdering)
    (s : GameStateSnapshot × List GameStateSnapshot) :
    Except (Fault TurnError) (Option (List PerfectLogicalTurnChoice)) :=
  (ExceptT.answer (bestLogicalTurnChoicesWithOrdering (Database.source variant) r s.1 s.2
    ordering) db).1

/-- The strict-best turns that the database gives in a position. -/
def StrictBest (s : GameStateSnapshot × List GameStateSnapshot)
    (choices : List PerfectLogicalTurnChoice) : Prop :=
  bestAnswer db variant r .strictSteps s = .ok (some choices)

/-- The database does not cover the turns of a position. -/
def Uncovered (s : GameStateSnapshot × List GameStateSnapshot) : Prop :=
  bestAnswer db variant r .strictSteps s = .ok none
    ∨ ∃ error, bestAnswer db variant r .strictSteps s = .error (.error error)
      ∧ error.isMissingAsset = true

/-- The database breaks over the turns of a position, and not because a file is missing. -/
def Breaks (s : GameStateSnapshot × List GameStateSnapshot) : Prop :=
  bestAnswer db variant r .strictSteps s = .error .panic
    ∨ ∃ error, bestAnswer db variant r .strictSteps s = .error (.error error)
      ∧ error.isMissingAsset = false

section

variable (solverSide : Int)

/-- The solver is to move and has no turn that keeps the win, or the database breaks. -/
def Trips (s : GameStateSnapshot × List GameStateSnapshot) : Prop :=
  (s.1.sideToMove = solverSide ∧ WinLost db variant r s) ∨ Breaks db variant r s

/--
The ways of the strategy, as long as the solver's turns win and the defender's lose: the solver
takes any strict-best turn and the defender the first. A way says which turn is taken each time,
counted in the order of their notation.
-/
inductive StrategyWay : GameStateSnapshot × List GameStateSnapshot → List Nat →
    GameStateSnapshot × List GameStateSnapshot → Prop
  | here {s : GameStateSnapshot × List GameStateSnapshot} : StrategyWay s [] s
  | turn {s t : GameStateSnapshot × List GameStateSnapshot}
      {choices : List PerfectLogicalTurnChoice} {choice : PerfectLogicalTurnChoice} {i : Nat}
      {way : List Nat} (hbest : StrictBest db variant r s choices)
      (hchoice : choices[i]? = some choice) (hfirst : s.1.sideToMove ≠ solverSide → i = 0)
      (hwdl : choice.outcome.wdl = if s.1.sideToMove = solverSide then 1 else -1)
      (rest : StrategyWay (played r s choice.actions) way t) : StrategyWay s (i :: way) t

/-- Why a way that has not been won ends with a failure; `turns` have been played. -/
inductive Fails (turns : Nat) (s : GameStateSnapshot × List GameStateSnapshot) : Prop
  | unexpectedTerminal (hover : (r.outcome s.1).kind ≠ .ongoing)
      (hother : (r.outcome s.1).kind ≠ .win solverSide)
  | logicalPlyCap (hongoing : (r.outcome s.1).kind = .ongoing)
      (hcap : turns = maxSolutionLogicalPlies)
  | databaseUnavailable (hongoing : (r.outcome s.1).kind = .ongoing) (h : Uncovered db variant r s)
  | defenderEscaped {choices : List PerfectLogicalTurnChoice} {choice : PerfectLogicalTurnChoice}
      (hside : s.1.sideToMove ≠ solverSide) (hbest : StrictBest db variant r s choices)
      (hfirst : choices.head? = some choice) (hwdl : choice.outcome.wdl ≠ -1)

/--
After the first turn the strategy meets a position in which it trips only on ways that come
after a failure or after more wins than the limit. Ways are taken in their lexicographic order;
the first turn counts as one of the complete turns that may be played.
-/
def TripsTooLate (maxExportedLines : Nat) (s : GameStateSnapshot × List GameStateSnapshot) : Prop :=
  ∀ way t, StrategyWay db variant r solverSide s way t → way.length + 1 < maxSolutionLogicalPlies →
    (r.outcome t.1).kind = .ongoing → Trips db variant r solverSide t →
      (∃ earlier < way, ∃ u, StrategyWay db variant r solverSide s earlier u
        ∧ earlier.length + 1 ≤ maxSolutionLogicalPlies
        ∧ Fails db variant r solverSide (earlier.length + 1) u)
      ∨ maxExportedLines < {earlier | earlier < way
        ∧ earlier.length + 1 ≤ maxSolutionLogicalPlies
        ∧ ∃ u, StrategyWay db variant r solverSide s earlier u
          ∧ (r.outcome u.1).kind = .win solverSide}.encard

end

end

variable {r : MillRules}

/-! ## Best turns are best -/

/-- A better outcome has at least the value, an equal one the same. -/
theorem wdl_of_compare (ordering : PerfectMoveOrdering) (candidate incumbent : PerfectOutcome) :
    (ordering.compare candidate incumbent = .gt → incumbent.wdl ≤ candidate.wdl)
      ∧ (ordering.compare candidate incumbent = .eq → candidate.wdl = incumbent.wdl)
      ∧ (ordering.compare candidate incumbent = .lt → candidate.wdl ≤ incumbent.wdl) := by
  cases ordering with
  | legacyWdl =>
    refine ⟨?_, ?_, ?_⟩
    · intro h
      exact (compare_gt_iff_gt.1 h).le
    · intro h
      exact compare_eq_iff_eq.1 h
    · intro h
      exact (compare_lt_iff_lt.1 h).le
  | strictSteps =>
    unfold PerfectMoveOrdering.compare PerfectOutcome.strictCmp
    dsimp only
    cases hwdl : compare candidate.wdl incumbent.wdl with
    | eq =>
      -- the values are the same, whatever the steps say
      have heq : candidate.wdl = incumbent.wdl := compare_eq_iff_eq.1 hwdl
      exact ⟨fun _ => heq.ge, fun _ => heq, fun _ => heq.le⟩
    | gt =>
      have hle := (compare_gt_iff_gt.1 hwdl).le
      simpa using hle
    | lt =>
      have hle := (compare_lt_iff_lt.1 hwdl).le
      simpa using hle

/-- What has been kept after the turns `seen`: some of them, all of the best value. -/
def Kept (seen : List PerfectLogicalTurnChoice)
    (best : Option PerfectOutcome × List PerfectLogicalTurnChoice) : Prop :=
  match best.1 with
  | none => seen = [] ∧ best.2 = []
  | some incumbent => best.2 ≠ [] ∧ (∀ kept ∈ best.2, kept.outcome.wdl = incumbent.wdl)
    ∧ ∀ choice ∈ seen, choice.outcome.wdl ≤ incumbent.wdl

theorem kept_keepBest (ordering : PerfectMoveOrdering) {seen : List PerfectLogicalTurnChoice}
    {best : Option PerfectOutcome × List PerfectLogicalTurnChoice}
    (h : Kept seen best) (choice : PerfectLogicalTurnChoice) :
    Kept (seen ++ [choice]) (keepBest ordering best choice) := by
  obtain ⟨incumbent?, turns⟩ := best
  cases incumbent? with
  | none =>
    obtain ⟨rfl, rfl⟩ := h
    refine ⟨List.cons_ne_nil _ _, ?_, ?_⟩
    · intro kept hkept
      rw [List.mem_singleton.1 hkept]
    · intro seen hseen
      rw [List.mem_singleton.1 hseen]
  | some incumbent =>
    obtain ⟨hne, hsame, hbelow⟩ := h
    obtain ⟨hgt, heq, hlt⟩ := wdl_of_compare ordering choice.outcome incumbent
    unfold keepBest
    dsimp only
    -- better replaces, equal joins, worse is dropped
    cases hcompare : ordering.compare choice.outcome incumbent with
    | gt =>
      refine ⟨List.cons_ne_nil _ _, ?_, ?_⟩
      · intro kept hkept
        rw [List.mem_singleton.1 hkept]
      · intro other hother
        rcases List.mem_append.1 hother with hold | hnew
        · exact (hbelow other hold).trans (hgt hcompare)
        · rw [List.mem_singleton.1 hnew]
    | eq =>
      refine ⟨by simp, ?_, ?_⟩
      · intro kept hkept
        rcases List.mem_append.1 hkept with hold | hnew
        · exact hsame kept hold
        · rw [List.mem_singleton.1 hnew]
          exact heq hcompare
      · intro other hother
        rcases List.mem_append.1 hother with hold | hnew
        · exact hbelow other hold
        · rw [List.mem_singleton.1 hnew]
          exact (heq hcompare).le
    | lt =>
      refine ⟨hne, hsame, ?_⟩
      intro other hother
      rcases List.mem_append.1 hother with hold | hnew
      · exact hbelow other hold
      · rw [List.mem_singleton.1 hnew]
        exact hlt hcompare

/-- The selection keeps turns of the best value that it has seen. -/
theorem kept_foldl (ordering : PerfectMoveOrdering) (choices : List PerfectLogicalTurnChoice) :
    Kept choices (choices.foldl (keepBest ordering) (none, [])) := by
  have hrun : ∀ (rest seen : List PerfectLogicalTurnChoice)
      (best : Option PerfectOutcome × List PerfectLogicalTurnChoice),
      Kept seen best → Kept (seen ++ rest) (rest.foldl (keepBest ordering) best) := by
    intro rest
    induction rest with
    | nil =>
      intro seen best h
      rwa [List.append_nil]
    | cons choice rest ih =>
      intro seen best h
      rw [List.append_cons]
      exact ih _ _ (kept_keepBest ordering h choice)
  exact hrun choices [] _ ⟨rfl, rfl⟩

namespace Kept

variable {seen : List PerfectLogicalTurnChoice} {choice : PerfectLogicalTurnChoice}
  {best : Option PerfectOutcome × List PerfectLogicalTurnChoice}

theorem exists_mem (h : Kept seen best) (hseen : choice ∈ seen) : ∃ kept, kept ∈ best.2 := by
  obtain ⟨incumbent?, turns⟩ := best
  cases incumbent? with
  | none =>
    obtain ⟨rfl, -⟩ := h
    cases hseen
  | some incumbent => exact List.exists_mem_of_ne_nil _ h.1

theorem wdl_eq {other : PerfectLogicalTurnChoice} (h : Kept seen best) (hkept : choice ∈ best.2)
    (hother : other ∈ best.2) : choice.outcome.wdl = other.outcome.wdl := by
  obtain ⟨incumbent?, turns⟩ := best
  cases incumbent? with
  | none =>
    obtain ⟨-, rfl⟩ := h
    cases hkept
  | some incumbent => rw [h.2.1 choice hkept, h.2.1 other hother]

theorem wdl_le (h : Kept seen best) (hkept : choice ∈ best.2) :
    ∀ other ∈ seen, other.outcome.wdl ≤ choice.outcome.wdl := by
  obtain ⟨incumbent?, turns⟩ := best
  cases incumbent? with
  | none =>
    obtain ⟨-, rfl⟩ := h
    cases hkept
  | some incumbent =>
    intro other hother
    rw [h.2.1 choice hkept]
    exact h.2.2 other hother

end Kept

theorem sortedChoices_of_mem {choices : List PerfectLogicalTurnChoice}
    {choice : PerfectLogicalTurnChoice} (h : choice ∈ choices) :
    ∃ sorted, sortedChoices choices = some sorted := by
  have hmem : choice ∈ choices.insertionSort tokensLe := (List.mem_insertionSort _).2 h
  unfold sortedChoices
  split
  · rename_i hnil
    rw [hnil] at hmem
    cases hmem
  · exact ⟨_, rfl⟩

theorem wdl_le_one (outcome : PerfectOutcome) : outcome.wdl ≤ 1 := by
  cases outcome with
  | win steps => simp [PerfectOutcome.wdl]
  | draw steps => simp [PerfectOutcome.wdl]
  | loss steps => simp [PerfectOutcome.wdl]

/-! ## What the database rates -/

section

variable {provider : DatabaseProvider} {variant : DatabaseVariant} {secVals : SecValTable}
  {db : Database} {s : GameStateSnapshot × List GameStateSnapshot}

theorem rating_eq (hdb : Database.Sound provider variant secVals db) (snap : GameStateSnapshot) :
    rating db variant r snap = (evaluateStateOutcomeWithDatabase
      (freshSource provider variant secVals) r (MillState.decode snap) snap.sideToMove).run :=
  (evaluateState_uncached _ _).answer_eq hdb

theorem bestAnswer_eq (hdb : Database.Sound provider variant secVals db)
    (ordering : PerfectMoveOrdering) :
    bestAnswer db variant r ordering s = (bestLogicalTurnChoicesWithOrdering
      (freshSource provider variant secVals) r s.1 s.2 ordering).run :=
  (bestChoices_uncached s.1 s.2 ordering).answer_eq hdb

theorem coveredOutcome_eq_some_iff {answer : Except (Fault DatabaseError) (Option PerfectOutcome)}
    {outcome : PerfectOutcome} :
    coveredOutcome answer = .ok (some outcome) ↔ answer = .ok (some outcome) := by
  unfold coveredOutcome
  split
  · constructor
    · intro h
      rw [Except.ok.inj h]
    · intro h
      rw [Except.ok.inj h]
  · simp
  · simp
  · simp

/-- The rating of a turn that passes play on is that of the position after it, turned round. -/
theorem turnOutcome_ongoing (hdb : Database.Sound provider variant secVals db) {rootSide : Int}
    {turn : MillLogicalTurn} {outcome : PerfectOutcome}
    (hkind : (r.outcome turn.finalSnapshot).kind = .ongoing)
    (hpassed : turn.finalSnapshot.sideToMove ≠ rootSide) :
    (turnOutcome (freshSource provider variant secVals) r rootSide turn).run = .ok (some outcome)
      ↔ (turn.finalSnapshot.sideToMove = 0 ∨ turn.finalSnapshot.sideToMove = 1)
        ∧ ∃ rated, rating db variant r turn.finalSnapshot = .ok (some rated)
          ∧ outcome = rated.negate := by
  unfold turnOutcome terminalOutcomeForRoot
  rw [hkind, rating_eq hdb]
  dsimp only
  -- a position without a definite side has no outcome
  by_cases hside : turn.finalSnapshot.sideToMove ≠ 0 ∧ turn.finalSnapshot.sideToMove ≠ 1
  · rw [if_pos hside]
    constructor
    · intro h
      cases h
    · intro h
      omega
  · rw [if_neg hside, ExceptT.run_bind_ok_iff]
    constructor
    · intro h
      obtain ⟨found, hfound, hmap⟩ := h
      obtain ⟨rated, rfl, hrated⟩ := Option.map_eq_some_iff.1 (Except.ok.inj hmap)
      rw [if_neg hpassed] at hrated
      -- the database rates for the other side, so the outcome is negated
      exact ⟨by omega, rated, coveredOutcome_eq_some_iff.1 hfound, hrated.symm⟩
    · intro h
      obtain ⟨-, rated, hrated, rfl⟩ := h
      refine ⟨some rated, coveredOutcome_eq_some_iff.2 hrated, ?_⟩
      rw [Option.map_some, if_neg hpassed]
      rfl

/-- A complete turn that does not end the game passes it on. -/
theorem passed_of_turnLine {actions : List Action} {final : GameStateSnapshot}
    (h : r.TurnLine s.1 s.2 actions final) (hkind : (r.outcome final).kind = .ongoing) :
    final.sideToMove ≠ s.1.sideToMove := by
  obtain ⟨past, hline⟩ := h
  rcases of_decide_eq_true hline.stops with hpassed | hover
  · exact hpassed
  · exact absurd hkind hover

/-- A turn that ends the game is rated by the rules alone. -/
theorem turnOutcome_over {source : OutcomeSource Id} {rootSide : Int} {turn : MillLogicalTurn}
    (hover : (r.outcome turn.finalSnapshot).kind ≠ .ongoing) :
    ∃ outcome, (turnOutcome source r rootSide turn).run = .ok (some outcome)
      ∧ (outcome.wdl = 1 ↔ (r.outcome turn.finalSnapshot).kind = .win rootSide) := by
  unfold turnOutcome terminalOutcomeForRoot
  cases hkind : (r.outcome turn.finalSnapshot).kind with
  | ongoing => exact absurd hkind hover
  | draw =>
    refine ⟨.draw 0, rfl, ?_⟩
    constructor
    · intro h
      cases h
    · intro h
      cases h
  | win side =>
    refine ⟨if side = rootSide then .win 0 else .loss 0, rfl, ?_⟩
    by_cases hside : side = rootSide
    · rw [if_pos hside, hside]
      exact ⟨fun _ => rfl, fun _ => rfl⟩
    · rw [if_neg hside]
      constructor
      · intro h
        cases h
      · intro h
        cases h
        exact absurd rfl hside

section

variable {turn : MillLogicalTurn} {choice : PerfectLogicalTurnChoice}

theorem exists_rates_iff (hdb : Database.Sound provider variant secVals db)
    (hline : r.TurnLine s.1 s.2 turn.actions turn.finalSnapshot) :
    (∃ choice, Rates (freshSource provider variant secVals) r s.1.sideToMove turn choice)
      ↔ Rated db variant r turn.finalSnapshot := by
  have hrates : (∃ choice, Rates (freshSource provider variant secVals) r s.1.sideToMove
      turn choice)
      ↔ ∃ outcome, (turnOutcome (freshSource provider variant secVals) r s.1.sideToMove turn).run
        = .ok (some outcome) := by
    constructor
    · intro h
      obtain ⟨choice, -, -, houtcome⟩ := h
      exact ⟨choice.outcome, houtcome⟩
    · intro h
      obtain ⟨outcome, houtcome⟩ := h
      exact ⟨⟨turn.actions, turn.actions.map encodeAction, outcome⟩, rfl, rfl, houtcome⟩
  rw [hrates]
  -- a running position needs a rating, a finished one has its outcome
  by_cases hkind : (r.outcome turn.finalSnapshot).kind = .ongoing
  · constructor
    · intro h
      obtain ⟨outcome, houtcome⟩ := h
      obtain ⟨hside, rated, hrated, -⟩ :=
        (turnOutcome_ongoing hdb hkind (passed_of_turnLine hline hkind)).1 houtcome
      exact .inr ⟨hside, rated, hrated⟩
    · intro h
      rcases h with hover | ⟨hside, rated, hrated⟩
      · exact absurd hkind hover
      · exact ⟨rated.negate, (turnOutcome_ongoing hdb hkind (passed_of_turnLine hline hkind)).2
          ⟨hside, rated, hrated, rfl⟩⟩
  · constructor
    · intro _
      exact .inl hkind
    · intro _
      obtain ⟨outcome, houtcome, -⟩ := turnOutcome_over hkind
      exact ⟨outcome, houtcome⟩

/-- A turn is rated as a win exactly when it keeps the win. -/
theorem wdl_eq_one_iff (hdb : Database.Sound provider variant secVals db)
    (hline : r.TurnLine s.1 s.2 turn.actions turn.finalSnapshot)
    (h : Rates (freshSource provider variant secVals) r s.1.sideToMove turn choice) :
    choice.outcome.wdl = 1 ↔ KeepsWin db variant r s.1.sideToMove turn.finalSnapshot := by
  obtain ⟨-, -, houtcome⟩ := h
  unfold KeepsWin
  by_cases hkind : (r.outcome turn.finalSnapshot).kind = .ongoing
  · obtain ⟨-, rated, hrated, hnegate⟩ :=
      (turnOutcome_ongoing hdb hkind (passed_of_turnLine hline hkind)).1 houtcome
    rw [hnegate, hrated, hkind]
    cases rated with
    | win steps => simp [PerfectOutcome.negate, PerfectOutcome.wdl]
    | draw steps => simp [PerfectOutcome.negate, PerfectOutcome.wdl]
    | loss steps => simp [PerfectOutcome.negate, PerfectOutcome.wdl]
  · obtain ⟨outcome, hover, hwdl⟩ := turnOutcome_over hkind
    obtain rfl := Option.some.inj (Except.ok.inj (houtcome.symm.trans hover))
    rw [hwdl]
    constructor
    · intro h
      exact .inl h
    · intro h
      rcases h with hwin | ⟨hongoing, -⟩
      · exact hwin
      · exact absurd hongoing hkind

end

/-- The legal turns, as they are enumerated. -/
theorem turns_eq_ok_iff (hside : s.1.sideToMove = 0 ∨ s.1.sideToMove = 1)
    (hongoing : (r.outcome s.1).kind = .ongoing) {turns : List MillLogicalTurn}
    (hturns : r.legalLogicalTurns s.1 s.2 = .ok turns) :
    r.TurnsComplete s.1 s.2
      ∧ ∀ turn, turn ∈ turns ↔ r.TurnLine s.1 s.2 turn.actions turn.finalSnapshot := by
  obtain ⟨c, hc⟩ := Side.exists_toI8 hside
  have hfound := hturns
  rw [legalLogicalTurns_eq hc hongoing] at hfound
  obtain ⟨found, hexplored, rfl⟩ := Except.map_eq_ok_iff.1 hfound
  obtain ⟨hnodup, hmem⟩ := turns_of_explored hexplored
  exact ⟨⟨_, hturns, hnodup, hmem⟩, hmem⟩

/-- **The best turns do not win exactly where no legal turn keeps the win.** -/
theorem winLost_iff (hdb : Database.Sound provider variant secVals db)
    (hmatch : DatabaseVariant.fromMillOptions r.options = some variant)
    (hside : s.1.sideToMove = 0 ∨ s.1.sideToMove = 1)
    (hongoing : (r.outcome s.1).kind = .ongoing) :
    WinLost db variant r s
      ↔ ∃ choices, StrictBest db variant r s choices
        ∧ ∃ choice ∈ choices, choice.outcome.wdl ≠ 1 := by
  unfold StrictBest
  rw [bestAnswer_eq hdb]
  constructor
  · intro h
    obtain ⟨turns, hturns, -, hmem⟩ := h.complete
    -- every turn is rated, so there are best turns
    obtain ⟨listed, hlisted⟩ := exists_forall₂_iff.2 fun turn hturn =>
      (exists_rates_iff hdb ((hmem turn).1 hturn)).2 (h.rated _ _ ((hmem turn).1 hturn))
    obtain ⟨actions, final, hline⟩ := h.hasTurn
    obtain ⟨first, hfirst, -⟩ :=
      exists_mem_of_forall₂ hlisted ⟨actions, final⟩ ((hmem ⟨actions, final⟩).2 hline)
    obtain ⟨sorted, hsorted⟩ := sortedChoices_of_mem hfirst
    have hfirst' : first ∈ sorted := ((sortedChoices_eq_some hsorted).2 first).2 hfirst
    have hkept := kept_foldl .strictSteps sorted
    obtain ⟨kept, hkeptmem⟩ := hkept.exists_mem hfirst'
    obtain ⟨choices, hchoices⟩ := sortedChoices_of_mem hkeptmem
    refine ⟨choices, best_eq_some_iff.2 ⟨decide_eq_true hmatch, hside, turns, listed,
      sorted, hturns,
      hlisted, hsorted, hchoices⟩, kept, ((sortedChoices_eq_some hchoices).2 kept).2 hkeptmem, ?_⟩
    intro hwdl
    obtain ⟨turn, hturn, hrates⟩ :=
      exists_mem_of_forall₂ hlisted.flip kept (mem_of_kept hsorted hkeptmem)
    have hline := (hmem turn).1 hturn
    exact h.lost _ _ hline ((wdl_eq_one_iff hdb hline hrates).1 hwdl)
  · intro h
    obtain ⟨choices, hbest, choice, hchoice, hwdl⟩ := h
    obtain ⟨-, -, turns, listed, sorted, hturns, hlisted, hsorted, hchoices⟩ :=
      best_eq_some_iff.1 hbest
    obtain ⟨hcomplete, hmem⟩ := turns_eq_ok_iff hside hongoing hturns
    have hkeptmem := ((sortedChoices_eq_some hchoices).2 choice).1 hchoice
    obtain ⟨turn, hturn, -⟩ :=
      exists_mem_of_forall₂ hlisted.flip choice (mem_of_kept hsorted hkeptmem)
    have hrated : ∀ {actions final}, r.TurnLine s.1 s.2 actions final →
        ∃ rated ∈ listed, Rates (freshSource provider variant secVals) r s.1.sideToMove
          ⟨actions, final⟩ rated := fun hline =>
      exists_mem_of_forall₂ hlisted _ ((hmem _).2 hline)
    refine ⟨hcomplete, ⟨_, _, (hmem turn).1 hturn⟩, ?_, ?_⟩
    · intro actions final hline
      obtain ⟨rated, -, hrates⟩ := hrated hline
      exact (@exists_rates_iff _ _ _ _ _ _ ⟨actions, final⟩ hdb hline).1 ⟨rated, hrates⟩
    · intro actions final hline hkeeps
      obtain ⟨rated, hlists, hrates⟩ := hrated hline
      -- the best turn is rated no lower than one that keeps the win
      have hone := (@wdl_eq_one_iff _ _ _ _ _ _ ⟨actions, final⟩ _ hdb hline hrates).2 hkeeps
      have hle := (kept_foldl .strictSteps sorted).wdl_le hkeptmem rated
        (((sortedChoices_eq_some hsorted).2 rated).2 hlists)
      have hmost := wdl_le_one choice.outcome
      omega

end

end Sanmill.Puzzle
