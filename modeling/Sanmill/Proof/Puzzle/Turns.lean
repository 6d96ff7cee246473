import Sanmill.Lib.Transparent
import Sanmill.Proof.LogicalTurn
import Sanmill.Puzzle.Solver

/-!
# The turns that a solution plays

A turn that the database rates is a turn of the position: legal actions of one side, of which
the last and no earlier one passes the turn or ends the game. So none of the assertions about
the turn fails, and the plies that are written down are its actions.
-/

namespace Sanmill.Puzzle

open PerfectDb

variable {r : MillRules} {solverSide : Int} {state : LineState}

/-! ## Plays of whole games -/

/-- A game from a position on, which stops where it is decided. -/
def gameWalk (r : MillRules) : Walk (GameStateSnapshot × List GameStateSnapshot) Action where
  moves s := r.legalActions s.1
  next s a := (r.applyWithHistory s.1 a s.2, s.2 ++ [s.1])
  stops s := decide ((r.outcome s.1).kind ≠ .ongoing)

/-- Where the actions lead. -/
def played (r : MillRules) (s : GameStateSnapshot × List GameStateSnapshot)
    (actions : List Action) : GameStateSnapshot × List GameStateSnapshot :=
  actions.foldl (gameWalk r).next s

/-- The actions as they are written down, each with its side. -/
def spelled (r : MillRules) :
    GameStateSnapshot × List GameStateSnapshot → List Action → List SolutionPly
  | _, [] => []
  | s, a :: rest => ⟨encodeAction a, s.1.sideToMove⟩ :: spelled r ((gameWalk r).next s a) rest

theorem played_append (s : GameStateSnapshot × List GameStateSnapshot)
    (actions rest : List Action) :
    played r s (actions ++ rest) = played r (played r s actions) rest :=
  List.foldl_append

theorem spelled_append (s : GameStateSnapshot × List GameStateSnapshot)
    (actions rest : List Action) :
    spelled r s (actions ++ rest) = spelled r s actions ++ spelled r (played r s actions) rest := by
  induction actions generalizing s with
  | nil => rfl
  | cons a later ih =>
    rw [List.cons_append]
    exact congrArg (_ :: ·) (ih _)

section

variable {s t u : GameStateSnapshot × List GameStateSnapshot} {side : Int}
  {actions rest : List Action}

theorem played_of_complete (h : (r.turnWalk side).Complete s actions t) :
    played r s actions = t := by
  induction h with
  | nil _ => rfl
  | cons _ _ _ ih => exact ih

/-- A turn is the beginning of a game. -/
theorem complete_append (h : (r.turnWalk side).Complete s actions t)
    (hrest : (gameWalk r).Complete t rest u) : (gameWalk r).Complete s (actions ++ rest) u := by
  induction h with
  | nil _ => exact hrest
  | @cons s t a as hopen ha _ ih =>
    have hongoing : (gameWalk r).stops s = false := by
      have hfalse := of_decide_eq_false hopen
      rw [not_or, not_not, not_not] at hfalse
      exact decide_eq_false (not_not.2 hfalse.2)
    exact .cons hongoing ha (ih hrest)

end

/-! ## A turn of a line -/

/-- The position of a line, with the positions before it. -/
def LineState.position (state : LineState) : GameStateSnapshot × List GameStateSnapshot :=
  (state.snap, state.history)

/-- The state after a turn. -/
def advance (r : MillRules) (solverSide : Int) (state : LineState)
    (turn : PerfectLogicalTurnChoice) : LineState :=
  turn.actions.foldl (playAction r state.snap.sideToMove) (noteTurn r solverSide state turn)

@[simp] theorem noteTurn_position (turn : PerfectLogicalTurnChoice) :
    (noteTurn r solverSide state turn).position = state.position := by
  unfold noteTurn
  dsimp only
  split <;> rfl

@[simp] theorem noteTurn_plies (turn : PerfectLogicalTurnChoice) :
    (noteTurn r solverSide state turn).plies = state.plies := by
  unfold noteTurn
  dsimp only
  split <;> rfl

theorem foldl_playAction_position (mover : Int) (actions : List Action) (state : LineState) :
    (actions.foldl (playAction r mover) state).position = played r state.position actions := by
  induction actions generalizing state with
  | nil => rfl
  | cons a rest ih => exact ih _

theorem advance_position (turn : PerfectLogicalTurnChoice) :
    (advance r solverSide state turn).position = played r state.position turn.actions := by
  unfold advance
  rw [foldl_playAction_position, noteTurn_position]

section

variable {mover : Int} {actions : List Action} {t : GameStateSnapshot × List GameStateSnapshot}

/-- All actions of a turn belong to the side that begins it. -/
theorem playActions_eq (h : (r.turnWalk mover).Complete state.position actions t) :
    playActions r mover actions state = .ok (actions.foldl (playAction r mover) state) := by
  induction actions generalizing state with
  | nil => rfl
  | cons a rest ih =>
    obtain ⟨hopen, -, hrest⟩ := Walk.complete_cons_iff.1 h
    have hside : state.snap.sideToMove = mover := by
      have hfalse := of_decide_eq_false hopen
      rw [not_or, not_not] at hfalse
      exact hfalse.1
    unfold playActions assertThat
    rw [if_pos hside]
    exact @ih (playAction r mover state a) hrest

theorem foldl_playAction_plies (h : (r.turnWalk mover).Complete state.position actions t) :
    (actions.foldl (playAction r mover) state).plies
      = state.plies ++ spelled r state.position actions := by
  induction actions generalizing state with
  | nil => exact (List.append_nil _).symm
  | cons a rest ih =>
    obtain ⟨hopen, -, hrest⟩ := Walk.complete_cons_iff.1 h
    have hside : state.snap.sideToMove = mover := by
      have hfalse := of_decide_eq_false hopen
      rw [not_or, not_not] at hfalse
      exact hfalse.1
    rw [List.foldl_cons, @ih (playAction r mover state a) hrest]
    show (state.plies ++ [⟨encodeAction a, mover⟩]) ++ _ = state.plies ++ (_ :: _)
    rw [List.append_assoc, ← hside]
    rfl

end

/-- A rated turn of a position that is not decided, with the end of it. -/
structure IsTurn (r : MillRules) (s : GameStateSnapshot × List GameStateSnapshot)
    (choice : PerfectLogicalTurnChoice) : Prop where
  line : (r.turnWalk s.1.sideToMove).Complete s choice.actions (played r s choice.actions)
  nonempty : choice.actions ≠ []
  /-- The database is asked only for a definite side to move. -/
  definite : (r.outcome (played r s choice.actions).1).kind = .ongoing →
    (played r s choice.actions).1.sideToMove = 0 ∨ (played r s choice.actions).1.sideToMove = 1

/-- Nothing that is asserted of a turn fails. -/
theorem applyTurn_eq {choice : PerfectLogicalTurnChoice} (h : IsTurn r state.position choice) :
    applyTurn r solverSide state choice = .ok (advance r solverSide state choice) := by
  have hline : (r.turnWalk state.snap.sideToMove).Complete
      (noteTurn r solverSide state choice).position choice.actions
      (played r state.position choice.actions) := by
    rw [noteTurn_position]
    exact h.line
  have hends : (r.outcome (advance r solverSide state choice).snap).kind ≠ .ongoing
      ∨ (advance r solverSide state choice).snap.sideToMove ≠ state.snap.sideToMove := by
    have hstop := of_decide_eq_true h.line.stops
    rw [← @advance_position r solverSide] at hstop
    exact hstop.symm
  unfold applyTurn
  refine Except.bind_ok_iff.2 ⟨(), if_pos h.nonempty, ?_⟩
  refine Except.bind_ok_iff.2 ⟨_, playActions_eq hline, ?_⟩
  exact Except.bind_ok_iff.2 ⟨(), if_pos hends, rfl⟩

theorem advance_plies {choice : PerfectLogicalTurnChoice} (h : IsTurn r state.position choice) :
    (advance r solverSide state choice).plies
      = state.plies ++ spelled r state.position choice.actions := by
  unfold advance
  have hline : (r.turnWalk state.snap.sideToMove).Complete
      (noteTurn r solverSide state choice).position choice.actions
      (played r state.position choice.actions) := by
    rw [noteTurn_position]
    exact h.line
  rw [foldl_playAction_plies hline, noteTurn_position, noteTurn_plies]

/-! ## The turns that the database rates -/

section

variable {source : OutcomeSource Id} {snap : GameStateSnapshot} {history : List GameStateSnapshot}
  {choices : List PerfectLogicalTurnChoice}

/-- The turn is rated, and listed as it is rated. -/
def Rates (source : OutcomeSource Id) (r : MillRules) (rootSide : Int) (turn : MillLogicalTurn)
    (choice : PerfectLogicalTurnChoice) : Prop :=
  choice.actions = turn.actions ∧ choice.tokens = turn.actions.map encodeAction
    ∧ (turnOutcome source r rootSide turn).run = .ok (some choice.outcome)

/-- The loop lists every turn, if it can rate them all. -/
theorem turnChoices_eq_some_iff {rootSide : Int} {turns : List MillLogicalTurn} :
    (turnChoices source r rootSide turns).run = .ok (some choices)
      ↔ List.Forall₂ (Rates source r rootSide) turns choices := by
  induction turns generalizing choices with
  | nil =>
    rw [List.forall₂_nil_left_iff]
    constructor
    · intro h
      exact (Option.some.inj (Except.ok.inj h)).symm
    · rintro rfl
      rfl
  | cons turn rest ih =>
    unfold turnChoices
    rw [ExceptT.run_bind_ok_iff, List.forall₂_cons_left_iff]
    constructor
    · intro h
      obtain ⟨outcome, houtcome, hrest⟩ := h
      cases outcome with
      | none => cases Except.ok.inj hrest
      | some outcome =>
        obtain ⟨later, hlater, hcons⟩ := ExceptT.run_bind_ok_iff.1 hrest
        obtain ⟨tail, rfl, rfl⟩ := Option.map_eq_some_iff.1 (Except.ok.inj hcons)
        exact ⟨_, tail, ⟨rfl, rfl, houtcome⟩, ih.1 hlater, rfl⟩
    · intro h
      obtain ⟨⟨actions, tokens, outcome⟩, tail, ⟨hactions, htokens, houtcome⟩, hrest, rfl⟩ := h
      obtain rfl : actions = turn.actions := hactions
      obtain rfl : tokens = turn.actions.map encodeAction := htokens
      refine ⟨some outcome, houtcome, ?_⟩
      exact ExceptT.run_bind_ok_iff.2 ⟨some tail, ih.2 hrest, rfl⟩

theorem sortedChoices_eq_some {sorted : List PerfectLogicalTurnChoice}
    (h : sortedChoices choices = some sorted) :
    sorted ≠ [] ∧ ∀ choice, choice ∈ sorted ↔ choice ∈ choices := by
  unfold sortedChoices at h
  split at h
  · cases h
  · rename_i hsort
    cases h
    exact ⟨hsort, fun choice => List.mem_insertionSort _⟩

/-- The best turns are among the turns. -/
theorem mem_keepBest (ordering : PerfectMoveOrdering) (choices : List PerfectLogicalTurnChoice)
    (best : Option PerfectOutcome × List PerfectLogicalTurnChoice) :
    ∀ choice ∈ (choices.foldl (keepBest ordering) best).2, choice ∈ best.2 ∨ choice ∈ choices := by
  induction choices generalizing best with
  | nil =>
    intro choice hchoice
    exact .inl hchoice
  | cons first rest ih =>
    intro choice hchoice
    have hround : ∀ choice ∈ (keepBest ordering best first).2, choice ∈ best.2
        ∨ choice = first := by
      intro choice hchoice
      unfold keepBest at hchoice
      split at hchoice
      · rcases List.mem_append.1 hchoice with hold | hnew
        · exact .inl hold
        · exact .inr (List.mem_singleton.1 hnew)
      · split at hchoice
        · exact .inr (List.mem_singleton.1 hchoice)
        · rcases List.mem_append.1 hchoice with hold | hnew
          · exact .inl hold
          · exact .inr (List.mem_singleton.1 hnew)
        · exact .inl hchoice
    rcases ih _ choice hchoice with hkept | hlater
    · rcases hround choice hkept with hold | rfl
      · exact .inl hold
      · exact .inr List.mem_cons_self
    · exact .inr (List.mem_cons_of_mem _ hlater)

theorem mem_of_kept {ordering : PerfectMoveOrdering} {sorted : List PerfectLogicalTurnChoice}
    (hsorted : sortedChoices choices = some sorted) {choice : PerfectLogicalTurnChoice}
    (h : choice ∈ (sorted.foldl (keepBest ordering) (none, [])).2) : choice ∈ choices := by
  rcases mem_keepBest ordering sorted _ choice h with hnil | hin
  · cases hnil
  · exact ((sortedChoices_eq_some hsorted).2 choice).1 hin

theorem definite_of_rated {rootSide : Int} {turn : MillLogicalTurn}
    {outcome : Option PerfectOutcome}
    (h : (turnOutcome source r rootSide turn).run = .ok outcome)
    (hongoing : (r.outcome turn.finalSnapshot).kind = .ongoing) :
    turn.finalSnapshot.sideToMove = 0 ∨ turn.finalSnapshot.sideToMove = 1 := by
  unfold turnOutcome terminalOutcomeForRoot at h
  rw [hongoing] at h
  dsimp only at h
  by_cases hside : turn.finalSnapshot.sideToMove ≠ 0 ∧ turn.finalSnapshot.sideToMove ≠ 1
  · rw [if_pos hside] at h
    cases h
  · omega

/-- When there are best turns, and which. -/
theorem best_eq_some_iff {ordering : PerfectMoveOrdering} :
    (bestLogicalTurnChoicesWithOrdering source r snap history ordering).run = .ok (some choices)
      ↔ databaseMatchesOptions source r = true ∧ (snap.sideToMove = 0 ∨ snap.sideToMove = 1)
        ∧ ∃ turns listed sorted, r.legalLogicalTurns snap history = .ok turns
          ∧ List.Forall₂ (Rates source r snap.sideToMove) turns listed
          ∧ sortedChoices listed = some sorted
          ∧ sortedChoices (sorted.foldl (keepBest ordering) (none, [])).2 = some choices := by
  unfold bestLogicalTurnChoicesWithOrdering allLogicalTurnOutcomesWithDatabase
  rw [ExceptT.run_bind_ok_iff]
  dsimp only
  constructor
  · intro h
    obtain ⟨rated, hrated, hbest⟩ := h
    obtain ⟨sorted, rfl, hkept⟩ := Option.bind_eq_some_iff.1 (Except.ok.inj hbest)
    -- the three checks of the enumeration, then the list of rated turns
    split at hrated
    · cases Except.ok.inj hrated
    · rename_i hmatch
      split at hrated
      · cases Except.ok.inj hrated
      · rename_i hside
        split at hrated
        · cases hrated
        · rename_i turns hturns
          obtain ⟨found, hfound, hsorted⟩ := ExceptT.run_bind_ok_iff.1 hrated
          obtain ⟨listed, rfl, hlisted⟩ := Option.bind_eq_some_iff.1 (Except.ok.inj hsorted)
          refine ⟨by simpa using hmatch, by omega, turns, listed, sorted, hturns, ?_,
            hlisted, hkept⟩
          exact turnChoices_eq_some_iff.1 hfound
  · intro h
    obtain ⟨hmatch, hside, turns, listed, sorted, hturns, hlisted, hsorted, hkept⟩ := h
    refine ⟨some sorted, ?_, congrArg Except.ok hkept⟩
    rw [if_neg (by simp [hmatch]), if_neg (by omega), hturns]
    exact ExceptT.run_bind_ok_iff.2 ⟨some listed, turnChoices_eq_some_iff.2 hlisted,
      congrArg Except.ok hsorted⟩

/-- Only a position that is not decided has turns. -/
theorem ongoing_of_turns {turns : List MillLogicalTurn}
    (hside : snap.sideToMove = 0 ∨ snap.sideToMove = 1)
    (hturns : r.legalLogicalTurns snap history = .ok turns) (hne : turns ≠ []) :
    (r.outcome snap).kind = .ongoing := by
  by_contra hover
  unfold MillRules.legalLogicalTurns at hturns
  rw [if_neg (by omega), if_pos hover] at hturns
  exact hne (Except.ok.inj hturns).symm

/-- **What the database rates are turns of the position.** -/
theorem isTurn_of_best {ordering : PerfectMoveOrdering}
    (h : (bestLogicalTurnChoicesWithOrdering source r snap history ordering).run
      = .ok (some choices)) :
    (r.outcome snap).kind = .ongoing ∧ (snap.sideToMove = 0 ∨ snap.sideToMove = 1) ∧ choices ≠ []
      ∧ ∀ choice ∈ choices, IsTurn r (snap, history) choice := by
  obtain ⟨-, hdefinite, turns, listed, sorted, hturns, hlisted, hall, hkept⟩ := best_eq_some_iff.1 h
  obtain ⟨c, hc⟩ := Side.exists_toI8 hdefinite
  obtain ⟨hchoices, hkeptmem⟩ := sortedChoices_eq_some hkept
  -- no turns would leave nothing to sort
  have hongoing : (r.outcome snap).kind = .ongoing := by
    refine ongoing_of_turns hdefinite hturns ?_
    rintro rfl
    obtain rfl := List.forall₂_nil_left_iff.1 hlisted
    cases hall
  refine ⟨hongoing, hdefinite, hchoices, ?_⟩
  intro choice hchoice
  have hin : choice ∈ listed := mem_of_kept hall ((hkeptmem choice).1 hchoice)
  -- the choice stands for one of the turns of the walk
  obtain ⟨turn, hturn, hsame, -, houtcome⟩ := exists_mem_of_forall₂ hlisted.flip choice hin
  rw [legalLogicalTurns_eq hc hongoing] at hturns
  obtain ⟨walks, hwalks, rfl⟩ := Except.map_eq_ok_iff.1 hturns
  obtain ⟨past, hline⟩ := ((turns_of_explored hwalks).2 turn).1 hturn
  have hend : played r (snap, history) choice.actions = (turn.finalSnapshot, past) := by
    rw [hsame]
    exact played_of_complete hline
  refine ⟨?_, ?_, ?_⟩
  · rw [hend, hsame]
    exact hline
  -- an empty turn would mean that the walk stops at its root
  · rintro hnil
    rw [← hsame, hnil] at hline
    cases hline with
    | nil hstop =>
      rcases of_decide_eq_true hstop with hother | hover
      · exact hother rfl
      · exact hover hongoing
  · rw [hend]
    exact definite_of_rated houtcome

end

end Sanmill.Puzzle
