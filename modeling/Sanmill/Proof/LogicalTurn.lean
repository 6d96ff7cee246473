import Sanmill.Lib.Walk
import Sanmill.Mill.LegalApply
import Sanmill.Proof.Generators
import Sanmill.Proof.Stalemate

/-!
# The logical turns of a position

A turn is a complete walk through the legal actions of the side that begins it. The
enumeration is the exploration of that walk, so it lists the turns of a position exactly
when no run of actions that keeps the turn is stuck or uses up the limit.
-/

namespace Sanmill

variable {r : MillRules}

namespace MillRules

/-- The actions of one turn of `rootSide`, with the positions passed. -/
def turnWalk (r : MillRules) (rootSide : Int) :
    Walk (GameStateSnapshot × List GameStateSnapshot) Action where
  moves s := r.legalActions s.1
  next s a := (r.applyWithHistory s.1 a s.2, s.2 ++ [s.1])
  stops s := decide (s.1.sideToMove ≠ rootSide ∨ (r.outcome s.1).kind ≠ .ongoing)

/--
The turns of the side to move: legal actions, each applied with the positions before it,
of which the last and no earlier one passes the turn or ends the game.
-/
def TurnLine (r : MillRules) (snapshot : GameStateSnapshot) (history : List GameStateSnapshot)
    (actions : List Action) (final : GameStateSnapshot) : Prop :=
  ∃ past, (r.turnWalk snapshot.sideToMove).Complete (snapshot, history) actions (final, past)

/-- Legal actions that leave the side on turn and the game undecided, also between them. -/
def OpenLine (r : MillRules) (snapshot : GameStateSnapshot) (history : List GameStateSnapshot)
    (actions : List Action) (last : GameStateSnapshot) : Prop :=
  ∃ past, (r.turnWalk snapshot.sideToMove).Open (snapshot, history) actions (last, past)

/-- The enumeration answers with the turns of the position, each once. -/
def TurnsComplete (r : MillRules) (snapshot : GameStateSnapshot)
    (history : List GameStateSnapshot) : Prop :=
  ∃ turns, r.legalLogicalTurns snapshot history = .ok turns
    ∧ (turns.map MillLogicalTurn.actions).Nodup
    ∧ ∀ turn, turn ∈ turns ↔ r.TurnLine snapshot history turn.actions turn.finalSnapshot

end MillRules

/-- The turn that a walk completes after the actions before it. -/
def turnAfter (actions : List Action)
    (walk : List Action × (GameStateSnapshot × List GameStateSnapshot)) : MillLogicalTurn :=
  { actions := actions ++ walk.1, finalSnapshot := walk.2.1 }

theorem turnAfter_cons (actions : List Action) (a : Action)
    (walk : List Action × (GameStateSnapshot × List GameStateSnapshot)) :
    turnAfter actions (a :: walk.1, walk.2) = turnAfter (actions ++ [a]) walk := by
  unfold turnAfter
  rw [List.append_assoc, List.singleton_append]

/-- What the enumeration finds in a position, before the actions that led there. -/
def explored (r : MillRules) (side : Int) (n : Nat)
    (s : GameStateSnapshot × List GameStateSnapshot) :
    Except LogicalTurnError (List (List Action × (GameStateSnapshot × List GameStateSnapshot))) :=
  (r.turnWalk side).explore .noLegalContinuation .continuationLimitExceeded n s

/-- One round of the enumeration, over the moves of a position. -/
theorem foldlM_turns (side : Int) (n : Nat) (moves : List Action)
    (next : Action → GameStateSnapshot × List GameStateSnapshot) (actions : List Action)
    (turns : List MillLogicalTurn) :
    (moves.foldlM (fun turns a => (explored r side n (next a)).map fun found =>
        turns ++ found.map (turnAfter (actions ++ [a]))) turns)
      = ((moves.mapM fun a => (explored r side n (next a)).map fun tails =>
          tails.map fun tail => (a :: tail.1, tail.2)).map List.flatten).map
        fun found => turns ++ found.map (turnAfter actions) := by
  -- the action prepended by the walk is the one appended to the path by the source
  have hpiece : ∀ a, ((explored r side n (next a)).map fun found =>
        found.map (turnAfter (actions ++ [a])))
      = ((explored r side n (next a)).map fun tails =>
          tails.map fun tail => (a :: tail.1, tail.2)).map (List.map (turnAfter actions)) := by
    intro a
    cases explored r side n (next a) with
    | error e => rfl
    | ok tails =>
      refine congrArg Except.ok ?_
      rw [List.map_map]
      exact List.map_congr_left fun walk _ => (turnAfter_cons actions a walk).symm
  have hfold := Except.foldlM_append (fun a => (explored r side n (next a)).map fun found =>
    found.map (turnAfter (actions ++ [a]))) moves turns
  rw [funext hpiece, Except.mapM_map] at hfold
  have hsame : ∀ (found : List MillLogicalTurn) (a : Action),
      ((explored r side n (next a)).map fun walks => walks.map (turnAfter (actions ++ [a]))).map
          (found ++ ·)
        = (explored r side n (next a)).map fun walks =>
            found ++ walks.map (turnAfter (actions ++ [a])) := by
    intro found a
    cases explored r side n (next a) with
    | error e => rfl
    | ok walks => rfl
  -- concatenating inside the fold or after it is the same, also where it fails
  have hjoin : ∀ pieces : Except LogicalTurnError
      (List (List (List Action × (GameStateSnapshot × List GameStateSnapshot)))),
      (pieces.map (List.map (List.map (turnAfter actions)))).map
          (fun pieces => turns ++ pieces.flatten)
        = (pieces.map List.flatten).map fun found => turns ++ found.map (turnAfter actions) := by
    intro pieces
    cases pieces with
    | error e => rfl
    | ok pieces =>
      refine congrArg (fun found => Except.ok (turns ++ found)) ?_
      rw [List.map_flatten]
  rw [← hjoin, ← hfold]
  refine congrArg (fun step => moves.foldlM step turns) ?_
  funext found a
  rw [← hsame, hpiece]

/-- **The enumeration explores the walk of the turn.** -/
theorem enumerateContinuation_eq (side : Int) (n : Nat) (snapshot : GameStateSnapshot)
    (history : List GameStateSnapshot) (actions : List Action) (turns : List MillLogicalTurn)
    (hn : actions.length + n = maxActionsPerLogicalTurn + 1) :
    r.enumerateContinuation side snapshot history actions turns
      = (explored r side n (snapshot, history)).map
          fun found => turns ++ found.map (turnAfter actions) := by
  -- the induction is on the actions that are still allowed; the source counts those already made
  induction n generalizing snapshot history actions turns with
  | zero =>
    rw [MillRules.enumerateContinuation, dif_pos (by omega)]
    rfl
  | succ n ih =>
    rw [MillRules.enumerateContinuation, dif_neg (by omega)]
    show _ = Except.map _ (if (r.turnWalk side).stops (snapshot, history) then _ else _)
    by_cases hstop : snapshot.sideToMove ≠ side ∨ (r.outcome snapshot).kind ≠ .ongoing
    · have hstops : (r.turnWalk side).stops (snapshot, history) = true := decide_eq_true hstop
      rw [if_pos hstop, if_pos hstops]
      simp [Except.map, turnAfter]
    · have hstops : ¬(r.turnWalk side).stops (snapshot, history) = true := by
        intro h
        exact hstop (of_decide_eq_true h)
      rw [if_neg hstop, if_neg hstops]
      show (if (r.legalActions snapshot).isEmpty then _ else _)
        = Except.map _ (if (r.legalActions snapshot).isEmpty then _ else _)
      by_cases hlegal : (r.legalActions snapshot).isEmpty = true
      · rw [if_pos hlegal, if_pos hlegal]
        rfl
      · rw [if_neg hlegal, if_neg hlegal]
        refine Eq.trans ?_ (foldlM_turns side n (r.legalActions snapshot)
          ((r.turnWalk side).next (snapshot, history)) actions turns)
        refine congrArg (fun step => (r.legalActions snapshot).foldlM step turns) ?_
        funext turns a
        exact ih _ _ _ _ (by rw [List.length_append, List.length_singleton]; omega)

/-- The same of the whole turn, in a position that is not decided. -/
theorem legalLogicalTurns_eq {snapshot : GameStateSnapshot} {c : Side}
    (hside : snapshot.sideToMove = c.toI8) (hongoing : (r.outcome snapshot).kind = .ongoing)
    (history : List GameStateSnapshot) :
    r.legalLogicalTurns snapshot history
      = (explored r snapshot.sideToMove (maxActionsPerLogicalTurn + 1) (snapshot, history)).map
          fun found => found.map (turnAfter []) := by
  have hdefinite : ¬(snapshot.sideToMove ≠ 0 ∧ snapshot.sideToMove ≠ 1) := by
    have h0 := c.toI8_nonneg
    have h1 := c.toI8_le_one
    omega
  -- the root is running with its own side to move, so the walk does not stop there
  have hopen : ¬(r.turnWalk snapshot.sideToMove).stops (snapshot, history) = true := by
    intro h
    rcases of_decide_eq_true h with hother | hover
    · exact hother rfl
    · exact hover hongoing
  unfold MillRules.legalLogicalTurns
  show (if snapshot.sideToMove ≠ 0 ∧ snapshot.sideToMove ≠ 1 then _ else _)
    = Except.map _ (if (r.turnWalk snapshot.sideToMove).stops (snapshot, history) then _ else _)
  rw [if_neg hdefinite, if_neg hopen, if_neg (not_not_intro hongoing)]
  show (if (r.legalActions snapshot).isEmpty then _ else _)
    = Except.map _ (if (r.legalActions snapshot).isEmpty then _ else _)
  by_cases hlegal : (r.legalActions snapshot).isEmpty = true
  · rw [if_pos hlegal, if_pos hlegal]
    rfl
  · rw [if_neg hlegal, if_neg hlegal]
    refine Eq.trans ?_ (foldlM_turns snapshot.sideToMove maxActionsPerLogicalTurn
      (r.legalActions snapshot) ((r.turnWalk snapshot.sideToMove).next (snapshot, history)) [] [])
    refine congrArg (fun step => (r.legalActions snapshot).foldlM step []) ?_
    funext turns a
    exact enumerateContinuation_eq _ _ _ _ _ _ rfl

theorem nodup_legalActions (r : MillRules) (snapshot : GameStateSnapshot) :
    (r.legalActions snapshot).Nodup :=
  nodup_legalActionsWithPriority (List.nodup_finRange 24) (masksDisjoint_decode snapshot r.options)

/-- What a successful enumeration lists. -/
theorem turns_of_explored {snapshot : GameStateSnapshot} {history : List GameStateSnapshot}
    {n : Nat} {found : List (List Action × (GameStateSnapshot × List GameStateSnapshot))}
    (h : explored r snapshot.sideToMove n (snapshot, history) = .ok found) :
    ((found.map (turnAfter [])).map MillLogicalTurn.actions).Nodup
      ∧ ∀ turn, turn ∈ found.map (turnAfter [])
        ↔ r.TurnLine snapshot history turn.actions turn.finalSnapshot := by
  constructor
  · have hfirst : (found.map (turnAfter [])).map MillLogicalTurn.actions
        = found.map Prod.fst := by
      rw [List.map_map]
      rfl
    rw [hfirst]
    exact Walk.nodup_explore (I := fun _ => True) (fun _ _ _ _ _ => trivial)
      (fun s _ => nodup_legalActions r s.1) trivial h
  · intro turn
    rw [List.mem_map]
    constructor
    · intro hturn
      obtain ⟨⟨actions, final, past⟩, hmem, rfl⟩ := hturn
      exact ⟨past, (Walk.mem_explore h actions (final, past)).1 hmem⟩
    · intro hline
      obtain ⟨past, hline⟩ := hline
      exact ⟨(turn.actions, turn.finalSnapshot, past), (Walk.mem_explore h _ _).2 hline, rfl⟩

/-- The enumeration answers as soon as the exploration does. -/
theorem turnsComplete_iff_explored {snapshot : GameStateSnapshot} {c : Side}
    (hside : snapshot.sideToMove = c.toI8) (hongoing : (r.outcome snapshot).kind = .ongoing)
    (history : List GameStateSnapshot) :
    r.TurnsComplete snapshot history ↔ ∃ found,
      explored r snapshot.sideToMove (maxActionsPerLogicalTurn + 1) (snapshot, history)
        = .ok found := by
  unfold MillRules.TurnsComplete
  rw [legalLogicalTurns_eq hside hongoing]
  constructor
  · intro h
    obtain ⟨turns, hturns, -⟩ := h
    obtain ⟨found, hfound, -⟩ := Except.map_eq_ok_iff.1 hturns
    exact ⟨found, hfound⟩
  · intro h
    obtain ⟨found, hfound⟩ := h
    exact ⟨_, Except.map_eq_ok_iff.2 ⟨found, hfound, rfl⟩, turns_of_explored hfound⟩

/-- A position whose turns are found has no open line that is stuck or too long. -/
theorem MillRules.OpenLine.continues {snapshot last : GameStateSnapshot}
    {history : List GameStateSnapshot}
    {c : Side} {actions : List Action} (hline : r.OpenLine snapshot history actions last)
    (hside : snapshot.sideToMove = c.toI8) (hongoing : (r.outcome snapshot).kind = .ongoing)
    (h : r.TurnsComplete snapshot history) :
    r.legalActions last ≠ [] ∧ actions.length < maxActionsPerLogicalTurn := by
  obtain ⟨past, hwalk⟩ := hline
  exact Walk.explore_ok_iff.1 ((turnsComplete_iff_explored hside hongoing history).1 h) actions
    (last, past) hwalk

/-- **The turns are all found, each once, unless some run of the side is stuck or too long.** -/
theorem turnsComplete_iff {snapshot : GameStateSnapshot} {c : Side}
    (hside : snapshot.sideToMove = c.toI8) (hongoing : (r.outcome snapshot).kind = .ongoing)
    (history : List GameStateSnapshot) :
    r.TurnsComplete snapshot history
      ↔ ∀ actions last, r.OpenLine snapshot history actions last →
          r.legalActions last ≠ [] ∧ actions.length < maxActionsPerLogicalTurn := by
  constructor
  · intro h actions last hline
    exact hline.continues hside hongoing h
  · intro h
    refine (turnsComplete_iff_explored hside hongoing history).2 (Walk.explore_ok_iff.2 ?_)
    intro actions last hwalk
    exact h actions last.1 ⟨last.2, hwalk⟩

/-! ## A removal that cannot be made -/

def strippedOptions : MillVariantOptions :=
  { mayRemoveMultiple := true, custodianCapture := { enabled := true }
    interventionCapture := { enabled := true } }

def strippedRules : MillRules := ⟨strippedOptions, by decide⟩

/-- White takes three pieces of Black by captures; Black has one left, on `20`, and five in hand. -/
def strippedLine : List Action :=
  [placeAction 1, placeAction 15, placeAction 16, placeAction 9, placeAction 8, removeAction 15,
    removeAction 9, placeAction 0, placeAction 7, removeAction 0, placeAction 20]

example : strippedLine.length = 11 := by decide +kernel

def stripped : GameStateSnapshot :=
  playLine strippedRules strippedRules.initialState strippedLine

theorem stripped_reachable : Reachable strippedRules stripped :=
  Reachable.initial.playLine (by decide +kernel)

theorem stripped_facts :
    stripped.sideToMove = Side.toI8 0 ∧ (strippedRules.outcome stripped).kind = .ongoing := by
  decide +kernel

/-- The theorem at that position. -/
theorem turnsComplete_iff_stripped :
    strippedRules.TurnsComplete stripped []
      ↔ ∀ actions last, strippedRules.OpenLine stripped [] actions last →
          strippedRules.legalActions last ≠ [] ∧ actions.length < maxActionsPerLogicalTurn :=
  turnsComplete_iff stripped_facts.1 stripped_facts.2 []

/-- After the double mill through `0` and one removal, White owes a removal and Black has no
piece. -/
theorem stripped_stuck : ∃ last,
    strippedRules.OpenLine stripped [] [placeAction 0, removeAction 20] last
      ∧ strippedRules.legalActions last = [] := by
  have hstuck : ((strippedRules.turnWalk stripped.sideToMove).follow (stripped, [])
      [placeAction 0, removeAction 20]).any
        (fun last => (strippedRules.legalActions last.1).isEmpty) = true := by
    decide +kernel
  obtain ⟨last, hlast, hempty⟩ := (Option.any_eq_true _ _).1 hstuck
  exact ⟨last.1, ⟨last.2, Walk.Open.of_follow hlast⟩, List.isEmpty_iff.1 hempty⟩

/-! ## A turn that does not end -/

/-- White is walled in and passes, so that Black keeps the turn. -/
def passingOptions : MillVariantOptions :=
  { mayFly := false, stalemateAction := .changeSideToMove, threefoldRepetitionRule := false }

def passingRules : MillRules := ⟨passingOptions, by decide⟩

def passing : GameStateSnapshot :=
  playLine passingRules passingRules.initialState (walledLine ++ [placeAction 21])

/-- Black moves a piece to and fro. -/
def shuttle : List Action := (List.replicate 12 [moveAction 7 0, moveAction 0 7]).flatten

example : shuttle.length = 24 := by decide +kernel

theorem passing_facts :
    passing.sideToMove = Side.toI8 1 ∧ (passingRules.outcome passing).kind = .ongoing
      ∧ ((passingRules.turnWalk passing.sideToMove).follow (passing, []) shuttle).isSome
        = true := by
  decide +kernel

/--
**White's turn is not listed at `stripped`, where a removal it earns has no target;
nor is Black's at `passing`, where it moves for as long as it likes.**
-/
theorem unfinished_turns :
    ¬(∀ (r : MillRules) (snapshot : GameStateSnapshot) (c : Side), Reachable r snapshot →
        snapshot.sideToMove = c.toI8 → (r.outcome snapshot).kind = .ongoing →
        ∀ history, r.TurnsComplete snapshot history)
      ∧ ¬passingRules.TurnsComplete passing [] := by
  constructor
  · intro h
    have hcomplete := h strippedRules stripped 0 stripped_reachable stripped_facts.1
      stripped_facts.2 []
    obtain ⟨last, hline, hempty⟩ := stripped_stuck
    exact (hline.continues stripped_facts.1 stripped_facts.2 hcomplete).1 hempty
  · intro h
    obtain ⟨hside, hongoing, hfollow⟩ := passing_facts
    obtain ⟨last, hlast⟩ := Option.isSome_iff_exists.1 hfollow
    have hline : passingRules.OpenLine passing [] shuttle last.1 :=
      ⟨last.2, Walk.Open.of_follow hlast⟩
    exact absurd (hline.continues hside hongoing h).2 (by decide)

end Sanmill
