import Sanmill.Mill.Fen
import Sanmill.Proof.Sides

/-!
# What the terminal checks leave

The checks after a text is read end a game that is drawn or lost. They can also let it go
on with another side to move, or with removals owed that were not owed before.
`owedAfterChecks` says what is owed when the same side goes on in the same phase.
-/

namespace Sanmill

variable {options : MillVariantOptions} {s t : MillState} {c : Side}

/-- The n-move rule draws the game. -/
def DrawDue (options : MillVariantOptions) (s : MillState) : Prop :=
  isMoveCountingPhase s options = true ∧ nMoveThreshold s options > 0
    ∧ s.plySinceCapture ≥ nMoveThreshold s options

instance (options : MillVariantOptions) (s : MillState) : Decidable (DrawDue options s) :=
  inferInstanceAs (Decidable (_ ∧ _ ∧ _))

/-- A side is below the minimum in the moving phase. -/
def ShortDue (options : MillVariantOptions) (s : MillState) : Prop :=
  s.phase = .moving ∧ (shortSide? s options).isSome = true

instance (options : MillVariantOptions) (s : MillState) : Decidable (ShortDue options s) :=
  inferInstanceAs (Decidable (_ ∧ _))

/-- The board of the twelve-piece game is full, and nobody owes a removal. -/
def FullBoardDue (options : MillVariantOptions) (s : MillState) : Prop :=
  options.pieceCount = 12 ∧ s.phase = .moving ∧ s.emptySquareCount = 0
    ∧ s.pendingRemovals 0 = 0 ∧ s.pendingRemovals 1 = 0

instance (options : MillVariantOptions) (s : MillState) : Decidable (FullBoardDue options s) :=
  inferInstanceAs (Decidable (_ ∧ _ ∧ _ ∧ _ ∧ _))

/-- What the full-board rule makes `c` and its opponent owe when `c` begins. -/
def fullBoardOwes (options : MillVariantOptions) (c : Side) : Option (Side → Nat) :=
  match options.boardFullAction with
  | .firstPlayerLose | .agreeToDraw => none
  | .firstAndSecondPlayerRemovePiece => if c = 0 then some fun _ => 1 else none
  | .secondAndFirstPlayerRemovePiece => if c = 1 then some fun _ => 1 else none
  | .sideToMoveRemovePiece =>
    let remover : Side := if options.isDefenderMoveFirst then 1 else 0
    if c = remover then some (setAt (fun _ => 0) remover 1) else none

/-- What the stalemate rule makes them owe when `c` stays to move. -/
def stalemateOwes (options : MillVariantOptions) (pending : Side → Nat) (c : Side) :
    Option (Side → Nat) :=
  match options.stalemateAction with
  | .endWithStalemateLoss | .endWithStalemateDraw | .changeSideToMove => none
  | .removeOpponentsPieceAndMakeNextMove | .removeOpponentsPieceAndChangeSideToMove =>
    some (setAt pending c 1)
  | .bothPlayersRemoveOpponentsPiece => some (setAt (setAt pending c 1) c.opponent 1)

/-- What is owed after the checks; `none` where they end the game or pass the turn. -/
def owedAfterChecks (options : MillVariantOptions) (s : MillState) : Option (Side → Nat) :=
  let c := sideIndex s.sideToMove
  if DrawDue options s ∨ ShortDue options s then none
  else if FullBoardDue options s then fullBoardOwes options c
  else if isStalemated s options then stalemateOwes options s.pendingRemovals c
  else some s.pendingRemovals

/-- What the checks look at. -/
def MillState.checked (s : MillState) : MillState :=
  { byColorBb := s.byColorBb
    delayedMarkedPieces := s.delayedMarkedPieces
    piecesOnBoard := s.piecesOnBoard
    piecesInHand := s.piecesInHand
    sideToMove := s.sideToMove
    phase := s.phase
    pendingRemovals := s.pendingRemovals
    plySinceCapture := s.plySinceCapture
    lastMillFrom := s.lastMillFrom
    lastMillTo := s.lastMillTo
    formedMillsBb := s.formedMillsBb }

theorem owedAfterChecks_congr (h : t.checked = s.checked) :
    owedAfterChecks options t = owedAfterChecks options s := by
  have hchecked : ∀ u : MillState, owedAfterChecks options u.checked = owedAfterChecks options u :=
    fun _ => rfl
  rw [← hchecked t, h, hchecked s]

/-- `t` is `s` with these removals owed, as far as a position goes. -/
structure GoesOn (s t : MillState) (owed : Side → Nat) : Prop where
  position : t.toMillPosition = s.toMillPosition
  phase : t.phase = s.phase
  side : t.sideToMove = s.sideToMove
  pending : t.pendingRemovals = owed

/-! ## One check after the other -/

theorem maybeFinishFullBoard_of_not_due (h : ¬FullBoardDue options s) :
    maybeFinishFullBoard s options = s := by
  unfold maybeFinishFullBoard
  unfold FullBoardDue at h
  split
  · rfl
  · split
    · rfl
    · split
      · rfl
      · exact absurd ⟨by omega, by tauto, by tauto, by omega, by omega⟩ h

theorem maybeDrawByNMoveRule_of_not_due (h : ¬DrawDue options s) :
    maybeDrawByNMoveRule s options true = s := by
  unfold maybeDrawByNMoveRule
  unfold DrawDue at h
  rw [if_neg (by decide)]
  split
  · rfl
  · rename_i hphase
    rw [if_neg]
    rintro ⟨hpos, hply⟩
    exact h ⟨by simpa using hphase, hpos, hply⟩

theorem maybeDrawByNMoveRule_of_due (h : DrawDue options s) :
    (maybeDrawByNMoveRule s options true).phase = .gameOver := by
  obtain ⟨hphase, hpos, hply⟩ := h
  unfold maybeDrawByNMoveRule
  rw [if_neg (by decide), if_neg (by simp [hphase])]
  exact congrArg MillState.phase (if_pos ⟨hpos, hply⟩)

/-- The checks from the n-move rule on, of a state in which the full-board rule is done. -/
def laterChecks (s : MillState) (options : MillVariantOptions) : MillState :=
  let state := maybeDrawByNMoveRule s options true
  if state.phase = .gameOver then state
  else match if state.phase = .moving then shortSide? state options else none with
    | some side => finishGame state side.opponent.toI8 .loseFewerThanThree
    | none => (maybeHandleStalemate state options).1

theorem checkIfGameIsOver_stages (hrunning : s.phase ≠ .gameOver) (hside : 0 ≤ s.sideToMove) :
    checkIfGameIsOver s options
      = if (maybeFinishFullBoard s options).phase = .gameOver then maybeFinishFullBoard s options
        else laterChecks (maybeFinishFullBoard s options) options := by
  have hgoes : ¬(s.phase = .gameOver ∨ s.sideToMove < 0) := by
    rintro (h | h)
    · exact hrunning h
    · omega
  unfold checkIfGameIsOver laterChecks
  exact (if_neg hgoes).trans rfl

theorem laterChecks_over (h : DrawDue options s ∨ ShortDue options s) :
    (laterChecks s options).phase = .gameOver := by
  unfold laterChecks
  dsimp only
  by_cases hdraw : DrawDue options s
  · have hover := maybeDrawByNMoveRule_of_due hdraw
    rw [if_pos hover]
    exact hover
  · obtain ⟨hphase, hshort⟩ := h.resolve_left hdraw
    obtain ⟨side, hside⟩ := Option.isSome_iff_exists.1 hshort
    rw [maybeDrawByNMoveRule_of_not_due hdraw, if_neg (by rw [hphase]; decide),
      if_pos hphase, hside]
    rfl

theorem laterChecks_eq (hrunning : s.phase ≠ .gameOver) (hdraw : ¬DrawDue options s)
    (hshort : ¬ShortDue options s) :
    laterChecks s options = (maybeHandleStalemate s options).1 := by
  have hnone : (if s.phase = .moving then shortSide? s options else none) = none := by
    split
    · rename_i hphase
      rw [← Option.not_isSome_iff_eq_none]
      exact fun h => hshort ⟨hphase, h⟩
    · rfl
  unfold laterChecks
  dsimp only
  rw [maybeDrawByNMoveRule_of_not_due hdraw, if_neg hrunning, hnone]

/-! ## The full board -/

/-- The full-board rule ends the game, or lets one side begin to remove. -/
theorem maybeFinishFullBoard_of_due (h : FullBoardDue options s) :
    (maybeFinishFullBoard s options).phase = .gameOver ∧ (∀ d, fullBoardOwes options d = none)
      ∨ ∃ (first : Side) (owed : Side → Nat), 0 < owed first
        ∧ maybeFinishFullBoard s options = armBoardFullRemovals s first owed
        ∧ ∀ d, fullBoardOwes options d = if d = first then some owed else none := by
  obtain ⟨hcount, hphase, hempty, h0, h1⟩ := h
  unfold maybeFinishFullBoard fullBoardOwes
  rw [if_neg (not_not.2 hcount), if_neg (by
    rintro (hne | hne)
    · exact hne hphase
    · exact hne hempty), if_neg (by omega)]
  cases options.boardFullAction with
  | firstPlayerLose => exact Or.inl ⟨rfl, fun _ => rfl⟩
  | agreeToDraw => exact Or.inl ⟨rfl, fun _ => rfl⟩
  | firstAndSecondPlayerRemovePiece =>
    exact Or.inr ⟨0, fun _ => 1, Nat.one_pos, rfl, fun _ => rfl⟩
  | secondAndFirstPlayerRemovePiece =>
    exact Or.inr ⟨1, fun _ => 1, Nat.one_pos, rfl, fun _ => rfl⟩
  | sideToMoveRemovePiece =>
    refine Or.inr ⟨_, _, ?_, rfl, fun _ => rfl⟩
    rw [setAt_self]
    exact Nat.one_pos

theorem isStalemated_of_owing (hside : s.sideToMove = c.toI8) (howed : 0 < s.pendingRemovals c) :
    isStalemated s options = false := by
  have hpending : s.pendingRemovals (sideIndex s.sideToMove) ≠ 0 := by
    rw [hside, Side.sideIndex_toI8]
    omega
  unfold isStalemated
  split
  · rfl
  · dsimp only
    rw [if_pos hpending]

/-! ## Stalemate -/

theorem maybeHandleStalemate_owes (hside : s.sideToMove = c.toI8)
    (hstuck : isStalemated s options = true) :
    (∃ owed, stalemateOwes options s.pendingRemovals c = some owed
        ∧ GoesOn s (maybeHandleStalemate s options).1 owed)
      ∨ stalemateOwes options s.pendingRemovals c = none
        ∧ ((maybeHandleStalemate s options).1.phase = .gameOver
          ∨ (maybeHandleStalemate s options).1.sideToMove ≠ s.sideToMove) := by
  have hindex : sideIndex s.sideToMove = c := by
    rw [hside, Side.sideIndex_toI8]
  unfold maybeHandleStalemate stalemateOwes applyStalemateAction
  rw [if_pos hstuck]
  cases options.stalemateAction with
  | endWithStalemateLoss => exact Or.inr ⟨rfl, Or.inl rfl⟩
  | endWithStalemateDraw => exact Or.inr ⟨rfl, Or.inl rfl⟩
  | changeSideToMove =>
    refine Or.inr ⟨rfl, Or.inr ?_⟩
    change xorOne s.sideToMove ≠ s.sideToMove
    unfold xorOne
    split <;> omega
  | removeOpponentsPieceAndMakeNextMove =>
    exact Or.inl ⟨_, rfl, rfl, rfl, rfl, by rw [hindex]; rfl⟩
  | removeOpponentsPieceAndChangeSideToMove =>
    exact Or.inl ⟨_, rfl, rfl, rfl, rfl, by rw [hindex]; rfl⟩
  | bothPlayersRemoveOpponentsPiece =>
    exact Or.inl ⟨_, rfl, rfl, rfl, rfl, by rw [hindex]; rfl⟩

/-! ## All of them -/

/-- **Either the same side goes on in the same position, owing what `owedAfterChecks` says, or
the game is over or the other side is to move.** -/
theorem checkIfGameIsOver_cases (hrunning : s.phase ≠ .gameOver) (hside : s.sideToMove = c.toI8) :
    (∃ owed, owedAfterChecks options s = some owed
        ∧ GoesOn s (checkIfGameIsOver s options) owed)
      ∨ owedAfterChecks options s = none
        ∧ ((checkIfGameIsOver s options).phase = .gameOver
          ∨ (checkIfGameIsOver s options).sideToMove ≠ s.sideToMove) := by
  have hnonneg : 0 ≤ s.sideToMove := by
    rw [hside]
    exact c.toI8_nonneg
  have hindex : sideIndex s.sideToMove = c := by
    rw [hside, Side.sideIndex_toI8]
  rw [checkIfGameIsOver_stages hrunning hnonneg]
  unfold owedAfterChecks
  dsimp only
  rw [hindex]
  by_cases hfull : FullBoardDue options s
  · rcases maybeFinishFullBoard_of_due hfull with ⟨hend, hnone⟩ | ⟨first, owed, howed, harm, hsome⟩
    · rw [if_pos hend, hnone c, if_pos hfull, ite_self]
      exact Or.inr ⟨rfl, Or.inl hend⟩
    · -- the armed state has the board and the counters of `s`
      have hphase : (armBoardFullRemovals s first owed).phase = s.phase := rfl
      rw [harm, hphase, if_neg hrunning]
      by_cases hdue : DrawDue options s ∨ ShortDue options s
      · rw [if_pos hdue]
        have hdue' : DrawDue options (armBoardFullRemovals s first owed)
            ∨ ShortDue options (armBoardFullRemovals s first owed) := hdue
        exact Or.inr ⟨rfl, Or.inl (laterChecks_over hdue')⟩
      · rw [if_neg hdue, if_pos hfull, hsome c]
        have hlater : laterChecks (armBoardFullRemovals s first owed) options
            = armBoardFullRemovals s first owed := by
          have hrunning' : (armBoardFullRemovals s first owed).phase ≠ .gameOver := hrunning
          have hdraw : ¬DrawDue options (armBoardFullRemovals s first owed) :=
            fun h => hdue (Or.inl h)
          have hshort : ¬ShortDue options (armBoardFullRemovals s first owed) :=
            fun h => hdue (Or.inr h)
          rw [laterChecks_eq hrunning' hdraw hshort]
          unfold maybeHandleStalemate
          rw [if_neg (by
            rw [isStalemated_of_owing (c := first) rfl howed]
            decide)]
        rw [hlater]
        by_cases hfirst : c = first
        · rw [if_pos hfirst]
          exact Or.inl ⟨owed, rfl, rfl, rfl, by rw [hside, hfirst]; rfl, rfl⟩
        · rw [if_neg hfirst]
          refine Or.inr ⟨rfl, Or.inr ?_⟩
          change first.toI8 ≠ s.sideToMove
          rw [hside]
          exact fun h => hfirst (Side.toI8_injective h).symm
  · rw [maybeFinishFullBoard_of_not_due hfull, if_neg hrunning]
    by_cases hdue : DrawDue options s ∨ ShortDue options s
    · rw [if_pos hdue]
      exact Or.inr ⟨rfl, Or.inl (laterChecks_over hdue)⟩
    · rw [if_neg hdue, if_neg hfull,
        laterChecks_eq hrunning (fun h => hdue (Or.inl h)) (fun h => hdue (Or.inr h))]
      by_cases hstuck : isStalemated s options = true
      · rw [if_pos hstuck]
        exact maybeHandleStalemate_owes hside hstuck
      · rw [if_neg hstuck]
        refine Or.inl ⟨_, rfl, ?_⟩
        unfold maybeHandleStalemate
        rw [if_neg hstuck]
        exact ⟨rfl, rfl, rfl, rfl⟩

end Sanmill
