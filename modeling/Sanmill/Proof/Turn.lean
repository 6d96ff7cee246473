import Sanmill.Proof.Board

/-!
# Whose turn it is

The control fields of a running game: who is to move, what is owed, and what has
been recorded about captures. `TurnInv` is what holds whenever a side is about to
act. The branches of the apply path reach it in two ways. Either they leave the
side to move with an obligation, or they end the turn through `endPlacingTurn`;
`TurnEnd` is what must hold at that point.
-/

namespace Sanmill

open Bits

/-- `c` has no capture on record. -/
structure CapturesEmpty (k : MillCaptures) (c : Side) : Prop where
  custodian : k.custodianTargets c = 0
  custodianCount : k.custodianCount c = 0
  intervention : k.interventionTargets c = 0
  interventionCount : k.interventionCount c = 0
  leap : k.leapTargets c = 0
  leapCount : k.leapCount c = 0

/-- What `c` may capture is a live piece of the opponent, and is counted. -/
structure CaptureRecord (s : MillState) (c : Side) : Prop where
  custodianLive : ∀ i, testBit (s.custodianTargets c) i = true →
    testBit (s.byColorBb c.opponent) i = true
  interventionLive : ∀ i, testBit (s.interventionTargets c) i = true →
    testBit (s.byColorBb c.opponent) i = true
  leapLive : ∀ i, testBit (s.leapTargets c) i = true →
    testBit (s.byColorBb c.opponent) i = true
  custodianCounted : s.custodianTargets c ≠ 0 → 0 < s.custodianCount c
  interventionCounted : s.interventionTargets c ≠ 0 → 0 < s.interventionCount c
  leapCounted : s.leapTargets c ≠ 0 → 0 < s.leapCount c

/-- The game goes on and it is `c`'s turn. -/
structure TurnInv (s : MillState) (c : Side) : Prop where
  active : s.sideToMove = c.toI8
  running : s.phase = .placing ∨ s.phase = .moving
  synced : s.action = s.syncedAction
  undecided : s.winner = -1 ∧ s.outcomeReason = .ongoing
  /-- A side that owes nothing places while it has pieces in hand. -/
  phase_eq : s.pendingRemovals c = 0 →
    s.phase = if s.piecesInHand c = 0 then .moving else .placing
  /-- A side that owes nothing has nothing left over from an earlier obligation. -/
  quiet : s.pendingRemovals c = 0 →
    CapturesEmpty s.toMillCaptures c ∧ s.flags.millAvailableAtRemoval = false
      ∧ s.flags.stalemateRemoving = false ∧ s.flags.bothStalemateRemoving = false
  /-- Both sides owe a removal only while moving, and the active side removes first. -/
  opponentOwes : s.pendingRemovals c.opponent ≠ 0 →
    s.pendingRemovals c ≠ 0 ∧ s.phase = .moving ∧ s.flags.stalemateRemoving = false
  opponentCaptures : CapturesEmpty s.toMillCaptures c.opponent
  record : CaptureRecord s c
  /-- Removing an own piece is an obligation, and rules out captures. -/
  ownPieceOwed : ∀ x, s.flags.removeOwnPiece x = true → s.pendingRemovals x ≠ 0
  ownPieceAlone : s.flags.removeOwnPiece c = true → CapturesEmpty s.toMillCaptures c

/-- If the game goes on, it is somebody's turn. -/
def SomeTurn (s : MillState) : Prop := s.phase ≠ .gameOver → ∃ c, TurnInv s c

section Captures

variable {k : MillCaptures} {s : MillState} {c : Side}

theorem CapturesEmpty.record (h : CapturesEmpty s.toMillCaptures c) : CaptureRecord s c := by
  refine ⟨fun i hi => ?_, fun i hi => ?_, fun i hi => ?_, fun hne => absurd h.custodian hne,
    fun hne => absurd h.intervention hne, fun hne => absurd h.leap hne⟩
  · rw [h.custodian] at hi
    simp at hi
  · rw [h.intervention] at hi
    simp at hi
  · rw [h.leap] at hi
    simp at hi

theorem capturesEmpty_cleared (c : Side) : CapturesEmpty {} c := ⟨rfl, rfl, rfl, rfl, rfl, rfl⟩

theorem captureStateIsEmpty_iff_empty :
    captureStateIsEmpty s = true ↔ ∀ c, CapturesEmpty s.toMillCaptures c := by
  simp only [captureStateIsEmpty, List.all_cons, List.all_nil, Bool.and_true, Bool.and_eq_true,
    decide_eq_true_eq, Fin.forall_fin_two]
  constructor
  · rintro ⟨⟨⟨⟨⟨⟨h1, h2⟩, h3⟩, h4⟩, h5⟩, h6⟩, ⟨⟨⟨⟨⟨h7, h8⟩, h9⟩, h10⟩, h11⟩, h12⟩⟩
    exact ⟨⟨h1, h2, h3, h4, h5, h6⟩, ⟨h7, h8, h9, h10, h11, h12⟩⟩
  · rintro ⟨⟨h1, h2, h3, h4, h5, h6⟩, ⟨h7, h8, h9, h10, h11, h12⟩⟩
    exact ⟨⟨⟨⟨⟨⟨h1, h2⟩, h3⟩, h4⟩, h5⟩, h6⟩, ⟨⟨⟨⟨⟨h7, h8⟩, h9⟩, h10⟩, h11⟩, h12⟩⟩

end Captures

/-! ## What the transitions can do -/

variable {options : MillVariantOptions} {s : MillState} {e : Side}

def countsMills (options : MillVariantOptions) : Prop :=
  options.millFormationActionInPlacingPhase = .removalBasedOnMillCounts

theorem removalsForMillCounts_pos (w b : Nat) :
    0 < (removalsForMillCounts w b).1 ∧ 0 < (removalsForMillCounts w b).2 := by
  unfold removalsForMillCounts
  split_ifs <;> simp <;> omega

theorem removalsForMillCounts_le {w b k : Nat} (hw : w ≤ k) (hb : b ≤ k) :
    (removalsForMillCounts w b).1 ≤ k + 2 ∧ (removalsForMillCounts w b).2 ≤ k + 2 := by
  unfold removalsForMillCounts
  split_ifs <;> simp <;> omega

theorem totalMillsCount_le (s : MillState) (options : MillVariantOptions) (side : Int) :
    totalMillsCount s options side ≤ 20 := by
  refine le_trans List.countP_le_length ?_
  unfold millLines
  split <;> decide

/-- What a count of mills makes a side owe. -/
def OwesForMills (owed : Side → Nat) : Prop := ∀ x, owed x ≠ 0 ∧ owed x ≤ 255

/-- Counting mills leaves both sides with an obligation and the same side to move. -/
theorem applyRemovalBasedOnMillCounts_eq (hactive : s.sideToMove = e.toI8) :
    ∃ (owed : Side → Nat) (flags : MillStateFlags),
      applyRemovalBasedOnMillCounts s options
        = { s with pendingRemovals := owed, flags := flags, sideToMove := e.toI8 }
      ∧ OwesForMills owed
      ∧ flags.stalemateRemoving = s.flags.stalemateRemoving
      ∧ flags.bothStalemateRemoving = s.flags.bothStalemateRemoving := by
  have hpos := removalsForMillCounts_pos (totalMillsCount s options 0) (totalMillsCount s options 1)
  have hle := removalsForMillCounts_le (totalMillsCount_le s options 0)
    (totalMillsCount_le s options 1)
  have howed : OwesForMills (perSide
      (removalsForMillCounts (totalMillsCount s options 0) (totalMillsCount s options 1)).1
      (removalsForMillCounts (totalMillsCount s options 0) (totalMillsCount s options 1)).2) := by
    intro x
    unfold perSide
    split <;> omega
  unfold applyRemovalBasedOnMillCounts
  simp only [MillState.setRemoveOwnPieces, MillState.refreshZobristMiscForActiveSide,
    MillState.setZobristMiscCount, MillState.setMillAvailableAtRemoval, hactive,
    Side.sideIndex_toI8, (howed e).1, if_false]
  exact ⟨_, _, rfl, howed, rfl, rfl⟩

/-- Entering the moving phase sweeps the marks, and counts mills under that rule. -/
theorem enterMovingPhase_eq (hpos : PositionInv options s.toMillPosition)
    (hactive : s.sideToMove = e.toI8) :
    ∃ (owed : Side → Nat) (flags : MillStateFlags) (e' : Side),
      enterMovingPhase s options
        = { s with
            board := sweptBoard s.toMillPosition, delayedMarkedPieces := 0, phase := .moving,
            pendingRemovals := owed, flags := flags, sideToMove := e'.toI8 }
      ∧ (countsMills options → OwesForMills owed)
      ∧ (¬countsMills options → owed = s.pendingRemovals ∧ flags = s.flags)
      ∧ flags.stalemateRemoving = s.flags.stalemateRemoving
      ∧ flags.bothStalemateRemoving = s.flags.bothStalemateRemoving := by
  unfold enterMovingPhase
  rw [sweepMarkedPieces_eq (s := { s with phase := .moving }) hpos]
  simp only
  have hfirst : ∃ f : Side, (if options.isDefenderMoveFirst then (1 : Int) else 0) = f.toI8 := by
    split
    · exact ⟨1, rfl⟩
    · exact ⟨0, rfl⟩
  obtain ⟨f, hf⟩ := hfirst
  by_cases hc : countsMills options
  -- the mills are counted: they decide the owed removals, and the first side moves
  · have hc' := hc
    unfold countsMills at hc'
    obtain ⟨owed, flags, heq, howed, hs, hb⟩ := @applyRemovalBasedOnMillCounts_eq
      options
      { s with board := sweptBoard s.toMillPosition, delayedMarkedPieces := 0, phase := .moving }
      _ hactive
    refine ⟨owed, flags, f, ?_, fun _ => howed, fun h => absurd hc h, hs, hb⟩
    simp only [hc', decide_true, if_true, Bool.not_true, Bool.and_false, Bool.false_eq_true,
      if_false, heq, hf]
  · have hc' := hc
    unfold countsMills at hc'
    simp only [hc', decide_false, Bool.false_eq_true, if_false]
    -- otherwise the side is kept, or passes to the one that moves first
    by_cases hkeep : (keepsSideAtPlacingEnd options
        && !decide (options.millFormationActionInPlacingPhase = .markAndDelayRemovingPieces)
        && !false) = true
    · rw [if_pos hkeep]
      split
      · exact ⟨s.pendingRemovals, s.flags, 1, rfl, fun h => absurd h hc, fun _ => ⟨rfl, rfl⟩,
          rfl, rfl⟩
      · refine ⟨s.pendingRemovals, s.flags, e, ?_, fun h => absurd h hc, fun _ => ⟨rfl, rfl⟩,
          rfl, rfl⟩
        rw [← hactive]
    · rw [if_neg hkeep]
      exact ⟨s.pendingRemovals, s.flags, f, by rw [hf], fun h => absurd h hc,
        fun _ => ⟨rfl, rfl⟩, rfl, rfl⟩

/-- The transition happens at most once, from the placing phase, and leaves the hands empty. -/
theorem maybeTransitionToMoving_cases (hpos : PositionInv options s.toMillPosition)
    (hactive : s.sideToMove = e.toI8) :
    (maybeTransitionToMoving s options = s
        ∧ ¬(s.phase = .placing ∧ ∀ x, s.piecesInHand x = 0))
      ∨ (s.phase = .placing ∧ maybeTransitionToMoving s options
          = enterMovingPhase { s with piecesInHand := fun _ => 0 } options) := by
  unfold maybeTransitionToMoving
  by_cases hhands : s.phase = .placing ∧ s.piecesInHand 0 = 0 ∧ s.piecesInHand 1 = 0
  · right
    have hzero : s.piecesInHand = fun _ => 0 := by
      funext x
      rcases Side.eq_or_eq_opponent 0 x with rfl | rfl
      · exact hhands.2.1
      · exact hhands.2.2
    have hsame : { s with piecesInHand := fun _ => 0 } = s := by rw [← hzero]
    refine ⟨hhands.1, ?_⟩
    obtain ⟨owed, flags, e', heq, -⟩ := enterMovingPhase_eq hpos hactive
    have hmoving : (enterMovingPhase s options).phase ≠ .placing := by
      rw [heq]
      simp
    simp only [if_pos hhands, hmoving, false_and, and_false, if_false, hsame]
  · simp only [if_neg hhands]
    split
    · rename_i hstop
      exact Or.inr ⟨hstop.2.2.1, rfl⟩
    · exact Or.inl ⟨rfl, fun h => hhands ⟨h.1, h.2 0, h.2 1⟩⟩

/-- The full-board rule leaves the state alone, ends the game, or makes somebody remove. -/
theorem maybeFinishFullBoard_cases (s : MillState) (options : MillVariantOptions) :
    maybeFinishFullBoard s options = s
      ∨ (s.phase = .moving ∧ (∀ x, s.pendingRemovals x = 0)
        ∧ ((∃ winner reason, (winner = 1 ∨ winner = 2)
            ∧ maybeFinishFullBoard s options = finishGame s winner reason)
          ∨ ∃ (first : Side) (owed : Side → Nat), owed first ≠ 0 ∧ (∀ x, owed x ≤ 1)
            ∧ maybeFinishFullBoard s options = armBoardFullRemovals s first owed)) := by
  unfold maybeFinishFullBoard
  by_cases h12 : options.pieceCount ≠ 12
  · exact Or.inl (if_pos h12)
  rw [if_neg h12]
  by_cases hfull : s.phase ≠ .moving ∨ s.emptySquareCount ≠ 0
  · exact Or.inl (if_pos hfull)
  rw [if_neg hfull]
  by_cases howed : 0 < s.pendingRemovals 0 ∨ 0 < s.pendingRemovals 1
  · exact Or.inl (if_pos howed)
  rw [if_neg howed]
  -- the board is full and nothing is owed, so the action of the rules decides
  push Not at hfull howed
  refine Or.inr ⟨hfull.1, ?_, ?_⟩
  · rw [Fin.forall_fin_two]
    omega
  cases options.boardFullAction with
  | firstPlayerLose => exact Or.inl ⟨_, _, Or.inl rfl, rfl⟩
  | agreeToDraw => exact Or.inl ⟨_, _, Or.inr rfl, rfl⟩
  | firstAndSecondPlayerRemovePiece =>
    exact Or.inr ⟨0, _, Nat.one_ne_zero, fun _ => Nat.le_refl 1, rfl⟩
  | secondAndFirstPlayerRemovePiece =>
    exact Or.inr ⟨1, _, Nat.one_ne_zero, fun _ => Nat.le_refl 1, rfl⟩
  | sideToMoveRemovePiece =>
    refine Or.inr ⟨_, _, ?_, fun x => ?_, rfl⟩
    · rw [setAt_self]
      exact Nat.one_ne_zero
    · by_cases hx : x = if options.isDefenderMoveFirst = true then 1 else 0
      · rw [hx, setAt_self]
      · rw [setAt_of_ne hx]
        exact Nat.zero_le 1

/-! ## The end of a turn -/

/--
The state in which `endPlacingTurn` takes over, with `e` next to move. While the
last placement is being evaluated by mill counts, what is owed is about to be
overwritten, so nothing is asked of it.
-/
structure TurnEnd (options : MillVariantOptions) (s : MillState) (e : Side) : Prop where
  active : s.sideToMove = e.toI8
  running : s.phase = .placing ∨ s.phase = .moving
  undecided : s.winner = -1 ∧ s.outcomeReason = .ongoing
  noCaptures : ∀ x, CapturesEmpty s.toMillCaptures x
  notStalemate : s.flags.stalemateRemoving = false
  placing : s.phase = .placing → s.flags.bothStalemateRemoving = false
  owed : ¬(countsMills options ∧ s.phase = .placing ∧ ∀ x, s.piecesInHand x = 0) →
    s.pendingRemovals e.opponent = 0
      ∧ (s.phase = .placing → s.pendingRemovals e = 0)
      ∧ (s.pendingRemovals e = 0 →
          s.flags.millAvailableAtRemoval = false ∧ s.flags.bothStalemateRemoving = false)
      ∧ ∀ x, s.flags.removeOwnPiece x = true → s.pendingRemovals x ≠ 0

/-- The same after the transition: only the phase and the full-board rule are left to settle. -/
structure TurnStart (s : MillState) (e : Side) : Prop where
  active : s.sideToMove = e.toI8
  running : s.phase = .placing ∨ s.phase = .moving
  undecided : s.winner = -1 ∧ s.outcomeReason = .ongoing
  noCaptures : ∀ x, CapturesEmpty s.toMillCaptures x
  notStalemate : s.flags.stalemateRemoving = false
  opponentOwes : s.pendingRemovals e.opponent ≠ 0 →
    s.pendingRemovals e ≠ 0 ∧ s.piecesInHand e = 0
  quiet : s.pendingRemovals e = 0 →
    s.flags.millAvailableAtRemoval = false ∧ s.flags.bothStalemateRemoving = false
  ownPieceOwed : ∀ x, s.flags.removeOwnPiece x = true → s.pendingRemovals x ≠ 0

theorem TurnEnd.transition (h : TurnEnd options s e)
    (hpos : PositionInv options s.toMillPosition) :
    ∃ e', TurnStart (maybeTransitionToMoving s options) e' := by
  rcases maybeTransitionToMoving_cases hpos h.active with ⟨heq, hstay⟩ | ⟨hplacing, heq⟩
  · rw [heq]
    obtain ⟨hopp, _, hquiet, hown⟩ := h.owed fun hc => hstay hc.2
    exact ⟨e, h.active, h.running, h.undecided, h.noCaptures, h.notStalemate,
      fun hne => absurd hopp hne, hquiet, hown⟩
  · obtain ⟨owed, flags, e', heq', hcount, hkeep, hs, hb⟩ := enterMovingPhase_eq
      (s := { s with piecesInHand := fun _ => 0 }) (hpos.withHands fun _ => Nat.zero_le _) h.active
    rw [heq, heq']
    refine ⟨e', rfl, Or.inr rfl, h.undecided, h.noCaptures, hs.trans h.notStalemate, ?_, ?_, ?_⟩
    -- without counted mills the owed removals are those from before the sweep
    · intro hne
      by_cases hc : countsMills options
      · exact ⟨(hcount hc _).1, rfl⟩
      · obtain ⟨hopp, hself, -⟩ := h.owed fun hc' => hc hc'.1
        have hall : ∀ x, s.pendingRemovals x = 0 := by
          rw [Side.forall_iff e]
          exact ⟨hself hplacing, hopp⟩
        have : owed e'.opponent = 0 := by rw [(hkeep hc).1]; exact hall _
        exact absurd this hne
    · intro hz
      by_cases hc : countsMills options
      · exact absurd hz (hcount hc _).1
      · obtain ⟨-, hself, hquiet, -⟩ := h.owed fun hc' => hc hc'.1
        have := hquiet (hself hplacing)
        exact ⟨by rw [(hkeep hc).2]; exact this.1, by rw [(hkeep hc).2]; exact this.2⟩
    · intro x hx
      by_cases hc : countsMills options
      · exact (hcount hc x).1
      · obtain ⟨-, -, -, hown⟩ := h.owed fun hc' => hc hc'.1
        have := hown x (by rw [(hkeep hc).2] at hx; exact hx)
        rw [(hkeep hc).1]
        exact this

/-- Syncing the phase starts the turn. -/
theorem TurnStart.turn (h : TurnStart s e) :
    TurnInv (syncPhaseWithActiveHand s).syncActionState e := by
  have hphase : (syncPhaseWithActiveHand s).phase
      = if s.piecesInHand e = 0 then .moving else .placing := by
    have : ¬(s.phase ≠ .placing ∧ s.phase ≠ .moving) := by
      rintro ⟨h1, h2⟩
      exact h.running.elim h1 h2
    simp only [syncPhaseWithActiveHand, if_neg this, h.active, Side.toI8_inRange, if_true,
      Side.sideIndex_toI8]
  refine
    { active := h.active
      running := ?_
      synced := rfl
      undecided := h.undecided
      phase_eq := fun _ => hphase
      quiet := fun hz => ⟨h.noCaptures e, (h.quiet hz).1, h.notStalemate, (h.quiet hz).2⟩
      opponentOwes := fun hne => ⟨(h.opponentOwes hne).1, ?_, h.notStalemate⟩
      opponentCaptures := h.noCaptures _
      record := CapturesEmpty.record (s := (syncPhaseWithActiveHand s).syncActionState)
        (h.noCaptures e)
      ownPieceOwed := h.ownPieceOwed
      ownPieceAlone := fun _ => h.noCaptures e }
  · change (syncPhaseWithActiveHand s).phase = _ ∨ (syncPhaseWithActiveHand s).phase = _
    rw [hphase]
    split
    · exact Or.inr rfl
    · exact Or.inl rfl
  · change (syncPhaseWithActiveHand s).phase = _
    rw [hphase, if_pos (h.opponentOwes hne).2]

/-- Obligations armed on a full board start a turn of `first`. -/
theorem TurnStart.armBoardFull (h : TurnStart s e) (hmoving : s.phase = .moving)
    (hnone : ∀ x, s.pendingRemovals x = 0) {first : Side} {owed : Side → Nat}
    (howed : owed first ≠ 0) : TurnInv
      (armBoardFullRemovals s first owed).syncActionState first := by
  have hown : ∀ x, s.flags.removeOwnPiece x = false := fun x => by
    rw [Bool.eq_false_iff]
    exact fun hx => h.ownPieceOwed x hx (hnone x)
  exact
    { active := rfl
      running := Or.inr hmoving
      synced := rfl
      undecided := h.undecided
      phase_eq := fun hz => absurd hz howed
      quiet := fun hz => absurd hz howed
      opponentOwes := fun _ => ⟨howed, hmoving, h.notStalemate⟩
      opponentCaptures := h.noCaptures _
      record := CapturesEmpty.record (s := (armBoardFullRemovals s first owed).syncActionState)
        (h.noCaptures first)
      ownPieceOwed := fun x hx => by
        have hx' : s.flags.removeOwnPiece x = true := hx
        rw [hown x] at hx'
        exact absurd hx' Bool.false_ne_true
      ownPieceAlone := fun _ => h.noCaptures first }

/-! ## What the control operations leave alone -/

/--
`t` differs from `s` in control fields only, except that it may have swept the
marks off the board and taken pieces out of the hands.
-/
structure Keeps (options : MillVariantOptions) (s t : MillState) : Prop where
  board : (t.board = s.board ∧ t.delayedMarkedPieces = s.delayedMarkedPieces)
    ∨ (t.board = sweptBoard s.toMillPosition ∧ t.delayedMarkedPieces = 0)
  hands : ∀ x, t.piecesInHand x ≤ s.piecesInHand x
  byColorBb : t.byColorBb = s.byColorBb
  piecesOnBoard : t.piecesOnBoard = s.piecesOnBoard
  mobilityDiff : t.mobilityDiff = s.mobilityDiff
  moveNumber : t.moveNumber = s.moveNumber
  plySinceCapture : t.plySinceCapture = s.plySinceCapture
  /-- Only one-time mills are recorded by their squares. -/
  formedMillsBb : options.oneTimeUseMill = false → t.formedMillsBb = s.formedMillsBb
  preferredRemoveTarget : t.preferredRemoveTarget = s.preferredRemoveTarget
  keyHistory : t.keyHistory = s.keyHistory

namespace Keeps

variable {t u : MillState}

theorem refl (s : MillState) : Keeps options s s :=
  ⟨Or.inl ⟨rfl, rfl⟩, fun _ => Nat.le_refl _, rfl, rfl, rfl, rfl, rfl, fun _ => rfl, rfl, rfl⟩

/-- The board is read through the marks, so a second sweep does nothing. -/
theorem trans (h1 : Keeps options s t) (h2 : Keeps options t u) : Keeps options s u where
  board := by
    rcases h1.board with ⟨hb, hm⟩ | ⟨hb, hm⟩ <;> rcases h2.board with ⟨hb', hm'⟩ | ⟨hb', hm'⟩
    · exact Or.inl ⟨hb'.trans hb, hm'.trans hm⟩
    · refine Or.inr ⟨?_, hm'⟩
      rw [hb']
      unfold sweptBoard
      rw [hb, hm]
    · exact Or.inr ⟨hb'.trans hb, hm'.trans hm⟩
    · refine Or.inr ⟨?_, hm'⟩
      rw [hb']
      funext n
      simp [sweptBoard, hm, hb]
  hands x := (h2.hands x).trans (h1.hands x)
  byColorBb := h2.byColorBb.trans h1.byColorBb
  piecesOnBoard := h2.piecesOnBoard.trans h1.piecesOnBoard
  mobilityDiff := h2.mobilityDiff.trans h1.mobilityDiff
  moveNumber := h2.moveNumber.trans h1.moveNumber
  plySinceCapture := h2.plySinceCapture.trans h1.plySinceCapture
  formedMillsBb ho := (h2.formedMillsBb ho).trans (h1.formedMillsBb ho)
  preferredRemoveTarget := h2.preferredRemoveTarget.trans h1.preferredRemoveTarget
  keyHistory := h2.keyHistory.trans h1.keyHistory

theorem position (h : Keeps options s t) (hpos : PositionInv options s.toMillPosition) :
    PositionInv options t.toMillPosition := by
  have hmasks : t.toMillPosition = ⟨t.board, s.byColorBb, t.delayedMarkedPieces, t.piecesInHand,
      s.piecesOnBoard, s.mobilityDiff⟩ := by
    rw [← h.byColorBb, ← h.piecesOnBoard, ← h.mobilityDiff]
  rw [hmasks]
  rcases h.board with ⟨hb, hm⟩ | ⟨hb, hm⟩
  · rw [hb, hm]
    exact hpos.withHands h.hands
  · rw [hb, hm]
    exact (sweep_position hpos).withHands h.hands

/-- No mark appears. -/
theorem marks (h : Keeps options s t) (hz : s.delayedMarkedPieces = 0) :
    t.delayedMarkedPieces = 0 := by
  rcases h.board with ⟨_, hm⟩ | ⟨_, hm⟩
  · rw [hm, hz]
  · exact hm

end Keeps

/-- A control field that holds a node or the "no node" value. -/
def NodeOrNone (value : Int) : Prop := value = -1 ∨ ∃ n : Node, value = n.toI8

/-- The control fields are in range, and captures are recorded under capture rules only. -/
structure Sane (options : MillVariantOptions) (s : MillState) : Prop where
  captureRules : options.custodianCapture.enabled = false →
    options.interventionCapture.enabled = false → options.leapCapture.enabled = false →
    ∀ x, CapturesEmpty s.toMillCaptures x
  pendingRemovals : ∀ x, s.pendingRemovals x ≤ 255
  captureCounts : ∀ x, s.custodianCount x ≤ 255 ∧ s.interventionCount x ≤ 255 ∧ s.leapCount x ≤ 255
  lastMill : ∀ x, NodeOrNone (s.lastMillFrom x) ∧ NodeOrNone (s.lastMillTo x)
  winner : s.winner = -1 ∨ s.winner = 2 ∨ ∃ c : Side, s.winner = c.toI8
  preferredRemoveTarget : s.preferredRemoveTarget = -1

/-! ## `endPlacingTurn` -/

theorem maybeTransitionToMoving_keeps (hpos : PositionInv options s.toMillPosition)
    (hactive : s.sideToMove = e.toI8) : Keeps options s (maybeTransitionToMoving s options) := by
  rcases maybeTransitionToMoving_cases hpos hactive with ⟨heq, -⟩ | ⟨-, heq⟩
  · rw [heq]
    exact Keeps.refl s
  · obtain ⟨owed, flags, e', heq', -⟩ := enterMovingPhase_eq
      (s := { s with piecesInHand := fun _ => 0 }) (hpos.withHands fun _ => Nat.zero_le _) hactive
    rw [heq, heq']
    exact ⟨Or.inr ⟨rfl, rfl⟩, fun _ => Nat.zero_le _, rfl, rfl, rfl, rfl, rfl,
      fun _ => rfl, rfl, rfl⟩

theorem Sane.transition (h : Sane options s) (hpos : PositionInv options s.toMillPosition)
    (hactive : s.sideToMove = e.toI8) : Sane options (maybeTransitionToMoving s options) := by
  rcases maybeTransitionToMoving_cases hpos hactive with ⟨heq, -⟩ | ⟨-, heq⟩
  · rw [heq]
    exact h
  · obtain ⟨owed, flags, e', heq', hcount, hkeep, -⟩ := enterMovingPhase_eq
      (s := { s with piecesInHand := fun _ => 0 }) (hpos.withHands fun _ => Nat.zero_le _) hactive
    rw [heq, heq']
    refine { h with pendingRemovals := fun x => ?_ }
    by_cases hc : countsMills options
    · exact (hcount hc x).2
    · change owed x ≤ 255
      rw [(hkeep hc).1]
      exact h.pendingRemovals x

variable (r : MillRules)

theorem endPlacingTurn_eq (s : MillState) :
    r.endPlacingTurn s
      = (maybeFinishFullBoard (syncPhaseWithActiveHand (maybeTransitionToMoving s r.options))
          r.options).syncActionState :=
  rfl

theorem endPlacingTurn_keeps (hpos : PositionInv r.options s.toMillPosition)
    (hactive : s.sideToMove = e.toI8) : Keeps r.options s (r.endPlacingTurn s) := by
  refine (maybeTransitionToMoving_keeps hpos hactive).trans ?_
  rw [endPlacingTurn_eq]
  rcases maybeFinishFullBoard_cases (syncPhaseWithActiveHand (maybeTransitionToMoving s r.options))
    r.options with heq | ⟨-, -, ⟨w, reason, hw, heq⟩ | ⟨first, owed, -, -, heq⟩⟩
  all_goals
    rw [heq]
    exact ⟨Or.inl ⟨rfl, rfl⟩, fun _ => Nat.le_refl _, rfl, rfl, rfl, rfl, rfl, fun _ => rfl, rfl,
      rfl⟩

theorem Sane.endPlacingTurn (h : Sane r.options s) (hpos : PositionInv r.options s.toMillPosition)
    (hactive : s.sideToMove = e.toI8) : Sane r.options (r.endPlacingTurn s) := by
  have ht := h.transition hpos hactive
  rw [endPlacingTurn_eq]
  rcases maybeFinishFullBoard_cases (syncPhaseWithActiveHand (maybeTransitionToMoving s r.options))
    r.options with heq | ⟨-, -, ⟨w, reason, hw, heq⟩ | ⟨first, owed, -, hle, heq⟩⟩
  · rw [heq]
    exact { ht with }
  · rw [heq]
    refine { ht with winner := ?_ }
    exact hw.elim (fun h1 => Or.inr (Or.inr ⟨1, h1⟩)) fun h2 => Or.inr (Or.inl h2)
  · rw [heq]
    exact { ht with pendingRemovals := fun x => (hle x).trans (by omega) }

/-- **Ending a turn starts the next one**, or ends the game. -/
theorem TurnEnd.someTurn (h : TurnEnd r.options s e)
    (hpos : PositionInv r.options s.toMillPosition) : SomeTurn (r.endPlacingTurn s) := by
  obtain ⟨e', hstart⟩ := h.transition hpos
  intro hrun
  rw [endPlacingTurn_eq] at hrun ⊢
  rcases maybeFinishFullBoard_cases (syncPhaseWithActiveHand (maybeTransitionToMoving s r.options))
    r.options with heq | ⟨hmoving, hnone, ⟨w, reason, hw, heq⟩ | ⟨first, owed, howed, -, heq⟩⟩
  · rw [heq]
    exact ⟨e', hstart.turn⟩
  · rw [heq] at hrun
    exact absurd rfl hrun
  · rw [heq]
    have hsynced : TurnStart (syncPhaseWithActiveHand (maybeTransitionToMoving s r.options)) e' :=
      { hstart with running := Or.inr hmoving }
    exact ⟨first, hsynced.armBoardFull hmoving hnone howed⟩

end Sanmill
