import Sanmill.PerfectDb.Query
import Sanmill.Proof.Reach

/-!
# Play under the option sets of the database

What holds of every state of a game that is still going on: no side removes its own pieces, no
removal comes from a stalemate, both sides have three pieces left, and, where pieces are not
moved before the hand is empty, the hands shrink in lockstep.
-/

namespace Sanmill.PerfectDb

open Bits

variable {options : MillVariantOptions} {r : MillRules} {s p q t : MillState} {c e : Side}
  {n : Node} {a : Action}

/-! ## The option sets -/

/-- What the option sets of the database have in common, and the three shapes. -/
structure DbRules (options : MillVariantOptions) : Prop where
  flyPieceCount : options.flyPieceCount = 3
  piecesAtLeastCount : options.piecesAtLeastCount = 3
  formation : options.millFormationActionInPlacingPhase = .removeOpponentsPieceFromBoard
  boardFullAction : options.boardFullAction = .firstPlayerLose
  noRestriction : options.restrictRepeatedMillsFormation = false
  stalemateAction : options.stalemateAction = .endWithStalemateLoss
  mayFly : options.mayFly = true
  oneRemoval : options.mayRemoveMultiple = false
  noCustodian : options.custodianCapture.enabled = false
  noIntervention : options.interventionCapture.enabled = false
  noLeap : options.leapCapture.enabled = false
  shape : (options.pieceCount = 9 ∧ options.mayMoveInPlacingPhase = false)
    ∨ (options.pieceCount = 10 ∧ options.hasDiagonalLines = false
      ∧ options.mayMoveInPlacingPhase = true)
    ∨ (options.pieceCount = 12 ∧ options.mayMoveInPlacingPhase = false)

theorem dbRules_of_variant (h : (DatabaseVariant.fromMillOptions options).isNone = false) :
    DbRules options := by
  unfold DatabaseVariant.fromMillOptions DatabaseVariant.matchMillOptions at h
  by_cases hcommon : matchesPerfectDatabaseCommonRules options = true
  · have hall := hcommon
    unfold matchesPerfectDatabaseCommonRules at hall
    simp only [Bool.and_eq_true, decide_eq_true_eq, Bool.not_eq_true'] at hall
    obtain ⟨⟨⟨⟨⟨⟨⟨⟨⟨⟨⟨⟨h1, h2⟩, h3⟩, h4⟩, h5⟩, h6⟩, h7⟩, h8⟩, h9⟩, h10⟩, h11⟩, h12⟩, h13⟩ := hall
    refine ⟨h1, h2, h3, h4, h5, h6, h7, h9, h10, h11, h12, ?_⟩
    rw [hcommon] at h
    simp only [Bool.not_true, Bool.false_eq_true, if_false] at h
    generalize options.pieceCount = pieces at h ⊢
    generalize options.hasDiagonalLines = diagonals at h ⊢
    generalize options.mayMoveInPlacingPhase = moves at h ⊢
    split at h
    · exact Or.inl ⟨rfl, rfl⟩
    · exact Or.inr (Or.inl ⟨rfl, rfl, rfl⟩)
    · exact Or.inr (Or.inr ⟨rfl, rfl⟩)
    · exact absurd h (by simp [Except.toOption])
  · rw [Bool.not_eq_true] at hcommon
    rw [hcommon] at h
    exact absurd h (by simp [Except.toOption])

theorem DbRules.notCounting (db : DbRules options) : ¬countsMills options := by
  unfold countsMills
  rw [db.formation]
  decide

/-! ## The invariant -/

/-- While placing, Black holds as many pieces as White, or one more. -/
def Balanced (hands : Side → Nat) (c : Side) (owes : Bool) : Prop :=
  hands 1 = hands 0 + if decide (c = 0) = owes then 1 else 0

/-- The hands are empty, or shrink in lockstep. -/
def Lockstep (s : MillState) (c : Side) (owes : Bool) : Prop :=
  (s.phase = .moving ∧ ∀ x, s.piecesInHand x = 0)
    ∨ (s.phase = .placing ∧ Balanced s.piecesInHand c owes)

/-- No unusual removals, and enough pieces on both sides. -/
structure DbSound (s : MillState) : Prop where
  noOwnPiece : ∀ x, s.flags.removeOwnPiece x = false
  noStalemate : s.flags.stalemateRemoving = false
  noBoth : s.flags.bothStalemateRemoving = false
  enough : ∀ x, 3 ≤ s.piecesOnBoard x + s.piecesInHand x

/-- The game goes on and `c` is to act. -/
structure DbTurn (options : MillVariantOptions) (s : MillState) (c : Side) : Prop
    extends DbSound s where
  opponentFree : s.pendingRemovals c.opponent = 0
  lockstep : options.mayMoveInPlacingPhase = false →
    Lockstep s c (decide (s.pendingRemovals c ≠ 0))

/-- If the game goes on, the active side's turn is as it should be. -/
def DbState (options : MillVariantOptions) (s : MillState) : Prop :=
  s.phase ≠ .gameOver → ∀ c : Side, s.sideToMove = c.toI8 → DbTurn options s c

theorem DbState.of_over (hover : s.phase = .gameOver) : DbState options s :=
  fun hrun => absurd hover hrun

theorem DbTurn.state (hactive : s.sideToMove = c.toI8) (h : DbTurn options s c) :
    DbState options s := by
  intro _ d hd
  have hdc : d = c := by simpa using congrArg sideIndex (hd.symm.trans hactive)
  rw [hdc]
  exact h

/-- The fields the invariant reads. -/
theorem DbState.congr (h : DbState options s) (hphase : t.phase = s.phase)
    (hside : t.sideToMove = s.sideToMove)
    (hown : t.flags.removeOwnPiece = s.flags.removeOwnPiece)
    (hstalemate : t.flags.stalemateRemoving = s.flags.stalemateRemoving)
    (hboth : t.flags.bothStalemateRemoving = s.flags.bothStalemateRemoving)
    (hboard : t.piecesOnBoard = s.piecesOnBoard) (hhands : t.piecesInHand = s.piecesInHand)
    (howed : t.pendingRemovals = s.pendingRemovals) : DbState options t := by
  intro hrun c hc
  have hturn := h (by rwa [← hphase]) c (by rwa [← hside])
  exact
    { noOwnPiece := fun x => by rw [hown, hturn.noOwnPiece]
      noStalemate := by rw [hstalemate, hturn.noStalemate]
      noBoth := by rw [hboth, hturn.noBoth]
      enough := fun x => by
        rw [hboard, hhands]
        exact hturn.enough x
      opponentFree := by rw [howed, hturn.opponentFree]
      lockstep := fun hmay => by
        unfold Lockstep
        rw [hphase, hhands, howed]
        exact hturn.lockstep hmay }

/-! ## The hands -/

theorem balanced_pass (hands : Side → Nat) (c : Side) :
    Balanced hands c true ↔ Balanced hands c.opponent false := by
  have hcases : ∀ d : Side, (decide (d = 0) = true) ↔ (decide (d.opponent = 0) = false) := by decide
  unfold Balanced
  simp only [hcases c]

/-- One piece leaves the hand of the side whose turn it is. -/
theorem Balanced.place {hands : Side → Nat} (h : Balanced hands c false) (hhand : 0 < hands c) :
    Balanced (setAt hands c (hands c - 1)) c true := by
  unfold Balanced at h ⊢
  rcases Side.eq_or_eq_opponent 0 c with rfl | rfl
  · have hother : (1 : Side) ≠ 0 := by decide
    rw [setAt_self, setAt_of_ne hother]
    simp at h ⊢
    omega
  · have hone : Side.opponent 0 = 1 := by decide
    have hother : (0 : Side) ≠ 1 := by decide
    rw [hone] at h hhand ⊢
    rw [setAt_self, setAt_of_ne hother]
    simp at h ⊢
    omega

/-- The side to place has a piece, unless both hands are empty. -/
theorem Balanced.empty {hands : Side → Nat} (h : Balanced hands c false) (hempty : hands c = 0) :
    ∀ x, hands x = 0 := by
  unfold Balanced at h
  rcases Side.eq_or_eq_opponent 0 c with rfl | rfl
  · rw [Fin.forall_fin_two]
    simp [hempty] at h
    exact ⟨hempty, h⟩
  · have hone : Side.opponent 0 = 1 := by decide
    rw [hone] at h hempty
    simp [hempty] at h

/-- Without marks, only the counted pieces occupy a square. -/
theorem countOnes_occupied_le (hpos : PositionInv options s.toMillPosition)
    (hmarks : s.delayedMarkedPieces = 0) :
    Bits.countOnes s.boardOccupiedBitboard ≤ s.piecesOnBoard 0 + s.piecesOnBoard 1 := by
  have hocc : s.boardOccupiedBitboard = s.byColorBb 0 ||| s.byColorBb 1 := by
    unfold MillPosition.boardOccupiedBitboard MillPosition.liveOccupiedBitboard
    rw [hmarks]
    simp
  rw [hocc, hpos.counts, hpos.counts, Bits.countOnes_eq_card, Bits.countOnes_eq_card,
    Bits.countOnes_eq_card,
    ones_or]
  exact Finset.card_union_le _ _

/-- At most two empty squares: both sides have most of their pieces on the board. -/
theorem enough_of_full (hvalid : options.AssertValid) (hpos : PositionInv options s.toMillPosition)
    (hmarks : s.delayedMarkedPieces = 0) (hfull : s.emptySquareCount ≤ 2) (x : Side) :
    3 ≤ s.piecesOnBoard x := by
  have hle := countOnes_occupied_le hpos hmarks
  unfold MillPosition.emptySquareCount at hfull
  have h0 := hpos.material 0
  have h1 := hpos.material 1
  have h12 := hvalid.pieceCount.2
  rcases Side.eq_or_eq_opponent 0 x with rfl | rfl
  · omega
  · change 3 ≤ s.piecesOnBoard 1
    omega

/-! ## The end of a turn -/

/-- Where the transition takes pieces out of the hands, the board is all but full. -/
theorem maybeTransitionToMoving_hands (s : MillState) (options : MillVariantOptions)
    (hne : maybeTransitionToMoving s options ≠ s) :
    (∀ x, s.piecesInHand x = 0) ∨ s.emptySquareCount ≤ 2 := by
  unfold maybeTransitionToMoving at hne
  by_cases hhands : s.phase = .placing ∧ s.piecesInHand 0 = 0 ∧ s.piecesInHand 1 = 0
  · exact Or.inl (Fin.forall_fin_two.2 hhands.2)
  · right
    simp only [if_neg hhands] at hne
    by_contra hmany
    exact hne (if_neg fun h => hmany h.2.2.2)

/-- The state in which a turn ends, `e` being next. -/
structure DbEnd (options : MillVariantOptions) (q : MillState) (e : Side) : Prop
    extends DbSound q where
  active : q.sideToMove = e.toI8
  running : q.phase = .placing ∨ q.phase = .moving
  nothingOwed : ∀ x, q.pendingRemovals x = 0
  position : PositionInv options q.toMillPosition
  unmarked : q.delayedMarkedPieces = 0
  lockstep : options.mayMoveInPlacingPhase = false →
    (∀ x, q.piecesInHand x = 0) ∨ (q.phase = .placing ∧ Balanced q.piecesInHand e false)

/-- The phase of a running game is that of the active side's hand. -/
theorem syncPhase_running (hactive : s.sideToMove = e.toI8)
    (hrunning : s.phase = .placing ∨ s.phase = .moving) :
    (syncPhaseWithActiveHand s).phase
      = if s.piecesInHand e = 0 then .moving else .placing := by
  have hrun : ¬(s.phase ≠ .placing ∧ s.phase ≠ .moving) := fun h => hrunning.elim h.1 h.2
  simp only [syncPhaseWithActiveHand, if_neg hrun, hactive, Side.toI8_inRange, if_true,
    Side.sideIndex_toI8]

/-- The full-board rule ends the game or does nothing. -/
theorem maybeFinishFullBoard_db (db : DbRules options) (s : MillState) :
    maybeFinishFullBoard s options = s ∨ (maybeFinishFullBoard s options).phase = .gameOver := by
  unfold maybeFinishFullBoard
  rw [db.boardFullAction]
  by_cases h1 : options.pieceCount ≠ 12
  · exact Or.inl (if_pos h1)
  rw [if_neg h1]
  by_cases h2 : s.phase ≠ .moving ∨ s.emptySquareCount ≠ 0
  · exact Or.inl (if_pos h2)
  rw [if_neg h2]
  by_cases h3 : 0 < s.pendingRemovals 0 ∨ 0 < s.pendingRemovals 1
  · exact Or.inl (if_pos h3)
  rw [if_neg h3]
  exact Or.inr rfl

/-- **The end of a turn** keeps the invariant. -/
theorem DbEnd.state (db : DbRules r.options) (h : DbEnd r.options q e) :
    DbState r.options (r.endPlacingTurn q) := by
  -- the state after the transition, and the side it leaves to move
  obtain ⟨u, d, hu, hactive, hrunning, hturn⟩ : ∃ (u : MillState) (d : Side),
      maybeTransitionToMoving q r.options = u ∧ u.sideToMove = d.toI8
        ∧ (u.phase = .placing ∨ u.phase = .moving)
        ∧ DbTurn r.options (syncPhaseWithActiveHand u) d := by
    rcases maybeTransitionToMoving_cases h.position h.active with ⟨heq, hstay⟩ | ⟨hplacing, heq⟩
    · refine ⟨q, e, heq, h.active, h.running,
        { h.toDbSound with opponentFree := h.nothingOwed _, lockstep := fun hmay => ?_ }⟩
      have hphase := syncPhase_running h.active h.running
      have howes : decide ((syncPhaseWithActiveHand q).pendingRemovals e ≠ 0) = false := by
        rw [decide_eq_false_iff_not, not_not]
        exact h.nothingOwed e
      rw [howes]
      unfold Lockstep
      rw [hphase]
      change (_ ∧ ∀ x, q.piecesInHand x = 0) ∨ (_ ∧ Balanced q.piecesInHand e false)
      rcases h.lockstep hmay with hzero | ⟨hplacing, hbalanced⟩
      · exact Or.inl ⟨if_pos (hzero e), hzero⟩
      · by_cases hempty : q.piecesInHand e = 0
        · exact absurd ⟨hplacing, hbalanced.empty hempty⟩ hstay
        · exact Or.inr ⟨if_neg hempty, hbalanced⟩
    · obtain ⟨owed, flags, d, heq', -, hkeep, -⟩ := enterMovingPhase_eq
        (s := { q with piecesInHand := fun _ => 0 }) (h.position.withHands fun _ => Nat.zero_le _)
        h.active
      obtain ⟨rfl, rfl⟩ := hkeep db.notCounting
      rw [heq'] at heq
      have henough : ∀ x, 3 ≤ q.piecesOnBoard x := by
        have hne : maybeTransitionToMoving q r.options ≠ q := by
          intro hsame
          have hphase : MillPhase.moving = q.phase :=
            congrArg MillState.phase (heq.symm.trans hsame)
          rw [hplacing] at hphase
          exact absurd hphase (by decide)
        rcases maybeTransitionToMoving_hands q r.options hne with hzero | hfull
        · intro x
          have := h.enough x
          rw [hzero x] at this
          exact this
        · exact enough_of_full r.valid h.position h.unmarked hfull
      refine ⟨_, d, heq, rfl, Or.inr rfl, ?_⟩
      exact
        { noOwnPiece := h.noOwnPiece
          noStalemate := h.noStalemate
          noBoth := h.noBoth
          enough := fun x => henough x
          opponentFree := h.nothingOwed _
          lockstep := fun _ => by
            refine Or.inl ⟨?_, fun _ => rfl⟩
            rw [syncPhase_running rfl (Or.inr rfl), if_pos rfl] }
  rw [endPlacingTurn_eq, hu]
  rcases maybeFinishFullBoard_db db (syncPhaseWithActiveHand u) with heq | hover
  · rw [heq]
    have hsynced : (syncPhaseWithActiveHand u).sideToMove = d.toI8 := hactive
    exact (hturn.state hsynced).congr rfl rfl rfl rfl rfl rfl rfl rfl
  · exact DbState.of_over hover

/-! ## The three branches -/

/-- The acting side owes removals: nothing else the invariant reads has changed. -/
theorem DbTurn.owing {k : Nat} (hsound : DbSound p) (hact : Acting p c) (hk : k ≠ 0)
    (hlock : options.mayMoveInPlacingPhase = false → Lockstep p c true)
    (hphase : t.phase = p.phase) (hside : t.sideToMove = p.sideToMove)
    (hown : t.flags.removeOwnPiece = p.flags.removeOwnPiece)
    (hstalemate : t.flags.stalemateRemoving = p.flags.stalemateRemoving)
    (hboth : t.flags.bothStalemateRemoving = p.flags.bothStalemateRemoving)
    (hboard : t.piecesOnBoard = p.piecesOnBoard) (hhands : t.piecesInHand = p.piecesInHand)
    (howed : t.pendingRemovals = setAt p.pendingRemovals c k) : DbState options t := by
  refine DbTurn.state (hside.trans hact.active) ?_
  exact
    { noOwnPiece := fun x => by rw [hown, hsound.noOwnPiece]
      noStalemate := by rw [hstalemate, hsound.noStalemate]
      noBoth := by rw [hboth, hsound.noBoth]
      enough := fun x => by
        rw [hboard, hhands]
        exact hsound.enough x
      opponentFree := by
        rw [howed, setAt_of_ne (Side.opponent_ne c)]
        exact hact.nothingOwed _
      lockstep := fun hmay => by
        have howes : decide (t.pendingRemovals c ≠ 0) = true := by
          rw [decide_eq_true_eq, howed, setAt_self]
          exact hk
        rw [howes]
        unfold Lockstep
        rw [hphase, hhands]
        exact hlock hmay }

/-- The state of a side that owes nothing, before it acts. -/
theorem DbTurn.free (h : DbTurn options s c) (hnone : s.pendingRemovals c = 0)
    (hmay : options.mayMoveInPlacingPhase = false) : Lockstep s c false := by
  have := h.lockstep hmay
  rwa [decide_eq_false fun hne => hne hnone] at this

/-- The writes of a placement. -/
theorem placed_sound (h : DbSound s) (hhand : 0 < s.piecesInHand c) :
    DbSound (r.placePiece s n c) where
  noOwnPiece := h.noOwnPiece
  noStalemate := h.noStalemate
  noBoth := h.noBoth
  enough x := by
    have := h.enough x
    change 3 ≤ setAt s.piecesOnBoard c (s.piecesOnBoard c + 1) x
      + setAt s.piecesInHand c (s.piecesInHand c - 1) x
    by_cases hx : x = c
    · subst hx
      rw [setAt_self, setAt_self]
      omega
    · rw [setAt_of_ne hx, setAt_of_ne hx]
      exact this

theorem placed_lockstep (h : DbTurn options s c) (hnone : s.pendingRemovals c = 0)
    (hplacing : s.phase = .placing) (hhand : 0 < s.piecesInHand c)
    (hmay : options.mayMoveInPlacingPhase = false) :
    Balanced (r.placePiece s n c).piecesInHand c true := by
  rcases h.free hnone hmay with ⟨hmoving, -⟩ | ⟨-, hbalanced⟩
  · rw [hplacing] at hmoving
    exact absurd hmoving (by decide)
  · exact hbalanced.place hhand

/-- **A placement.** -/
theorem applyPlace_dbState (db : DbRules r.options) (hinv : StateInv r.options s)
    (hturn : TurnInv s c) (h : DbTurn r.options s c) (hnone : s.pendingRemovals c = 0)
    (hplacing : s.phase = .placing) (hhand : 0 < s.piecesInHand c) (hempty : s.board n = 0) :
    DbState r.options (r.applyPlace s n) := by
  have hact : Acting (r.placePiece s n c) c := { hturn.acting hnone with }
  have hsound : DbSound (r.placePiece s n c) := placed_sound h.toDbSound hhand
  have hlock := @placed_lockstep _ r _ _ n h hnone hplacing hhand
  have hunmarked : s.delayedMarkedPieces = 0 := by
    by_contra hne
    exact absurd ((hinv.marksDelayed hne).symm.trans db.formation) (by decide)
  unfold MillRules.applyPlace
  simp only [hturn.active, Side.sideIndex_toI8, db.noCustodian, db.noIntervention, Bool.false_and,
    Bool.false_eq_true, if_false]
  generalize usableMillBits (r.placePiece s n c) r.options
    (formedMillBitsAt (r.placePiece s n c) r.options n (r.placePiece s n c).sideToMove) = bits
  by_cases hmill : bits ≠ 0
  · rw [if_pos hmill]
    have hcount := (removalCountForBits_bounds bits r.options).1
    unfold MillRules.placeMill MillRules.placeBoardRemoval
    simp only [db.formation, db.oneRemoval, Bool.false_eq_true, if_false]
    have harmed : (MillRules.armRemovals (r.placePiece s n c) c (removalCountForBits bits r.options)
        true).sideToMove = c.toI8 := hact.active
    rw [activateCaptureState_eq harmed]
    exact DbTurn.owing hsound hact (by omega)
      (fun hmay => Or.inr ⟨hplacing, hlock hmay⟩) rfl rfl rfl rfl rfl rfl rfl rfl
  · rw [if_neg hmill]
    simp only [ne_eq, not_true_eq_false, or_self, if_false]
    unfold MillRules.placeQuiet
    simp only [db.formation, reduceCtorEq, decide_false, false_and, Bool.false_eq_true, if_false]
    have hposition : PositionInv r.options (r.placePiece s n c).toMillPosition :=
      placePiece_position r hinv.position hempty hhand
    refine DbEnd.state (e := c.opponent) db ?_
    -- early stopping empties the hands of a board that is all but full
    obtain ⟨hands, hstop, hle, hcase⟩ : ∃ hands : Side → Nat,
        maybeStopPlacingWhenTwoEmpty (r.placePiece s n c).clearCaptureState r.options
          = { (r.placePiece s n c).clearCaptureState with piecesInHand := hands }
        ∧ (∀ x, hands x ≤ (r.placePiece s n c).piecesInHand x)
        ∧ (hands = (r.placePiece s n c).piecesInHand
          ∨ ((∀ x, hands x = 0) ∧ (r.placePiece s n c).emptySquareCount ≤ 2)) := by
      refine ⟨_, rfl, ?_⟩
      split
      · rename_i hfull
        exact ⟨fun _ => Nat.zero_le _, Or.inr ⟨fun _ => rfl, hfull.2.2⟩⟩
      · exact ⟨fun _ => Nat.le_refl _, Or.inl rfl⟩
    rw [hstop]
    exact
      { noOwnPiece := hsound.noOwnPiece
        noStalemate := hsound.noStalemate
        noBoth := hsound.noBoth
        enough := fun x => by
          change 3 ≤ (r.placePiece s n c).piecesOnBoard x + hands x
          rcases hcase with rfl | ⟨hzero, hfull⟩
          · exact hsound.enough x
          · exact (enough_of_full r.valid hposition hunmarked hfull x).trans (Nat.le_add_right _ _)
        active := by
          change xorOne s.sideToMove = _
          rw [hturn.active, Side.xorOne_toI8]
        running := Or.inl hplacing
        nothingOwed := hact.nothingOwed
        position := hposition.withHands hle
        unmarked := hunmarked
        lockstep := fun hmay => by
          rcases hcase with rfl | ⟨hzero, -⟩
          · exact Or.inr ⟨hplacing, (balanced_pass _ _).1 (hlock hmay)⟩
          · exact Or.inl hzero }

/-- The writes of a move do not concern the invariant. -/
theorem moved_sound (h : DbSound s) (source target : Node) :
    DbSound (r.movePiece s source target c) :=
  { h with }

/-- A quiet move passes the turn, unless a draw rule ends the game. -/
theorem moveQuiet_dbState (hact : Acting p c) (hsound : DbSound p)
    (hhands : r.options.mayMoveInPlacingPhase = false → ∀ x, p.piecesInHand x = 0)
    (key : Option Key) (adjudicate : Bool) :
    DbState r.options (r.adjudicateQuiet (MillRules.moveQuiet p c) key adjudicate) := by
  obtain ⟨t, hadj, heq, -⟩ := adjudicateQuiet_eq r (MillRules.moveQuiet p c) key adjudicate
  rw [heq]
  cases hadj with
  | goesOn history len =>
    have hactive : (MillRules.moveQuiet p c).sideToMove = c.opponent.toI8 :=
      (moveQuiet_acting hact).active
    have hphase := syncPhase_running (s := { MillRules.moveQuiet p c with
      keyHistory := history, keyHistoryLen := len }) hactive hact.running
    refine DbTurn.state (c := c.opponent) hactive ?_
    exact
      { noOwnPiece := hsound.noOwnPiece
        noStalemate := hsound.noStalemate
        noBoth := hsound.noBoth
        enough := hsound.enough
        opponentFree := hact.nothingOwed _
        lockstep := fun hmay => by
          refine Or.inl ⟨?_, hhands hmay⟩
          exact hphase.trans (if_pos (hhands hmay _)) }
  | drawn history len reason => exact DbState.of_over rfl

/-- **A move.** -/
theorem applyMove_dbState (db : DbRules r.options) (hturn : TurnInv s c)
    (h : DbTurn r.options s c) (hnone : s.pendingRemovals c = 0) {source target : Node}
    (hphase : s.phase = .moving ∨ r.options.mayMoveInPlacingPhase = true)
    (ctx : MillRules.KeyContext) (action : Action) (adjudicate : Bool) :
    DbState r.options (r.applyMove s source target ctx action adjudicate).1 := by
  have hact : Acting (r.movePiece s source target c) c := { hturn.acting hnone with }
  have hsound : DbSound (r.movePiece s source target c) := moved_sound h.toDbSound source target
  -- a side that moves has no hands left, unless the rules let it move while placing
  have hhands : r.options.mayMoveInPlacingPhase = false →
      s.phase = .moving ∧ ∀ x, s.piecesInHand x = 0 := by
    intro hmay
    have hmoving : s.phase = .moving := hphase.resolve_right fun htrue => by
      rw [hmay] at htrue
      exact Bool.false_ne_true htrue
    rcases h.free hnone hmay with hzero | ⟨hplacing, -⟩
    · exact hzero
    · rw [hplacing] at hmoving
      exact absurd hmoving (by decide)
  -- under the rules of a database there are no captures: a move is quiet or closes a mill
  unfold MillRules.applyMove
  simp only [hturn.active, Side.sideIndex_toI8, db.noCustodian, db.noIntervention, db.noLeap,
    Bool.false_and, Bool.false_eq_true, if_false, ne_eq, not_true_eq_false, or_self]
  generalize usableMillBits (r.movePiece s source target c) r.options
    (formedMillBitsAt (r.movePiece s source target c) r.options target
      (r.movePiece s source target c).sideToMove) = bits
  by_cases hquiet : bits = 0
  · rw [if_neg (not_not.2 hquiet)]
    exact moveQuiet_dbState hact hsound (fun hmay => (hhands hmay).2) _ adjudicate
  · rw [if_pos hquiet]
    have hcount := (removalCountForBits_bounds bits r.options).1
    have harmed : (MillRules.armRemovals (r.movePiece s source target c) c
        (removalCountForBits bits r.options) true).sideToMove = c.toI8 := hact.active
    rw [activateCaptureState_eq harmed]
    exact DbTurn.owing hsound hact (by omega) (fun hmay => Or.inl (hhands hmay))
      rfl rfl rfl rfl rfl rfl rfl rfl

/-- The writes of a removal of an opponent's piece. -/
theorem removed_sound (h : DbSound s) {k : MillCaptures} {owed : Nat} {flags : MillStateFlags}
    {mark : Bool} (hown : flags.removeOwnPiece = s.flags.removeOwnPiece)
    (hstalemate : flags.stalemateRemoving = s.flags.stalemateRemoving)
    (hboth : flags.bothStalemateRemoving = s.flags.bothStalemateRemoving)
    (hleft : ¬(removed r s n c c.opponent mark k owed flags).piecesOnBoard c.opponent
      + s.piecesInHand c.opponent < 3) :
    DbSound (removed r s n c c.opponent mark k owed flags) where
  noOwnPiece x := by
    change flags.removeOwnPiece x = false
    rw [hown, h.noOwnPiece]
  noStalemate := hstalemate.trans h.noStalemate
  noBoth := hboth.trans h.noBoth
  enough := by
    have hhands : (removed r s n c c.opponent mark k owed flags).piecesInHand = s.piecesInHand := by
      cases mark <;> rfl
    have hother : (removed r s n c c.opponent mark k owed flags).piecesOnBoard c
        = s.piecesOnBoard c := by
      cases mark <;> exact setAt_of_ne (Side.ne_opponent c) _ _
    rw [Side.forall_iff c, hhands, hother]
    exact ⟨h.enough c, Nat.le_of_not_lt hleft⟩

/-- **A removal.** -/
theorem applyRemove_dbState (db : DbRules r.options) (hinv : StateInv r.options s)
    (hturn : TurnInv s c) (h : DbTurn r.options s c) (howed : s.pendingRemovals c ≠ 0)
    (hlive : testBit (s.byColorBb c.opponent) n = true) :
    DbState r.options (r.applyRemove s n) := by
  have hnotOwn := h.noOwnPiece c
  obtain ⟨k, owed, flags, mark, heq, hstruck, hle, hown, hstalemate, hboth, hmark⟩ :=
    removePiece_spec r hturn.record hinv.sane (n := n) c.opponent false
  have hlock : r.options.mayMoveInPlacingPhase = false → Lockstep s c true := by
    intro hmay
    have := h.lockstep hmay
    rwa [decide_eq_true howed] at this
  -- these rules never mark a piece instead of removing it
  have hunmarked : mark = false := by
    by_contra hne
    exact absurd ((hmark (Bool.eq_true_of_not_eq_false hne)).symm.trans db.formation) (by decide)
  subst hunmarked
  unfold MillRules.applyRemove
  simp only [hturn.active, Side.sideIndex_toI8, Side.xorOne_toI8, hnotOwn, Bool.false_eq_true,
    if_false, db.piecesAtLeastCount]
  rw [heq]
  -- the removal ends the game, or was the last one owed, or leaves more to be made
  by_cases hfew : (removed r s n c c.opponent false k owed flags).piecesOnBoard c.opponent
      + (removed r s n c c.opponent false k owed flags).piecesInHand c.opponent < 3
  · rw [if_pos hfew]
    exact DbState.of_over rfl
  rw [if_neg hfew]
  have hsound := removed_sound h.toDbSound hown hstalemate hboth hfew
  have hfree : (removed r s n c c.opponent false k owed flags).pendingRemovals c.opponent = 0 :=
    (setAt_of_ne (Side.opponent_ne c) _ _).trans h.opponentFree
  by_cases hdone : (removed r s n c c.opponent false k owed flags).pendingRemovals c = 0
  · rw [if_pos hdone]
    obtain ⟨flags', e, hfinish, -, hstalemate', hboth', hown', he⟩ := finishRemovals_eq r
      (p := removed r s n c c.opponent false k owed flags) hturn.active false
    -- no stalemate removal is under way, so the turn passes
    have hpassed : e = c.opponent := by
      rw [he, hsound.noStalemate]
      rfl
    subst hpassed
    rw [hfinish]
    refine DbEnd.state (e := c.opponent) db ?_
    exact
      { noOwnPiece := fun x => by
          change flags'.removeOwnPiece x = false
          rw [hown']
          exact hsound.noOwnPiece x
        noStalemate := hstalemate'
        noBoth := by
          change flags'.bothStalemateRemoving = false
          rw [Bool.eq_false_iff]
          intro hset
          have := (hboth' hset).1
          rw [hsound.noBoth] at this
          exact Bool.false_ne_true this
        enough := hsound.enough
        active := rfl
        running := hturn.running
        nothingOwed := (Side.forall_iff c _).2 ⟨hdone, hfree⟩
        position := takeCounted_position r hinv.position hlive false
        unmarked := by
          by_contra hne
          exact absurd ((hinv.marksDelayed hne).symm.trans db.formation) (by decide)
        lockstep := fun hmay => by
          rcases hlock hmay with ⟨-, hzero⟩ | ⟨hplacing, hbalanced⟩
          · exact Or.inl hzero
          · exact Or.inr ⟨hplacing, (balanced_pass _ _).1 hbalanced⟩ }
  · rw [if_neg hdone]
    refine DbTurn.state hturn.active ?_
    exact
      { hsound with
        opponentFree := hfree
        lockstep := fun hmay => by
          rw [decide_eq_true hdone]
          exact hlock hmay }

/-! ## A step, and a run -/

/-- **The branch of a legal action.** -/
theorem applyBranch_dbState (db : DbRules r.options) (hinv : StateInv r.options s)
    (h : DbState r.options s) (ha : LegalAction s r.options a) (ctx : MillRules.KeyContext)
    (adjudicate : Bool) : DbState r.options (r.applyBranch s ctx a adjudicate).1 := by
  obtain ⟨c, hturn, hstep⟩ := hinv.legalStep ha
  have hdb := h hturn.not_over c hturn.active
  cases hstep with
  | place n hnone hphase hhand hempty =>
    rw [applyBranch_place]
    exact applyPlace_dbState db hinv hturn hdb hnone hphase hhand hempty
  | move source target allowFly hnone hphase hlive hempty htarget =>
    rw [applyBranch_move]
    exact applyMove_dbState db hturn hdb hnone
      (hphase.imp (fun hmoving => hmoving.1) fun hplacing => hplacing.2.1) ctx _ adjudicate
  | remove n howed hlive htarget =>
    rw [applyBranch_remove]
    have htarget : removalTarget s c = c.opponent := by
      unfold removalTarget
      rw [hdb.noOwnPiece c]
      rfl
    rw [htarget] at hlive
    exact applyRemove_dbState db hinv hturn hdb howed hlive

/-- A side that is stalemated has lost. -/
theorem maybeHandleStalemate_dbState (db : DbRules options) (h : DbState options s) :
    DbState options (maybeHandleStalemate s options).1 := by
  rcases maybeHandleStalemate_cases s options with ⟨-, heq⟩ | ⟨-, heq⟩
  · rw [heq]
    exact h
  · rw [heq]
    refine DbState.of_over ?_
    unfold applyStalemateAction
    rw [db.stalemateAction]
    rfl

/-- **A step of real play.** -/
theorem applyToStateUnchecked_dbState (db : DbRules r.options) (hinv : StateInv r.options s)
    (h : DbState r.options s) (ha : LegalAction s r.options a) :
    DbState r.options (r.applyToStateUnchecked s a true) := by
  obtain ⟨c, hturn, hstep⟩ := hinv.legalStep ha
  have hgeneral : DbState r.options (r.applyGeneral s a true) := by
    obtain ⟨key, heq⟩ := applyGeneral_eq r s a true
    rw [heq]
    exact (maybeHandleStalemate_dbState db
      (applyBranch_dbState db hinv h ha (.capture r s a) true)).congr rfl rfl rfl rfl
        rfl rfl rfl rfl
  rcases applyToStateUnchecked_cases r hinv hturn hstep true with ⟨⟨key, heq⟩, -⟩ | ⟨hsearch, -⟩
  · rw [heq]
    exact hgeneral.congr rfl rfl rfl rfl rfl rfl rfl rfl
  · exact absurd hsearch (by decide)

theorem initialMillState_dbState (r : MillRules) : DbState r.options (initialMillState r) := by
  refine DbTurn.state (c := 0) rfl ?_
  exact
    { noOwnPiece := fun _ => rfl
      noStalemate := rfl
      noBoth := rfl
      enough := fun x => by
        have := r.valid.pieceCount.1
        change 3 ≤ 0 + r.options.pieceCount
        omega
      opponentFree := rfl
      lockstep := fun _ => Or.inr ⟨rfl, rfl⟩ }

/-- **Every position of a game** satisfies the invariant. -/
theorem reachable_dbState (db : DbRules r.options) {snap : GameStateSnapshot}
    (h : Reachable r snap) : DbState r.options (MillState.decodeWithOptions snap r.options) := by
  induction h with
  | initial =>
    have hdecode := decode_encode r.options (initialMillState_inv r).encodable
    change DbState r.options (MillState.decodeWithOptions ((initialMillState r).encode r.options) _)
    rw [hdecode]
    exact (initialMillState_dbState r).congr rfl rfl rfl rfl rfl rfl rfl rfl
  | apply history h ha ih =>
    rename_i snap a
    have hinv := h.inv
    rw [mem_legalActions_iff] at ha
    obtain ⟨keys, len, heq⟩ := applyWithHistory_legal hinv snap rfl ha history
    have hload := hinv.withHistory keys len
    have hstep := applyToStateUnchecked_inv r hload ha true
    rw [heq, decode_encode r.options hstep.encodable]
    have hkept : DbState r.options { MillState.decodeWithOptions snap r.options with
        keyHistory := keys, keyHistoryLen := len } := ih.congr rfl rfl rfl rfl rfl rfl rfl rfl
    exact (applyToStateUnchecked_dbState db hload hkept ha).congr rfl rfl rfl rfl rfl rfl rfl rfl

end Sanmill.PerfectDb
