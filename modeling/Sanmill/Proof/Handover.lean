import Sanmill.Proof.CaptureTargets

/-!
# From one turn to the next

A branch either arms a removal for the active side (`Acting.arm`) or ends its
turn (`Acting.turnEnd`). The stalemate rule, which runs after every branch, does
one or the other as well.
-/

namespace Sanmill

open Bits

variable {options : MillVariantOptions} {s t : MillState} {c e : Side}

/-! ## The two patterns -/

/-- `c` is acting and nothing is owed: the state between an action's board writes and its
effects. -/
structure Acting (s : MillState) (c : Side) : Prop where
  active : s.sideToMove = c.toI8
  running : s.phase = .placing ∨ s.phase = .moving
  undecided : s.winner = -1 ∧ s.outcomeReason = .ongoing
  nothingOwed : ∀ x, s.pendingRemovals x = 0
  noCaptures : ∀ x, CapturesEmpty s.toMillCaptures x
  noMill : s.flags.millAvailableAtRemoval = false
  notStalemate : s.flags.stalemateRemoving = false
  notBoth : s.flags.bothStalemateRemoving = false
  noOwnPiece : ∀ x, s.flags.removeOwnPiece x = false

/-- A side that owes nothing acts freely. -/
theorem TurnInv.acting (h : TurnInv s c) (hz : s.pendingRemovals c = 0) : Acting s c := by
  have howed : ∀ x, s.pendingRemovals x = 0 := by
    rw [Side.forall_iff c]
    refine ⟨hz, ?_⟩
    by_contra hne
    exact (h.opponentOwes hne).1 hz
  obtain ⟨hempty, hmill, hstalemate, hboth⟩ := h.quiet hz
  exact
    { active := h.active
      running := h.running
      undecided := h.undecided
      nothingOwed := howed
      noCaptures := (Side.forall_iff c _).2 ⟨hempty, h.opponentCaptures⟩
      noMill := hmill
      notStalemate := hstalemate
      notBoth := hboth
      noOwnPiece := fun x => by
        rw [Bool.eq_false_iff]
        exact fun hx => h.ownPieceOwed x hx (howed x) }

/-- The mover stays on and owes a removal. -/
theorem Acting.arm (h : Acting s c)
    (hside : t.sideToMove = s.sideToMove) (hphase : t.phase = s.phase)
    (hresult : t.winner = s.winner ∧ t.outcomeReason = s.outcomeReason)
    (hsync : t.action = t.syncedAction) (howed : t.pendingRemovals c ≠ 0)
    (hopp : t.pendingRemovals c.opponent ≠ 0 →
      s.phase = .moving ∧ t.flags.stalemateRemoving = false)
    (hown : t.flags.removeOwnPiece = s.flags.removeOwnPiece)
    (hempty : CapturesEmpty t.toMillCaptures c.opponent) (hrecord : CaptureRecord t c) :
    TurnInv t c where
  active := hside.trans h.active
  running := by
    rw [hphase]
    exact h.running
  synced := hsync
  undecided := ⟨hresult.1.trans h.undecided.1, hresult.2.trans h.undecided.2⟩
  phase_eq hz := absurd hz howed
  quiet hz := absurd hz howed
  opponentOwes hne := ⟨howed, hphase.trans (hopp hne).1, (hopp hne).2⟩
  opponentCaptures := hempty
  record := hrecord
  ownPieceOwed x hx := by
    rw [hown, h.noOwnPiece] at hx
    exact absurd hx Bool.false_ne_true
  ownPieceAlone hx := by
    rw [hown, h.noOwnPiece] at hx
    exact absurd hx Bool.false_ne_true

/-- The mover earned nothing and `e` is next. -/
theorem Acting.turnEnd (h : Acting s e) : TurnEnd options s e where
  active := h.active
  running := h.running
  undecided := h.undecided
  noCaptures := h.noCaptures
  notStalemate := h.notStalemate
  placing _ := h.notBoth
  owed _ := ⟨h.nothingOwed _, fun _ => h.nothingOwed _, fun _ => ⟨h.noMill, h.notBoth⟩,
    fun x hx => by
    rw [h.noOwnPiece] at hx
    exact absurd hx Bool.false_ne_true⟩

/-- The turn passes to `e`. -/
theorem Acting.withSide (h : Acting s c) (e : Side) : Acting { s with sideToMove := e.toI8 } e :=
  { h with active := rfl }

theorem Acting.clearCaptureState (h : Acting s c) : Acting s.clearCaptureState c :=
  { h with noCaptures := capturesEmpty_cleared, noMill := rfl }

/-- Writes to the record fields do not disturb a turn. -/
theorem TurnInv.noteMillFormation (h : TurnInv s c) (side : Side) (source target : Int)
    (bits : Bitboard) : TurnInv (noteMillFormation s side source target bits options) c :=
  { h with
    record := { h.record with } }

/-- Clearing the captures of a side that goes on is harmless. -/
theorem TurnInv.clearCaptureState (h : TurnInv s c) : TurnInv s.clearCaptureState c :=
  { h with
    quiet := fun hz => ⟨capturesEmpty_cleared c, rfl, (h.quiet hz).2.2⟩
    opponentCaptures := capturesEmpty_cleared _
    record := CapturesEmpty.record (s := s.clearCaptureState) (capturesEmpty_cleared c)
    ownPieceAlone := fun _ => capturesEmpty_cleared c }

/-! ## Stalemate -/

theorem maybeHandleStalemate_cases (s : MillState) (options : MillVariantOptions) :
    (isStalemated s options = false ∧ maybeHandleStalemate s options = (s, false))
      ∨ (isStalemated s options = true
        ∧ maybeHandleStalemate s options
          = ((applyStalemateAction s options).syncActionState, true)) := by
  unfold maybeHandleStalemate
  cases isStalemated s options
  · exact Or.inl ⟨rfl, rfl⟩
  · exact Or.inr ⟨rfl, rfl⟩

/-- Only a side that is moving and owes nothing is stalemated. -/
theorem isStalemated_spec (hactive : s.sideToMove = c.toI8) (h : isStalemated s options = true) :
    s.phase = .moving ∧ s.pendingRemovals c = 0
      ∧ isAllSurrounded s options s.sideToMove = true := by
  unfold isStalemated at h
  rw [hactive, Side.sideIndex_toI8] at h
  simp only at h
  split at h
  · exact absurd h Bool.false_ne_true
  · rename_i hphase
    split at h
    · exact absurd h Bool.false_ne_true
    · rename_i hpending
      split at h
      · exact absurd h Bool.false_ne_true
      · rw [hactive]
        exact ⟨not_not.1 fun hne => hphase (Or.inl hne), not_not.1 hpending, h⟩

/-- The stalemate rule hands the turn over, arms removals, or ends the game. -/
theorem TurnInv.stalemate (h : TurnInv s c) : SomeTurn (maybeHandleStalemate s options).1 := by
  rcases maybeHandleStalemate_cases s options with ⟨-, heq⟩ | ⟨hst, heq⟩
  · rw [heq]
    exact fun _ => ⟨c, h⟩
  obtain ⟨hmoving, hz, -⟩ := isStalemated_spec h.active hst
  have hact := h.acting hz
  have hside : sideIndex s.sideToMove = c := by rw [h.active, Side.sideIndex_toI8]
  rw [heq]
  intro hrun
  simp only [applyStalemateAction, hside] at hrun ⊢
  -- what the rule does with a side that cannot move decides who is to act
  cases hrule : options.stalemateAction with
  | endWithStalemateLoss =>
    rw [hrule] at hrun
    exact absurd rfl hrun
  | endWithStalemateDraw =>
    rw [hrule] at hrun
    exact absurd rfl hrun
  -- the turn passes with nothing owed
  | changeSideToMove =>
    refine ⟨c.opponent, TurnStart.turn (s := { s with sideToMove := xorOne s.sideToMove }) ?_⟩
    refine ⟨?_, hact.running, hact.undecided, hact.noCaptures, hact.notStalemate, ?_, ?_,
      h.ownPieceOwed⟩
    · change xorOne s.sideToMove = _
      rw [h.active, Side.xorOne_toI8]
    · exact fun hne => absurd (hact.nothingOwed _) hne
    · exact fun _ => ⟨hact.noMill, hact.notBoth⟩
  -- in the three removal variants the side owes one removal and stays to make it
  | removeOpponentsPieceAndMakeNextMove =>
    refine ⟨c, hact.arm rfl rfl ⟨rfl, rfl⟩ rfl ?_ ?_ rfl (capturesEmpty_cleared _)
      (CapturesEmpty.record (capturesEmpty_cleared c))⟩
    · change setAt s.pendingRemovals c 1 c ≠ 0
      rw [setAt_self]
      exact Nat.one_ne_zero
    · intro hne
      refine absurd ?_ hne
      exact (setAt_of_ne (Side.opponent_ne c) _ _).trans (hact.nothingOwed _)
  | removeOpponentsPieceAndChangeSideToMove =>
    refine ⟨c, hact.arm rfl rfl ⟨rfl, rfl⟩ rfl ?_ ?_ rfl (capturesEmpty_cleared _)
      (CapturesEmpty.record (capturesEmpty_cleared c))⟩
    · change setAt s.pendingRemovals c 1 c ≠ 0
      rw [setAt_self]
      exact Nat.one_ne_zero
    · exact fun _ => ⟨hmoving, hact.notStalemate⟩
  | bothPlayersRemoveOpponentsPiece =>
    refine ⟨c, hact.arm rfl rfl ⟨rfl, rfl⟩ rfl ?_ ?_ rfl (capturesEmpty_cleared _)
      (CapturesEmpty.record (capturesEmpty_cleared c))⟩
    · change setAt (setAt s.pendingRemovals c 1) c.opponent 1 c ≠ 0
      rw [setAt_of_ne (Side.ne_opponent c), setAt_self]
      exact Nat.one_ne_zero
    · exact fun _ => ⟨hmoving, hact.notStalemate⟩

/-- The rule acts on a running game only. -/
theorem SomeTurn.stalemate (h : SomeTurn s) : SomeTurn (maybeHandleStalemate s options).1 := by
  by_cases hover : s.phase = .gameOver
  · rcases maybeHandleStalemate_cases s options with ⟨-, heq⟩ | ⟨hst, -⟩
    · rw [heq]
      exact h
    · unfold isStalemated at hst
      simp [hover] at hst
  · obtain ⟨c, hc⟩ := h hover
    exact hc.stalemate

/-- The rule touches control fields only. -/
theorem maybeHandleStalemate_keeps (s : MillState) (options : MillVariantOptions) :
    Keeps options s (maybeHandleStalemate s options).1 := by
  rcases maybeHandleStalemate_cases s options with ⟨-, heq⟩ | ⟨-, heq⟩
  · rw [heq]
    exact Keeps.refl s
  · rw [heq]
    unfold applyStalemateAction
    cases options.stalemateAction
    all_goals
      exact ⟨Or.inl ⟨rfl, rfl⟩, fun _ => Nat.le_refl _, rfl, rfl, rfl, rfl, rfl, fun _ => rfl, rfl,
        rfl⟩

theorem setAt_le {bound : Nat} {array : Side → Nat} {value : Nat} (h : ∀ x, array x ≤ bound)
    (hv : value ≤ bound) (side : Side) (x : Side) : setAt array side value x ≤ bound := by
  by_cases hx : x = side
  · rw [hx, setAt_self]
    exact hv
  · rw [setAt_of_ne hx]
    exact h x

theorem Sane.clearCaptureState (h : Sane options s) : Sane options s.clearCaptureState :=
  { h with
    captureRules := fun _ _ _ x => capturesEmpty_cleared x
    captureCounts := fun _ => ⟨Nat.zero_le _, Nat.zero_le _, Nat.zero_le _⟩ }

theorem Sane.setPendingRemovals (h : Sane options s) (side : Side) {count : Nat}
    (hc : count ≤ 255) : Sane options (s.setPendingRemovals side count) :=
  { h with pendingRemovals := setAt_le h.pendingRemovals hc side }

theorem Sane.stalemate (h : Sane options s) (hturn : SomeTurn s) :
    Sane options (maybeHandleStalemate s options).1 := by
  rcases maybeHandleStalemate_cases s options with ⟨-, heq⟩ | ⟨hst, heq⟩
  · rw [heq]
    exact h
  have hrun : s.phase ≠ .gameOver := by
    intro hover
    unfold isStalemated at hst
    simp [hover] at hst
  obtain ⟨c, hc⟩ := hturn hrun
  rw [heq]
  unfold applyStalemateAction
  cases options.stalemateAction with
  | endWithStalemateLoss =>
    refine { h with winner := Or.inr (Or.inr ⟨c.opponent, ?_⟩) }
    change xorOne s.sideToMove = _
    rw [hc.active, Side.xorOne_toI8]
  | endWithStalemateDraw => exact { h with winner := Or.inr (Or.inl rfl) }
  | changeSideToMove => exact { h with }
  | removeOpponentsPieceAndMakeNextMove =>
    exact { (h.setPendingRemovals _ (by omega : 1 ≤ 255)).clearCaptureState with }
  | removeOpponentsPieceAndChangeSideToMove =>
    exact { (h.setPendingRemovals _ (by omega : 1 ≤ 255)).clearCaptureState with }
  | bothPlayersRemoveOpponentsPiece =>
    exact { ((h.setPendingRemovals _ (by omega : 1 ≤ 255)).setPendingRemovals _
      (by omega : 1 ≤ 255)).clearCaptureState with }

end Sanmill
