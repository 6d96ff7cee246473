import Sanmill.Proof.PlaceBranch

/-!
# The moving branch

A move that captures or completes a mill leaves its side with an obligation, like
a placement. A quiet move passes the turn; real play records its key first and
may end the game by repetition or by the inactivity rule.
-/

namespace Sanmill

open Bits

variable (r : MillRules) {options : MillVariantOptions} {p q t : MillState} {c e : Side}

/-! ## Adjudication -/

/-- Recording a key may end the game by repetition. -/
theorem pushKeyAndCheckThreefoldWithKey_cases (s : MillState) (options : MillVariantOptions)
    (adjudicate : Bool) (key : Key) :
    ∃ history len, pushKeyAndCheckThreefoldWithKey s options adjudicate key
        = { s with keyHistory := history, keyHistoryLen := len }
      ∨ pushKeyAndCheckThreefoldWithKey s options adjudicate key
        = finishGame { s with keyHistory := history, keyHistoryLen := len } 2 .drawThreefold := by
  unfold pushKeyAndCheckThreefoldWithKey
  split
  · exact ⟨s.keyHistory, s.keyHistoryLen, Or.inl rfl⟩
  · refine ⟨pushKey s.keyHistory (nonZeroKey key), (pushKey s.keyHistory (nonZeroKey key)).length,
      ?_⟩
    simp only
    split
    · exact Or.inl rfl
    · split
      · exact Or.inr rfl
      · exact Or.inl rfl

theorem maybeDrawByNMoveRule_cases (s : MillState) (options : MillVariantOptions)
    (adjudicate : Bool) :
    maybeDrawByNMoveRule s options adjudicate = s
      ∨ ∃ reason, maybeDrawByNMoveRule s options adjudicate = finishGame s 2 reason := by
  unfold maybeDrawByNMoveRule
  split
  · exact Or.inl rfl
  · split
    · exact Or.inl rfl
    · split
      · exact Or.inr ⟨_, rfl⟩
      · exact Or.inl rfl

/-- After the draw rules: the game goes on as it was, or is drawn. -/
inductive Adjudicated (s : MillState) : MillState → Prop
  | goesOn (history : List Key) (len : Nat) :
      Adjudicated s { s with keyHistory := history, keyHistoryLen := len }
  | drawn (history : List Key) (len : Nat) (reason : MillOutcomeReason) :
      Adjudicated s (finishGame { s with keyHistory := history, keyHistoryLen := len } 2 reason)

theorem adjudicated_push (s : MillState) (options : MillVariantOptions) (adjudicate : Bool)
    (key : Key) : Adjudicated s (pushKeyAndCheckThreefoldWithKey s options adjudicate key) := by
  obtain ⟨history, len, heq | heq⟩ :=
    pushKeyAndCheckThreefoldWithKey_cases s options adjudicate key
  · rw [heq]
    exact .goesOn history len
  · rw [heq]
    exact .drawn history len _

theorem Adjudicated.nMove {s : MillState} (h : Adjudicated s t) (options : MillVariantOptions)
    (adjudicate : Bool) : Adjudicated s (maybeDrawByNMoveRule t options adjudicate) := by
  rcases maybeDrawByNMoveRule_cases t options adjudicate with heq | ⟨reason, heq⟩
  · rw [heq]
    exact h
  · rw [heq]
    cases h with
    | goesOn history len => exact .drawn history len reason
    | drawn history len reason' => exact .drawn history len reason

theorem Acting.start (h : Acting q e) : TurnStart q e where
  active := h.active
  running := h.running
  undecided := h.undecided
  noCaptures := h.noCaptures
  notStalemate := h.notStalemate
  opponentOwes hne := absurd (h.nothingOwed _) hne
  quiet _ := ⟨h.noMill, h.notBoth⟩
  ownPieceOwed x hx := by
    rw [h.noOwnPiece] at hx
    exact absurd hx Bool.false_ne_true

/-- An adjudicated quiet move hands the turn to `e`, or ends the game. -/
theorem Adjudicated.done (h : Adjudicated q t) (hact : Acting q e) (hsane : Sane options q)
    (hkeeps : Keeps options p q) :
    BranchDone options { p with keyHistory := t.keyHistory }
      (syncPhaseWithActiveHand t).syncActionState := by
  cases h with
  | goesOn history len =>
    exact
      { keeps := { hkeeps with keyHistory := rfl }
        sane := { hsane with }
        turn := fun _ => ⟨e, TurnStart.turn
          (s := { q with keyHistory := history, keyHistoryLen := len }) { hact.start with }⟩ }
  | drawn history len reason =>
    exact
      { keeps := { hkeeps with keyHistory := rfl }
        sane := { hsane with winner := Or.inr (Or.inl rfl) }
        turn := fun hrun => absurd rfl hrun }

/-! ## Quiet moves -/

/-- The state after `adjudicateQuiet`'s draw rules, before the syncs. -/
theorem adjudicateQuiet_eq (s : MillState) (key : Option Key) (adjudicate : Bool) :
    ∃ t, Adjudicated s t ∧ r.adjudicateQuiet s key adjudicate
        = (syncPhaseWithActiveHand t).syncActionState
      ∧ (adjudicate = false → t = s) := by
  unfold MillRules.adjudicateQuiet
  refine ⟨_, ?_, rfl, ?_⟩
  · refine Adjudicated.nMove ?_ r.options adjudicate
    split
    · split
      · exact adjudicated_push s r.options true _
      · exact adjudicated_push s r.options true _
    · exact .goesOn s.keyHistory s.keyHistoryLen
  · intro hadj
    subst hadj
    rfl

theorem moveQuiet_keeps (p : MillState) (c : Side) : Keeps options p (MillRules.moveQuiet p c) :=
  Keeps.control rfl rfl rfl (fun _ => rfl) rfl rfl

theorem moveQuiet_acting (hact : Acting p c) : Acting (MillRules.moveQuiet p c) c.opponent := by
  have h := hact.clearCaptureState.withSide c.opponent
  exact
    { h with
      active := by
        change xorOne p.sideToMove = _
        rw [hact.active, Side.xorOne_toI8] }

theorem Sane.moveQuiet (h : Sane options p) : Sane options (MillRules.moveQuiet p c) := by
  have hc := h.clearCaptureState
  refine { hc with lastMill := fun x => ?_ }
  change NodeOrNone (setAt p.lastMillFrom c (-1) x) ∧ NodeOrNone (setAt p.lastMillTo c (-1) x)
  by_cases hx : x = c
  · rw [hx, setAt_self, setAt_self]
    exact ⟨nodeOrNone_neg_one, nodeOrNone_neg_one⟩
  · rw [setAt_of_ne hx, setAt_of_ne hx]
    exact h.lastMill x

theorem quietMove_done (hact : Acting p c) (hsane : Sane r.options p) (key : Option Key)
    (adjudicate : Bool) :
    ∃ history, BranchDone r.options { p with keyHistory := history }
        (r.adjudicateQuiet (MillRules.moveQuiet p c) key adjudicate)
      ∧ (adjudicate = false → history = p.keyHistory) := by
  obtain ⟨t, hadj, heq, hsearch⟩ := adjudicateQuiet_eq r (MillRules.moveQuiet p c) key adjudicate
  refine ⟨t.keyHistory, ?_, fun h => by rw [hsearch h]; rfl⟩
  rw [heq]
  exact hadj.done (moveQuiet_acting hact) hsane.moveQuiet (moveQuiet_keeps p c)

/-! ## The branch -/

theorem offered_leap (hactive : p.sideToMove = c.toI8) (source target : Node) (b : Bool) :
    Offered options p c 0 0
      (if options.leapCapture.enabled && b then detectLeapTargets p options source target else 0)
    where
  custodianLive i hi := by simp at hi
  interventionLive i hi := by simp at hi
  leapLive i hi := by
    split at hi
    · exact detectLeapTargets_live hactive hi
    · simp at hi
  rules _ _ h3 := by simp [h3]

theorem moveMill_done (hact : Acting p c) (hsane : Sane r.options p) {source target : Node}
    (bits : Bitboard) {custodian intervention : Bitboard}
    (hoffered : Offered r.options p c custodian intervention 0) :
    BranchDone r.options p
      (noteMillFormation
        ((MillRules.armRemovals p c (removalCountForBits bits r.options) true).activateCaptureState
          custodian intervention 0)
        c source.toI8 target.toI8 bits r.options).syncActionState := by
  have hcount := removalCountForBits_bounds bits r.options
  obtain ⟨flags, heq, hown⟩ := armRemovals_eq p c (removalCountForBits bits r.options) true
  rw [heq, activateCaptureState_eq
    (s := { p with
      pendingRemovals := setAt p.pendingRemovals c (removalCountForBits bits r.options)
      flags := flags })
    (c := c) hact.active]
  have hdone := hact.armDone flags hsane ⟨hcount.1, by omega⟩ hown hoffered
  exact hdone.noteMillFormation c (nodeOrNone_toI8 source) (nodeOrNone_toI8 target) bits

theorem moveLeap_done (hact : Acting p c) (hsane : Sane r.options p) {leap : Bitboard}
    (hoffered : Offered r.options p c 0 0 leap) :
    BranchDone r.options p
      (MillRules.armRemovals (p.activateCaptureState 0 0 leap) c 1 false).syncActionState := by
  rw [activateCaptureState_eq hact.active]
  obtain ⟨flags, heq, hown⟩ := armRemovals_eq
    { p with toMillCaptures := publishedCaptures p.toMillCaptures c 0 0 leap } c 1 false
  rw [heq]
  exact hact.armDone _ hsane ⟨Nat.le_refl 1, by omega⟩ hown hoffered

/-- **The moving branch**: as for placing, but real play may have recorded a key. -/
theorem applyMove_done {s : MillState} {source target : Node} (h : TurnInv s c)
    (hsane : Sane r.options s) (hz : s.pendingRemovals c = 0) (ctx : MillRules.KeyContext)
    (action : Action) (adjudicate : Bool) :
    ∃ history, BranchDone r.options
        { r.movePiece s source target c with keyHistory := history }
        (r.applyMove s source target ctx action adjudicate).1
      ∧ (adjudicate = false → history = s.keyHistory) := by
  have hact : Acting (r.movePiece s source target c) c := { h.acting hz with }
  have hsane' : Sane r.options (r.movePiece s source target c) := { hsane with }
  have hsame : ({ r.movePiece s source target c with keyHistory := s.keyHistory } : MillState)
      = r.movePiece s source target c := rfl
  have hoffered := @offered_detected r.options _ _ hact.active target
    r.options.custodianCapture.inMovingPhase r.options.interventionCapture.inMovingPhase
  have hleap := @offered_leap r.options _ _ hact.active source target
    r.options.leapCapture.inMovingPhase
  unfold MillRules.applyMove
  simp only [h.active, Side.sideIndex_toI8]
  -- the captures are only used through what they offer, so their detection is hidden
  generalize (if (r.options.custodianCapture.enabled
      && r.options.custodianCapture.inMovingPhase) = true then
    detectCustodianTargets (r.movePiece s source target c) r.options target else 0) = custodian
    at hoffered ⊢
  generalize (if (r.options.interventionCapture.enabled
      && r.options.interventionCapture.inMovingPhase) = true then
    detectInterventionTargets (r.movePiece s source target c) r.options target else 0)
    = intervention at hoffered ⊢
  generalize (if (r.options.leapCapture.enabled && r.options.leapCapture.inMovingPhase) = true then
    detectLeapTargets (r.movePiece s source target c) r.options source target else 0) = leap
    at hleap ⊢
  -- the order of the source: a leap, a mill, another capture, a quiet move
  split
  · exact ⟨s.keyHistory, hsame ▸ moveLeap_done r hact hsane' hleap, fun _ => rfl⟩
  · split
    · exact ⟨s.keyHistory, hsame ▸ moveMill_done r hact hsane' _ hoffered, fun _ => rfl⟩
    · split
      · rename_i hsome
        exact ⟨s.keyHistory, hsame ▸ armCapture_done r hact hsane' hsome hoffered, fun _ => rfl⟩
      · exact quietMove_done r hact hsane' _ adjudicate

end Sanmill
