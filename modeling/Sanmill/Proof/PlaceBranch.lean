import Sanmill.Proof.Handover

/-!
# The placing branch

After the board writes of a placement the acting side either owes removals or ends
its turn. Each placement rule keeps what the writes established and leaves
somebody with a turn, or ends the game.
-/

namespace Sanmill

open Bits

variable (r : MillRules) {options : MillVariantOptions} {p t : MillState} {c e : Side}

/-- What a branch does after its board writes, which have reached `p`. -/
structure BranchDone (options : MillVariantOptions) (p t : MillState) : Prop where
  keeps : Keeps options p t
  sane : Sane options t
  turn : SomeTurn t

/-! ## Pieces shared by the branches -/

/-- An action that leaves the board alone is `Keeps` when these fields are unchanged. -/
theorem Keeps.of_position (hboard : t.board = p.board)
    (hmarks : t.delayedMarkedPieces = p.delayedMarkedPieces)
    (hhands : ∀ x, t.piecesInHand x ≤ p.piecesInHand x) (hmasks : t.byColorBb = p.byColorBb)
    (hcounts : t.piecesOnBoard = p.piecesOnBoard) (hmobility : t.mobilityDiff = p.mobilityDiff)
    (hnumber : t.moveNumber = p.moveNumber) (hply : t.plySinceCapture = p.plySinceCapture)
    (hformed : options.oneTimeUseMill = false → t.formedMillsBb = p.formedMillsBb)
    (hpreferred : t.preferredRemoveTarget = p.preferredRemoveTarget)
    (hhistory : t.keyHistory = p.keyHistory) : Keeps options p t :=
  ⟨Or.inl ⟨hboard, hmarks⟩, hhands, hmasks, hcounts, hmobility, hnumber, hply, hformed, hpreferred,
    hhistory⟩

/-- Nothing but control fields changes. -/
theorem Keeps.control (hposition : t.toMillPosition = p.toMillPosition)
    (hnumber : t.moveNumber = p.moveNumber) (hply : t.plySinceCapture = p.plySinceCapture)
    (hformed : options.oneTimeUseMill = false → t.formedMillsBb = p.formedMillsBb)
    (hpreferred : t.preferredRemoveTarget = p.preferredRemoveTarget)
    (hhistory : t.keyHistory = p.keyHistory) : Keeps options p t :=
  Keeps.of_position (by rw [hposition]) (by rw [hposition])
    (fun x => by rw [hposition]) (by rw [hposition]) (by rw [hposition]) (by rw [hposition])
    hnumber hply hformed hpreferred hhistory

/-- A turn ends: the state `q` before `endPlacingTurn` is the board state up to its hands. -/
theorem BranchDone.turnEnd {q : MillState} (hkeeps : Keeps r.options p q)
    (hsane : Sane r.options q) (hpos : PositionInv r.options p.toMillPosition)
    (hend : TurnEnd r.options q e) : BranchDone r.options p (r.endPlacingTurn q) :=
  have hq := hkeeps.position hpos
  { keeps := hkeeps.trans (endPlacingTurn_keeps r hq hend.active)
    sane := hsane.endPlacingTurn r hq hend.active
    turn := hend.someTurn r hq }

theorem BranchDone.clearCaptureState (h : BranchDone options p t) :
    BranchDone options p t.clearCaptureState where
  keeps := { h.keeps with }
  sane := h.sane.clearCaptureState
  turn hrun := (h.turn hrun).imp fun _ ht => ht.clearCaptureState

theorem nodeOrNone_toI8 (n : Node) : NodeOrNone n.toI8 := Or.inr ⟨n, rfl⟩

theorem nodeOrNone_neg_one : NodeOrNone (-1) := Or.inl rfl

theorem BranchDone.noteMillFormation (h : BranchDone options p t) (side : Side)
    {source target : Int} (hsource : NodeOrNone source) (htarget : NodeOrNone target)
    (bits : Bitboard) :
    BranchDone options p (noteMillFormation t side source target bits options) where
  keeps :=
    { h.keeps with
      formedMillsBb := fun ho => by
        rw [← h.keeps.formedMillsBb ho]
        simp [Sanmill.noteMillFormation, ho] }
  sane :=
    { h.sane with
      lastMill := fun x => by
        have hold := h.sane.lastMill x
        simp only [Sanmill.noteMillFormation]
        by_cases hx : x = side
        · rw [hx, setAt_self, setAt_self]
          constructor
          · split
            · exact hsource
            · exact nodeOrNone_neg_one
          · split
            · exact htarget
            · exact nodeOrNone_neg_one
        · rw [setAt_of_ne hx, setAt_of_ne hx]
          exact hold }
  turn hrun := (h.turn hrun).imp fun _ ht => ht.noteMillFormation side source target bits

theorem removalCountForBits_bounds (bits : Bitboard) (options : MillVariantOptions) :
    1 ≤ removalCountForBits bits options ∧ removalCountForBits bits options ≤ 32 := by
  have hle : countOnes bits ≤ 32 := by
    refine countOnes_le_of_below bits 32 fun i hi => testBit_lt hi
  unfold removalCountForBits
  split <;> omega

/-- Publishing nothing over an empty record writes it again. -/
theorem publishedCaptures_zero {k : MillCaptures} (h : CapturesEmpty k c) :
    publishedCaptures k c 0 0 0 = k := by
  have hset : ∀ {α : Type} (f : Side → α) (v : α), f c = v → setAt f c v = f := by
    intro α f v hv
    rw [← hv]
    exact Function.update_eq_self c f
  simp only [publishedCaptures, if_true, bitCount_zero]
  rw [hset _ _ h.custodian, hset _ _ h.intervention, hset _ _ h.leap, hset _ _ h.custodianCount,
    hset _ _ h.interventionCount, hset _ _ h.leapCount]

/-- The targets `c` is offered: live pieces of the opponent, and none while the rules are off. -/
structure Offered (options : MillVariantOptions) (p : MillState) (c : Side)
    (custodian intervention leap : Bitboard) : Prop where
  custodianLive : ∀ i, testBit custodian i = true → testBit (p.byColorBb c.opponent) i = true
  interventionLive : ∀ i, testBit intervention i = true →
    testBit (p.byColorBb c.opponent) i = true
  leapLive : ∀ i, testBit leap i = true → testBit (p.byColorBb c.opponent) i = true
  rules : options.custodianCapture.enabled = false →
    options.interventionCapture.enabled = false → options.leapCapture.enabled = false →
    custodian = 0 ∧ intervention = 0 ∧ leap = 0

theorem offered_zero (p : MillState) (c : Side) : Offered options p c 0 0 0 :=
  ⟨fun i hi => by simp at hi, fun i hi => by simp at hi, fun i hi => by simp at hi,
    fun _ _ _ => ⟨rfl, rfl, rfl⟩⟩

/-- The state in which `c`, after acting in `p`, owes `k` removals and may take these targets. -/
def owing (p : MillState) (c : Side) (k : Nat) (custodian intervention leap : Bitboard)
    (flags : MillStateFlags) : MillState :=
  { p with
    toMillCaptures := publishedCaptures p.toMillCaptures c custodian intervention leap
    pendingRemovals := setAt p.pendingRemovals c k
    flags := flags }

/-- **A branch that leaves the acting side owing `k` removals.** -/
theorem Acting.armDone {custodian intervention leap : Bitboard} {k : Nat}
    (h : Acting p c) (flags : MillStateFlags) (hsane : Sane options p) (hk : 1 ≤ k ∧ k ≤ 255)
    (hown : flags.removeOwnPiece = p.flags.removeOwnPiece)
    (hoffered : Offered options p c custodian intervention leap) :
    BranchDone options p (owing p c k custodian intervention leap flags).syncActionState where
  keeps := Keeps.control rfl rfl rfl (fun _ => rfl) rfl rfl
  sane :=
    { hsane with
      captureRules := fun h1 h2 h3 x => by
        obtain ⟨rfl, rfl, rfl⟩ := hoffered.rules h1 h2 h3
        exact capturesEmpty_published_zero rfl (h.noCaptures _) x
      pendingRemovals := setAt_le hsane.pendingRemovals hk.2 c
      captureCounts := fun x => by
        have hbit : ∀ mask : Bitboard, bitCount mask ≤ 255 := fun mask => Nat.min_le_right _ _
        have hone : (if custodian = 0 then 0 else 1) ≤ 255 := by split <;> omega
        exact ⟨setAt_le (fun y => (hsane.captureCounts y).1) hone c x,
          setAt_le (fun y => (hsane.captureCounts y).2.1) (hbit _) c x,
          setAt_le (fun y => (hsane.captureCounts y).2.2) (hbit _) c x⟩ }
  turn _ := by
    refine ⟨c, h.arm rfl rfl ⟨rfl, rfl⟩ rfl ?_ ?_ hown
      (capturesEmpty_published rfl (h.noCaptures _))
      (captureRecord_published rfl hoffered.custodianLive hoffered.interventionLive
        hoffered.leapLive)⟩
    · change setAt p.pendingRemovals c k c ≠ 0
      rw [setAt_self]
      omega
    · intro hne
      refine absurd ?_ hne
      exact (setAt_of_ne (Side.opponent_ne c) _ _).trans (h.nothingOwed _)

/-- `armRemovals` after or before publishing, in one step. -/
theorem armRemovals_eq (s : MillState) (side : Side) (count : Nat) (millAvailable : Bool) :
    ∃ flags : MillStateFlags, MillRules.armRemovals s side count millAvailable
        = { s with pendingRemovals := setAt s.pendingRemovals side count, flags := flags }
      ∧ flags.removeOwnPiece = s.flags.removeOwnPiece := by
  simp only [MillRules.armRemovals, MillState.setPendingRemovals,
    MillState.refreshZobristMiscForSide, MillState.setZobristMiscCount,
    MillState.setMillAvailableAtRemoval]
  exact ⟨_, rfl, rfl⟩

/-! ## The placement rules -/

/-- The opponent's hand has paid for as many removals as it can. -/
def handReduced (p : MillState) (c : Side) (removals : Nat) : MillState :=
  { p with
    piecesInHand := setAt p.piecesInHand c.opponent
      (p.piecesInHand c.opponent - min removals (p.piecesInHand c.opponent)) }

/-- The turn passes to the opponent with nothing earned. -/
theorem passTurn_done {q : MillState} (hpos : PositionInv r.options p.toMillPosition)
    (hkeeps : Keeps r.options p q) (hactq : Acting q c) (hsaneq : Sane r.options q) :
    BranchDone r.options p
      (r.endPlacingTurn { q with sideToMove := xorOne q.sideToMove }) := by
  rw [hactq.active, Side.xorOne_toI8]
  exact BranchDone.turnEnd r (e := c.opponent) { hkeeps with } { hsaneq with } hpos
    (hactq.withSide c.opponent).turnEnd

section Rules

variable (hact : Acting p c) (hpos : PositionInv r.options p.toMillPosition)
  (hsane : Sane r.options p)

include hact hsane

theorem placeBoardRemoval_done {removals : Nat} (hremovals : 1 ≤ removals ∧ removals ≤ 255)
    {custodian intervention : Bitboard}
    (hoffered : Offered r.options p c custodian intervention 0) :
    BranchDone r.options p (r.placeBoardRemoval p c removals custodian intervention) := by
  obtain ⟨flags, heq, hown⟩ := armRemovals_eq p c removals true
  unfold MillRules.placeBoardRemoval
  simp only
  rw [heq, activateCaptureState_eq
    (s := { p with pendingRemovals := setAt p.pendingRemovals c removals, flags := flags })
    (c := c) hact.active]
  split
  · simp only [MillState.setPendingRemovals, MillState.refreshZobristMiscForSide,
      MillState.setZobristMiscCount, setAt_self]
    generalize MillState.captureTotal _ = total
    have hidem : setAt (setAt p.pendingRemovals c removals) c (saturatingAddU8 removals total)
        = setAt p.pendingRemovals c (saturatingAddU8 removals total) := Function.update_idem _ _ _
    rw [hidem]
    refine hact.armDone _ hsane ?_ ?_ hoffered
    · unfold saturatingAddU8
      omega
    · exact hown
  · exact hact.armDone _ hsane hremovals hown hoffered

theorem armCapture_done {custodian intervention : Bitboard}
    (hsome : custodian ≠ 0 ∨ intervention ≠ 0)
    (hoffered : Offered r.options p c custodian intervention 0) :
    BranchDone r.options p (MillRules.armCapture p c custodian intervention) := by
  have htotal : (p.activateCaptureState custodian intervention 0).captureTotal
      = saturatingAddU8 (saturatingAddU8 (if custodian = 0 then 0 else 1) (bitCount intervention))
        (bitCount 0) := by
    rw [activateCaptureState_eq hact.active]
    simp only [MillState.captureTotal, hact.active, Side.toI8_inRange_lt, not_true_eq_false,
      if_false, Side.sideIndex_toI8, publishedCaptures, setAt_self]
  have hk : 1 ≤ (p.activateCaptureState custodian intervention 0).captureTotal
      ∧ (p.activateCaptureState custodian intervention 0).captureTotal ≤ 255 := by
    rw [htotal, bitCount_zero]
    unfold saturatingAddU8
    rcases hsome with hne | hne
    · rw [if_neg hne]
      omega
    · have := bitCount_pos hne
      omega
  unfold MillRules.armCapture
  simp only
  generalize (p.activateCaptureState custodian intervention 0).captureTotal = k at hk
  rw [activateCaptureState_eq hact.active]
  obtain ⟨flags, heq, hown⟩ := armRemovals_eq { p with
    toMillCaptures := publishedCaptures p.toMillCaptures c custodian intervention 0 } c k false
  rw [heq]
  exact hact.armDone _ hsane hk hown hoffered

include hpos

theorem placeHandRemoval_done {removals : Nat} (hremovals : removals ≤ 255) :
    BranchDone r.options p (r.placeHandRemoval p c removals) := by
  -- a removal from the hand changes the opponent's hand and nothing else that is kept
  have hkeeps : Keeps r.options p (handReduced p c removals) := by
    refine Keeps.of_position rfl rfl (fun x => ?_) rfl rfl rfl rfl rfl (fun _ => rfl) rfl rfl
    change setAt p.piecesInHand c.opponent _ x ≤ _
    by_cases hx : x = c.opponent
    · rw [hx, setAt_self]
      exact Nat.sub_le _ _
    · rw [setAt_of_ne hx]
  have hactq : Acting (handReduced p c removals) c := { hact with }
  have hsaneq : Sane r.options (handReduced p c removals) := { hsane with }
  unfold MillRules.placeHandRemoval
  simp only
  refine BranchDone.clearCaptureState ?_
  -- more is owed than the hand holds, or the turn ends here
  split
  · rename_i hremaining
    change BranchDone r.options p (MillRules.armRemovals (handReduced p c removals) c
      (removals - min removals (p.piecesInHand c.opponent)) true).syncActionState
    obtain ⟨flags, heq, hown⟩ := armRemovals_eq (handReduced p c removals) c
      (removals - min removals (p.piecesInHand c.opponent)) true
    rw [heq]
    have hdone := hactq.armDone flags hsaneq
      ⟨hremaining, le_trans (Nat.sub_le _ _) hremovals⟩ hown (offered_zero _ c)
    unfold owing at hdone
    rw [publishedCaptures_zero (hactq.noCaptures c)] at hdone
    exact { hdone with keeps := hkeeps.trans hdone.keeps }
  · split
    · exact BranchDone.turnEnd r (e := c.opponent) { hkeeps with } { hsaneq with } hpos
        (hactq.withSide c.opponent).turnEnd
    · exact BranchDone.turnEnd r (e := c) { hkeeps with } { hsaneq with } hpos
        (hactq.withSide c).turnEnd

theorem placeRemovalBasedOnMillCounts_done (hcount : countsMills r.options)
    (hplacing : p.phase = .placing) :
    BranchDone r.options p (r.placeRemovalBasedOnMillCounts p) := by
  have hclear := hact.clearCaptureState
  have hsane' := hsane.clearCaptureState
  have hkeeps : Keeps r.options p p.clearCaptureState :=
    Keeps.control rfl rfl rfl (fun _ => rfl) rfl rfl
  unfold MillRules.placeRemovalBasedOnMillCounts
  simp only
  split
  · -- the mills have been counted, and `endPlacingTurn` counts them again
    rename_i hhands
    obtain ⟨owed, flags, heq, howed, hs, hb⟩ := @applyRemovalBasedOnMillCounts_eq
      r.options _ _ hclear.active
    rw [heq]
    refine BranchDone.turnEnd r (e := c) { hkeeps with }
      { hsane' with pendingRemovals := fun x => (howed x).2 } hpos ?_
    exact
      { active := rfl
        running := hact.running
        undecided := hact.undecided
        noCaptures := capturesEmpty_cleared
        notStalemate := hs.trans hact.notStalemate
        placing := fun _ => hb.trans hact.notBoth
        owed := fun hnot => absurd ⟨hcount, hplacing, Fin.forall_fin_two.2 hhands⟩ hnot }
  · exact passTurn_done r hpos hkeeps hclear hsane'

theorem placeQuiet_done : BranchDone r.options p (r.placeQuiet p) := by
  have hclear := hact.clearCaptureState
  have hkeeps : Keeps r.options p (maybeStopPlacingWhenTwoEmpty p.clearCaptureState r.options) := by
    refine Keeps.of_position rfl rfl (fun x => ?_) rfl rfl rfl rfl rfl (fun _ => rfl) rfl rfl
    simp only [maybeStopPlacingWhenTwoEmpty]
    split
    · exact Nat.zero_le _
    · exact Nat.le_refl _
  have hactq : Acting (maybeStopPlacingWhenTwoEmpty p.clearCaptureState r.options) c :=
    { hclear with }
  have hsaneq : Sane r.options (maybeStopPlacingWhenTwoEmpty p.clearCaptureState r.options) :=
    { hsane.clearCaptureState with }
  unfold MillRules.placeQuiet
  simp only
  split
  · exact BranchDone.turnEnd r hkeeps hsaneq hpos hactq.turnEnd
  · exact passTurn_done r hpos hkeeps hactq hsaneq

theorem placeMill_done (hplacing : p.phase = .placing) (usableBits : Bitboard)
    {custodian intervention : Bitboard}
    (hoffered : Offered r.options p c custodian intervention 0) :
    BranchDone r.options p (r.placeMill p c usableBits custodian intervention) := by
  have hcount := removalCountForBits_bounds usableBits r.options
  unfold MillRules.placeMill
  simp only
  split
  · exact placeHandRemoval_done r hact hpos hsane (by omega)
  · exact placeHandRemoval_done r hact hpos hsane (by omega)
  · exact placeBoardRemoval_done r hact hsane ⟨hcount.1, by omega⟩ hoffered
  · exact placeBoardRemoval_done r hact hsane ⟨hcount.1, by omega⟩ hoffered
  · exact placeBoardRemoval_done r hact hsane ⟨hcount.1, by omega⟩ hoffered
  · rename_i hrule
    exact placeRemovalBasedOnMillCounts_done r hact hpos hsane hrule hplacing

end Rules

/-! ## The branch -/

/-- What the detectors offer, as the place and move branches call them. -/
theorem offered_detected (hactive : p.sideToMove = c.toI8) (target : Node)
    (b1 b2 : Bool) :
    Offered options p c
      (if options.custodianCapture.enabled && b1 then detectCustodianTargets p options target
        else 0)
      (if options.interventionCapture.enabled && b2 then detectInterventionTargets p options target
        else 0) 0 where
  custodianLive i hi := by
    split at hi
    · exact detectCustodianTargets_live hactive hi
    · simp at hi
  interventionLive i hi := by
    split at hi
    · exact detectInterventionTargets_live hactive hi
    · simp at hi
  leapLive i hi := by simp at hi
  rules h1 h2 _ := by simp [h1, h2]

/-- **The placing branch**: after the board writes, every rule leaves a sound turn. -/
theorem applyPlace_done {s : MillState} {n : Node} (h : TurnInv s c)
    (hpos : PositionInv r.options s.toMillPosition) (hsane : Sane r.options s)
    (hz : s.pendingRemovals c = 0) (hplacing : s.phase = .placing) (hempty : s.board n = 0)
    (hhand : 0 < s.piecesInHand c) :
    BranchDone r.options (r.placePiece s n c) (r.applyPlace s n) := by
  have hp : PositionInv r.options (r.placePiece s n c).toMillPosition :=
    placePiece_position r hpos hempty hhand
  have hact : Acting (r.placePiece s n c) c := { h.acting hz with }
  have hsane' : Sane r.options (r.placePiece s n c) := { hsane with }
  have hoffered := @offered_detected r.options _ _ hact.active n
    r.options.custodianCapture.inPlacingPhase r.options.interventionCapture.inPlacingPhase
  unfold MillRules.applyPlace
  simp only [h.active, Side.sideIndex_toI8]
  generalize (if (r.options.custodianCapture.enabled
      && r.options.custodianCapture.inPlacingPhase) = true then
    detectCustodianTargets (r.placePiece s n c) r.options n else 0) = custodian at hoffered ⊢
  generalize (if (r.options.interventionCapture.enabled
      && r.options.interventionCapture.inPlacingPhase) = true then
    detectInterventionTargets (r.placePiece s n c) r.options n else 0) = intervention
    at hoffered ⊢
  split
  · exact (placeMill_done r hact hp hsane' hplacing _ hoffered).noteMillFormation c
      nodeOrNone_neg_one (nodeOrNone_toI8 n) _
  · split
    · rename_i hsome
      exact armCapture_done r hact hsane' hsome hoffered
    · exact placeQuiet_done r hact hp hsane'

end Sanmill
