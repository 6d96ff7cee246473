import Sanmill.Proof.Symmetry.Apply

/-!
# One step of an image

Removals, the stalemate rule, and with them the whole apply path: a legal action and its image
carry states in relation to states in relation.
-/

namespace Sanmill

open Bits

variable {t : BoardTransform} {options : MillVariantOptions} {s s' : MillState} {r : MillRules}
  {c : Side}

/-! ## Removals -/

/-- Of at most two targets, the one paired with a removed target is the other one. -/
theorem findPairedInterventionTarget_eq {n : Node} {targets : Bitboard}
    (hpair : countOnes targets ≤ 2) (hmem : testBit targets n = true) :
    findPairedInterventionTarget n targets options = targets &&& ~~~nodeBit n := by
  -- two targets at most, so without the taken one there is one left
  have hother : ∀ m : Node, m ≠ n → testBit targets m = true →
      nodeBit m = targets &&& ~~~nodeBit n := by
    intro m hne hm
    have hsub : ({n.val, m.val} : Finset Nat) ⊆ ones targets := by
      intro i hi
      rcases Finset.mem_insert.1 hi with rfl | hi
      · exact (mem_ones _ _).2 hmem
      · rw [Finset.mem_singleton.1 hi]
        exact (mem_ones _ _).2 hm
    have hcard : (ones targets).card ≤ ({n.val, m.val} : Finset Nat).card := by
      rw [← countOnes_eq_card, Finset.card_pair fun heq => hne (Fin.ext heq.symm)]
      exact hpair
    have hones := Finset.eq_of_subset_of_card_le hsub hcard
    refine testBit_ext fun i _ => ?_
    rw [Bool.eq_iff_iff, testBit_and_not, Bool.and_eq_true, Bool.not_eq_true',
      ← mem_ones targets, ← hones, Finset.mem_insert, Finset.mem_singleton]
    constructor
    · intro hi
      have hval := eq_of_testBit_nodeBit hi
      refine ⟨Or.inr hval, ?_⟩
      rw [hval, testBit_nodeBit, decide_eq_false_iff_not]
      exact fun heq => hne heq.symm
    · intro hi
      rcases hi.1 with rfl | rfl
      · rw [testBit_nodeBit, decide_eq_false_iff_not] at hi
        exact absurd rfl hi.2
      · rw [testBit_nodeBit]
        exact decide_eq_true rfl
  unfold findPairedInterventionTarget
  dsimp only
  cases hscan : (activeCaptureLines options.interventionCapture options).findSome? _ with
  | none => rfl
  | some paired =>
    obtain ⟨line, hline, hfound⟩ := List.exists_of_findSome?_eq_some hscan
    have hends := activeCaptureLines_ends options.interventionCapture options line hline
    split_ifs at hfound with h1 h2
    · obtain rfl := Option.some.inj hfound
      exact hother line.c (by rw [h1.1]; exact hends.symm) h1.2
    · obtain rfl := Option.some.inj hfound
      exact hother line.a (by rw [h2.1]; exact hends) h2.2

namespace StateImage

theorem removalMode_eq (h : StateImage t s s') (c : Side) (n : Node) :
    MillRules.removalMode s' c (nodePerm t n) = MillRules.removalMode s c n := by
  unfold MillRules.removalMode
  rw [(h.captures.interventionTargets c).node, (h.captures.custodianTargets c).node,
    (h.captures.leapTargets c).node, h.captures.interventionCount, h.captures.custodianCount,
    h.captures.leapCount]

theorem commitRemoval (h : StateImage t s s') (hrun : s.phase ≠ .gameOver) (c : Side)
    (mode : MillRules.RemovalMode) :
    StateImage t (r.commitRemoval s c mode) (r.commitRemoval s' c mode) := by
  unfold MillRules.commitRemoval
  cases mode with
  | intervention =>
    have hcleared := ((h.setMillAvailableAtRemoval false).clearCustodian c).clearLeap c
    simp only [hcleared.captures.interventionCount]
    exact (hcleared.setPendingRemovals c rfl).refreshZobristMiscForSide c
  | custodian =>
    exact ((((h.setMillAvailableAtRemoval false).clearIntervention c).clearLeap
      c).setPendingRemovals c rfl).refreshZobristMiscForSide c
  | leap =>
    exact ((((h.setMillAvailableAtRemoval false).clearCustodian c).clearIntervention
      c).setPendingRemovals c rfl).refreshZobristMiscForSide c
  | regular =>
    simp only [h.millAvailable hrun, h.captureTotal, h.pendingRemovals]
    split
    · refine StateImage.setMillAvailableAtRemoval (StateImage.clearCaptureStateForSide ?_ c) true
      split
      · exact (h.setPendingRemovals c rfl).refreshZobristMiscForSide c
      · exact h
    · exact h

/-- Striking a removed piece off; an intervention target is struck off its own record. -/
theorem dischargeRemoval (h : StateImage t s s') (c : Side) (n : Node)
    (mode : MillRules.RemovalMode)
    (hmode : mode = .intervention → testBit (s.interventionTargets c) n = true) :
    StateImage t (r.dischargeRemoval s c n mode) (r.dischargeRemoval s' c (nodePerm t n) mode) := by
  have hstruck : ∀ {m m' : Bitboard} (k : Nat), NodeImage t m m' →
      NodeImage t (if k = 0 then 0 else m &&& ~~~nodeBit n)
        (if k = 0 then 0 else m' &&& ~~~nodeBit (nodePerm t n)) := by
    intro m m' k hm
    split
    · exact nodeImage_zero t
    · exact hm.andNot (nodeImage_nodeBit n)
  unfold MillRules.dischargeRemoval
  cases mode with
  | custodian =>
    simp only [h.captures.custodianCount]
    exact
      { h with
        captures :=
          { h.captures with
            custodianTargets := setAt_mask_image h.captures.custodianTargets c
              (hstruck _ (h.captures.custodianTargets c))
            custodianCount := rfl } }
  | leap =>
    simp only [h.captures.leapCount]
    exact
      { h with
        captures :=
          { h.captures with
            leapTargets := setAt_mask_image h.captures.leapTargets c
              (hstruck _ (h.captures.leapTargets c))
            leapCount := rfl } }
  | intervention =>
    have hset := hmode rfl
    have hset' : testBit (s'.interventionTargets c) (nodePerm t n) = true := by
      rw [(h.captures.interventionTargets c).node, hset]
    have hpair := h.captures.pair c
    have hpair' : countOnes (s'.interventionTargets c) ≤ 2 := by
      rw [(h.captures.interventionTargets c).countOnes_eq]
      exact hpair
    -- putting the removed target back gives the record before the removal
    have hback : ∀ {m : Bitboard} {k : Node}, testBit m k = true →
        (m &&& ~~~nodeBit k) ||| nodeBit k = m := by
      intro m k hk
      refine testBit_ext fun i _ => ?_
      rw [testBit_or, testBit_and_not]
      by_cases hik : testBit (nodeBit k) i = true
      · rw [hik, eq_of_testBit_nodeBit hik, hk]
        rfl
      · rw [Bool.not_eq_true] at hik
        rw [hik, Bool.not_false, Bool.and_true, Bool.or_false]
    simp only [h.captures.interventionCount, hback hset, hback hset',
      findPairedInterventionTarget_eq hpair hset, findPairedInterventionTarget_eq hpair' hset']
    exact
      { h with
        captures :=
          { h.captures with
            interventionTargets := setAt_mask_image h.captures.interventionTargets c
              (hstruck _ (h.captures.interventionTargets c))
            interventionCount := rfl
            pair := setAt_pair h.captures.pair c (by
              split
              · exact countOnes_zero_le
              · refine le_trans (countOnes_le_of_subset _ _ fun i hi => ?_) hpair
                rw [testBit_and_not, Bool.and_eq_true] at hi
                exact hi.1) } }
  | regular => exact h

theorem takePiece_captures (u : MillState) (n : Node) (c : Side) (mark : Bool) :
    (r.takePiece u n c mark).toMillCaptures = u.toMillCaptures := by
  cases mark <;> rfl

theorem removePiece (h : StateImage t s s') (hrun : s.phase ≠ .gameOver) (n : Node)
    (c targetColor : Side) (own : Bool) :
    StateImage t (r.removePiece s n c targetColor own)
      (r.removePiece s' (nodePerm t n) c targetColor own) := by
  have hcommitted := h.commitRemoval (r := r) hrun c (MillRules.removalMode s c n)
  -- committing to an intervention keeps its record
  have hmode : MillRules.removalMode s c n = .intervention →
      testBit ((r.commitRemoval s c (MillRules.removalMode s c n)).interventionTargets c) n
        = true := by
    intro hmode
    rw [hmode]
    unfold MillRules.removalMode at hmode
    split at hmode
    · rename_i hset
      exact hset.1
    · split_ifs at hmode
  unfold MillRules.removePiece
  simp only [h.removalMode_eq, hcommitted.phase]
  generalize r.commitRemoval s c (MillRules.removalMode s c n) = u at hcommitted hmode ⊢
  generalize r.commitRemoval s' c (MillRules.removalMode s c n) = u' at hcommitted ⊢
  have htaken := hcommitted.takePiece (r := r) n targetColor
    (decide (r.options.millFormationActionInPlacingPhase = .markAndDelayRemovingPieces
      ∧ u.phase = .placing ∧ (!own) = true))
  have hkept := takePiece_captures (r := r) u n targetColor
    (decide (r.options.millFormationActionInPlacingPhase = .markAndDelayRemovingPieces
      ∧ u.phase = .placing ∧ (!own) = true))
  generalize r.takePiece u n targetColor (decide (r.options.millFormationActionInPlacingPhase
    = .markAndDelayRemovingPieces ∧ u.phase = .placing ∧ (!own) = true)) = q at htaken hkept ⊢
  generalize r.takePiece u' (nodePerm t n) targetColor
    (decide (r.options.millFormationActionInPlacingPhase
    = .markAndDelayRemovingPieces ∧ u.phase = .placing ∧ (!own) = true)) = q' at htaken ⊢
  refine StateImage.forgetHistory (StateImage.dischargeRemoval (StateImage.refreshZobristMiscForSide
    (StateImage.setPendingRemovals (StateImage.setOnBoard htaken ?_) c ?_) c) c n _ fun hm => ?_)
  · rw [htaken.position.onBoard]
  · rw [htaken.pendingRemovals]
  · exact (congrArg (fun k : MillCaptures => testBit (k.interventionTargets c) n) hkept).trans
      (hmode hm)

/-- Two presentations in which some side is about to end its turn. -/
structure Ending (r : MillRules) (t : BoardTransform) (s s' : MillState) : Prop where
  image : StateImage t s s'
  active : ∃ e : Side, s.sideToMove = e.toI8
  running : s.phase ≠ .gameOver
  position : PositionInv r.options s.toMillPosition
  position' : PositionInv r.options s'.toMillPosition

theorem Ending.ite {p : Prop} [Decidable p] {u u' v v' : MillState} (hu : Ending r t u u')
    (hv : Ending r t v v') : Ending r t (if p then u else v) (if p then u' else v') := by
  split
  · exact hu
  · exact hv

/-- The end of a removal: the last flags fall and the turn passes. -/
theorem finishRemovals (h : StateImage t s s') (hactive : s.sideToMove = c.toI8)
    (hrun : s.phase ≠ .gameOver) (hpos : PositionInv r.options s.toMillPosition)
    (hpos' : PositionInv r.options s'.toMillPosition) (own : Bool) :
    StateImage t (r.finishRemovals s c own) (r.finishRemovals s' c own) := by
  have hcleared := h.clearCaptureStateForSide c
  have hown : Ending r t
      (if own = true then (s.clearCaptureStateForSide c).setRemoveOwnPiece c false
        else s.clearCaptureStateForSide c)
      (if own = true then (s'.clearCaptureStateForSide c).setRemoveOwnPiece c false
        else s'.clearCaptureStateForSide c) :=
    .ite ⟨hcleared.setRemoveOwnPiece c false, ⟨c, hactive⟩, hrun, hpos, hpos'⟩
      ⟨hcleared, ⟨c, hactive⟩, hrun, hpos, hpos'⟩
  unfold MillRules.finishRemovals
  dsimp only
  -- generalised, so that every later test is about the flags of one state
  generalize (if own = true then (s.clearCaptureStateForSide c).setRemoveOwnPiece c false
    else s.clearCaptureStateForSide c) = u at hown ⊢
  generalize (if own = true then (s'.clearCaptureStateForSide c).setRemoveOwnPiece c false
    else s'.clearCaptureStateForSide c) = u' at hown ⊢
  have hside : Ending r t
      (if u.flags.stalemateRemoving = true then u.setStalemateRemoving false
        else { u with sideToMove := xorOne u.sideToMove })
      (if u.flags.stalemateRemoving = true then u'.setStalemateRemoving false
        else { u' with sideToMove := xorOne u'.sideToMove }) := by
    obtain ⟨hu, ⟨e, hactive⟩, hrun, hpos, hpos'⟩ := hown
    refine .ite ⟨hu.setStalemateRemoving false, ⟨e, hactive⟩, hrun, hpos, hpos'⟩
      ⟨hu.setSide (by rw [hu.sideToMove]), ⟨e.opponent, ?_⟩, hrun, hpos, hpos'⟩
    exact (congrArg xorOne hactive).trans (Side.xorOne_toI8 e)
  simp only [hown.image.flags.stalemateRemoving]
  generalize (if u.flags.stalemateRemoving = true then u.setStalemateRemoving false
    else { u with sideToMove := xorOne u.sideToMove }) = v at hside ⊢
  generalize (if u.flags.stalemateRemoving = true then u'.setStalemateRemoving false
    else { u' with sideToMove := xorOne u'.sideToMove }) = v' at hside ⊢
  have hboth : Ending r t
      (if v.flags.bothStalemateRemoving = true ∧ v.pendingRemovals 0 = 0
          ∧ v.pendingRemovals 1 = 0 then v.setBothStalemateRemoving false else v)
      (if v.flags.bothStalemateRemoving = true ∧ v.pendingRemovals 0 = 0
          ∧ v.pendingRemovals 1 = 0 then v'.setBothStalemateRemoving false else v') :=
    .ite ⟨hside.image.setBothStalemateRemoving false, hside.active, hside.running, hside.position,
      hside.position'⟩ hside
  simp only [hside.image.flags.bothStalemateRemoving, hside.image.pendingRemovals]
  generalize (if v.flags.bothStalemateRemoving = true ∧ v.pendingRemovals 0 = 0
    ∧ v.pendingRemovals 1 = 0 then v.setBothStalemateRemoving false else v) = w at hboth ⊢
  generalize (if v.flags.bothStalemateRemoving = true ∧ v.pendingRemovals 0 = 0
    ∧ v.pendingRemovals 1 = 0 then v'.setBothStalemateRemoving false else v') = w' at hboth ⊢
  have hfull : Ending r t
      (if w.flags.boardFullRemoving = true ∧ w.pendingRemovals 0 = 0
          ∧ w.pendingRemovals 1 = 0 then w.setBoardFullRemoving false else w)
      (if w.flags.boardFullRemoving = true ∧ w.pendingRemovals 0 = 0
          ∧ w.pendingRemovals 1 = 0 then w'.setBoardFullRemoving false else w') :=
    .ite ⟨hboth.image.setBoardFullRemoving false, hboth.active, hboth.running, hboth.position,
      hboth.position'⟩ hboth
  simp only [hboth.image.flags.boardFullRemoving, hboth.image.pendingRemovals]
  exact hfull.image.endPlacingTurn hfull.active hfull.running hfull.position hfull.position'

/-- **A removal on the image node.** -/
theorem applyRemove (h : StateImage t s s') (hturn : TurnInv s c) (hturn' : TurnInv s' c)
    (hinv : StateInv r.options s) (hinv' : StateInv r.options s') {n : Node}
    (hlive : testBit (s.byColorBb (removalTarget s c)) n = true) :
    StateImage t (r.applyRemove s n) (r.applyRemove s' (nodePerm t n)) := by
  have hcolor : removalTarget s' c = removalTarget s c := by
    unfold removalTarget
    rw [h.flags.removeOwnPiece]
  obtain ⟨k, owed, flags, mark, heq, -⟩ :=
    removePiece_spec r hturn.record hinv.sane (n := n) (removalTarget s c)
      (s.flags.removeOwnPiece c)
  obtain ⟨k', owed', flags', mark', heq', -⟩ := removePiece_spec r hturn'.record hinv'.sane
    (n := nodePerm t n) (removalTarget s c) (s.flags.removeOwnPiece c)
  have htaken := takeCounted_position r hinv.position hlive mark
  have htaken' : PositionInv r.options
      (takeCounted r s' (nodePerm t n) (removalTarget s c) mark').toMillPosition := by
    refine takeCounted_position r hinv'.position ?_ mark'
    rw [(h.position.color _).node, hlive]
  have hremoved := h.removePiece (r := r) hturn.not_over n c (removalTarget s c)
    (s.flags.removeOwnPiece c)
  have hside : (r.removePiece s n c (removalTarget s c) (s.flags.removeOwnPiece c)).sideToMove
      = c.toI8 := by
    rw [heq]
    exact hturn.active
  have hrun : (r.removePiece s n c (removalTarget s c) (s.flags.removeOwnPiece c)).phase
      ≠ .gameOver := by
    rw [heq]
    exact hturn.not_over
  have hpos : PositionInv r.options
      (r.removePiece s n c (removalTarget s c) (s.flags.removeOwnPiece c)).toMillPosition := by
    rw [heq]
    exact htaken
  have hpos' : PositionInv r.options (r.removePiece s' (nodePerm t n) c (removalTarget s c)
      (s.flags.removeOwnPiece c)).toMillPosition := by
    rw [heq']
    exact htaken'
  unfold MillRules.applyRemove
  simp only [hturn.active, hturn'.active, Side.sideIndex_toI8, Side.xorOne_toI8,
    h.flags.removeOwnPiece]
  rw [show (if s.flags.removeOwnPiece c = true then c else c.opponent) = removalTarget s c from rfl]
  -- generalised: only what was shown of the position after the removal is used
  generalize r.removePiece s n c (removalTarget s c) (s.flags.removeOwnPiece c) = p at *
  generalize r.removePiece s' (nodePerm t n) c (removalTarget s c) (s.flags.removeOwnPiece c) = p'
    at *
  simp only [hremoved.position.onBoard, hremoved.position.inHand, hremoved.pendingRemovals,
    hremoved.sideToMove]
  split
  · exact hremoved.finishGame _ _
  · split
    · exact hremoved.finishRemovals hside hrun hpos hpos' _
    · exact hremoved

/-! ## Stalemate -/

theorem isStalemated_eq (h : StateImage t s s') :
    isStalemated s' options = isStalemated s options := by
  unfold isStalemated
  simp only [h.phase, h.sideToMove, h.pendingRemovals, h.position.onBoard,
    (h.legalImage options).isAllSurrounded_eq]

theorem applyStalemateAction (h : StateImage t s s') :
    StateImage t (Sanmill.applyStalemateAction s options)
      (Sanmill.applyStalemateAction s' options) := by
  unfold Sanmill.applyStalemateAction
  simp only [h.sideToMove]
  cases options.stalemateAction with
  | endWithStalemateLoss =>
    exact
      { h with
        sideToMove := rfl
        phase := rfl
        winner := rfl
        outcomeReason := rfl
        millAvailable := fun hrun => absurd rfl hrun }
  | changeSideToMove => exact (h.setSide rfl).syncPhaseWithActiveHand
  | removeOpponentsPieceAndMakeNextMove =>
    exact ((h.setPendingRemovals _ rfl).setStalemateRemoving true).clearCaptureState
  | removeOpponentsPieceAndChangeSideToMove =>
    exact (h.setPendingRemovals _ rfl).clearCaptureState
  | endWithStalemateDraw =>
    exact
      { h with
        sideToMove := rfl
        phase := rfl
        winner := rfl
        outcomeReason := rfl
        millAvailable := fun hrun => absurd rfl hrun }
  | bothPlayersRemoveOpponentsPiece =>
    exact (((h.setPendingRemovals _ rfl).setPendingRemovals _ rfl).setBothStalemateRemoving
      true).clearCaptureState

theorem maybeHandleStalemate (h : StateImage t s s') :
    StateImage t (Sanmill.maybeHandleStalemate s options).1
      (Sanmill.maybeHandleStalemate s' options).1 := by
  unfold Sanmill.maybeHandleStalemate
  rw [h.isStalemated_eq]
  split
  · exact h.applyStalemateAction.syncActionState
  · exact h

/-! ## The apply path -/

theorem applyBranch (h : StateImage t s s') (hinv : StateInv r.options s)
    (hinv' : StateInv r.options s') (hturn : TurnInv s c) (hturn' : TurnInv s' c) {a : Action}
    (hstep : LegalStep r.options s c a) {adjudicate : Bool}
    (hclock : SameClock r.options adjudicate s s') (ctx ctx' : MillRules.KeyContext) :
    StateImage t (r.applyBranch s ctx a adjudicate).1
      (r.applyBranch s' ctx' (transformAction t a) adjudicate).1 := by
  have hnone := hinv.sane.preferredRemoveTarget
  have hnone' := hinv'.sane.preferredRemoveTarget
  cases hstep with
  | place n _ _ hhand hempty =>
    rw [transformAction_place, applyBranch_place, applyBranch_place]
    exact h.applyPlace hturn.active hturn.not_over hinv.position hinv'.position hnone hnone' hempty
      hhand
  | move source target _ _ _ hlive hempty _ =>
    rw [transformAction_move, applyBranch_move, applyBranch_move]
    exact h.applyMove hturn.active hinv.position hinv'.position hnone hnone' hlive hempty hclock _ _
      _ _
  | remove n _ hlive _ =>
    rw [transformAction_remove, applyBranch_remove, applyBranch_remove]
    exact h.applyRemove hturn hturn' hinv hinv' hlive

theorem applyGeneral (h : StateImage t s s') (hinv : StateInv r.options s)
    (hinv' : StateInv r.options s') (hturn : TurnInv s c) (hturn' : TurnInv s' c) {a : Action}
    (hstep : LegalStep r.options s c a) {adjudicate : Bool}
    (hclock : SameClock r.options adjudicate s s') :
    StateImage t (r.applyGeneral s a adjudicate)
      (r.applyGeneral s' (transformAction t a) adjudicate) := by
  obtain ⟨key, heq⟩ := applyGeneral_eq r s a adjudicate
  obtain ⟨key', heq'⟩ := applyGeneral_eq r s' (transformAction t a) adjudicate
  rw [heq, heq']
  exact ((h.applyBranch hinv hinv' hturn hturn' hstep hclock _ _).maybeHandleStalemate).withHistory
    _ _ _ _

end StateImage

end Sanmill
