import Sanmill.Proof.Symmetry.State

/-!
# Applying an action to an image

The branches of the apply path carry states in relation to states in relation, hence so does
`applyToStateUnchecked`.

What an action exposes and what it completes is carried along. The intervention rule scans its
lines in a fixed order and stops at the first hit, and the scan of one presentation is not the
image of the other's; but a node is the middle of one line of each kind at most, so both scans
hit the same line.
-/

namespace Sanmill

open Bits

variable {t : BoardTransform} {options : MillVariantOptions} {s s' : MillState} {c : Side}

/-! ## Lines through a node -/

/-- A node is the middle of at most one line of the family. -/
def MiddlesDistinct (lines : List Line) : Prop :=
  ∀ l ∈ lines, ∀ l' ∈ lines, l.b = l'.b → l = l'

instance (lines : List Line) : Decidable (MiddlesDistinct lines) :=
  inferInstanceAs (Decidable (∀ l ∈ lines, ∀ l' ∈ lines, l.b = l'.b → l = l'))

theorem middlesDistinct_ite {lines : List Line} (h : MiddlesDistinct lines) (p : Prop)
    [Decidable p] : MiddlesDistinct (if p then lines else []) := by
  split
  · exact h
  · intro l hl
    exact absurd hl List.not_mem_nil

/-- Two scans for the line with a given middle find corresponding lines, or none. -/
theorem find_image {lines : List Line} (hclosed : LinesClosed lines)
    (hmiddles : MiddlesDistinct lines) {P P' : Line → Bool}
    (hP : ∀ l l', LineImage t l l' → P' l' = P l) {target : Node}
    (hmiddle : ∀ l, P' l = true → l.b = nodePerm t target) :
    Option.Rel (LineImage t) (lines.find? P) (lines.find? P') := by
  cases hfind : lines.find? P with
  | none =>
    have hnone : lines.find? P' = none := by
      rw [List.find?_eq_none] at hfind ⊢
      intro l' hl'
      obtain ⟨l, hl, himage⟩ := hclosed.onto t hl'
      rw [hP l l' himage]
      exact hfind l hl
    rw [hnone]
    exact .none
  | some l =>
    obtain ⟨l', hl', himage⟩ := hclosed t l (List.mem_of_find?_eq_some hfind)
    have hhit : P' l' = true := (hP l l' himage).trans (List.find?_some hfind)
    cases hfind' : lines.find? P' with
    | none =>
      rw [List.find?_eq_none] at hfind'
      exact absurd hhit (hfind' l' hl')
    | some l'' =>
      have hsame : l'' = l' := hmiddles l'' (List.mem_of_find?_eq_some hfind') l' hl'
        ((hmiddle l'' (List.find?_some hfind')).trans (hmiddle l' hhit).symm)
      rw [hsame]
      exact .some himage

theorem optionRel_or {α β : Type} {R : α → β → Prop} {x y : Option α} {x' y' : Option β}
    (h : Option.Rel R x x') (h' : Option.Rel R y y') : Option.Rel R (x.or y) (x'.or y') := by
  cases h with
  | none => exact h'
  | some hxy => exact .some hxy

/-- The scan over all active lines, kind by kind. -/
theorem find_active_image (config : CaptureRuleConfig) {P P' : Line → Bool}
    (hP : ∀ l l', LineImage t l l' → P' l' = P l) {target : Node}
    (hmiddle : ∀ l, P' l = true → l.b = nodePerm t target) :
    Option.Rel (LineImage t) ((activeCaptureLines config options).find? P)
      ((activeCaptureLines config options).find? P') := by
  have hcross : MiddlesDistinct captureCrossLines := by decide
  have hedge : MiddlesDistinct captureSquareEdgeLines := by decide
  have hdiagonal : MiddlesDistinct captureDiagonalLines := by decide
  obtain ⟨hcrossClosed, hedgeClosed, hdiagonalClosed⟩ := captureLines_closed
  unfold activeCaptureLines
  rw [List.find?_append, List.find?_append, List.find?_append, List.find?_append]
  refine optionRel_or (optionRel_or ?_ ?_) ?_
  · exact find_image (linesClosed_ite hcrossClosed _) (middlesDistinct_ite hcross _) hP hmiddle
  · exact find_image (linesClosed_ite hedgeClosed _) (middlesDistinct_ite hedge _) hP hmiddle
  · exact find_image (linesClosed_ite hdiagonalClosed _) (middlesDistinct_ite hdiagonal _) hP
      hmiddle

theorem LineImage.endsMask {l l' : Line} (h : LineImage t l l') :
    NodeImage t l.endsMask l'.endsMask := by
  obtain ⟨-, hends⟩ := h
  unfold Line.endsMask
  rcases hends with ⟨ha, hc⟩ | ⟨ha, hc⟩
  · rw [ha, hc]
    exact (nodeImage_nodeBit l.a).or (nodeImage_nodeBit l.c)
  · rw [ha, hc, BitVec.or_comm (nodeBit (nodePerm t l.c))]
    exact (nodeImage_nodeBit l.a).or (nodeImage_nodeBit l.c)

theorem middleTargets_eq_union (lines : List Line) (opponentBb : Bitboard) (takes : Line → Bool) :
    middleTargets lines opponentBb takes
      = union ((lines.filter fun l => takes l && testBit opponentBb l.b).map fun l =>
          nodeBit l.b) := by
  unfold middleTargets union
  rw [List.foldl_map, List.foldl_filter]
  rfl

theorem middleTargets_image {lines : List Line} (hclosed : LinesClosed lines)
    {bb bb' : Bitboard} (hbb : NodeImage t bb bb') {takes takes' : Line → Bool}
    (htakes : ∀ l l', LineImage t l l' → takes' l' = takes l) :
    NodeImage t (middleTargets lines bb takes) (middleTargets lines bb' takes') := by
  have hkeep : ∀ l l', LineImage t l l' →
      (takes' l' && testBit bb' l'.b) = (takes l && testBit bb l.b) := by
    intro l l' himage
    rw [htakes l l' himage, himage.1, hbb.node]
  rw [middleTargets_eq_union, middleTargets_eq_union]
  refine MaskImage.union (fun m hm => ?_) fun m' hm' => ?_
  · obtain ⟨l, hl, rfl⟩ := List.mem_map.1 hm
    obtain ⟨hmem, hl⟩ := List.mem_filter.1 hl
    obtain ⟨l', hl', himage⟩ := hclosed t l hmem
    refine ⟨nodeBit l'.b, List.mem_map_of_mem (List.mem_filter.2 ⟨hl', ?_⟩), ?_⟩
    · exact (hkeep l l' himage).trans hl
    · rw [himage.1]
      exact nodeImage_nodeBit l.b
  · obtain ⟨l', hl', rfl⟩ := List.mem_map.1 hm'
    obtain ⟨hmem, hl'⟩ := List.mem_filter.1 hl'
    obtain ⟨l, hl, himage⟩ := hclosed.onto t hmem
    refine ⟨nodeBit l.b, List.mem_map_of_mem (List.mem_filter.2 ⟨hl, ?_⟩), ?_⟩
    · exact (hkeep l l' himage).symm.trans hl'
    · rw [himage.1]
      exact nodeImage_nodeBit l.b

namespace StateImage

variable (h : StateImage t s s')
include h

/-! ## Detection -/

theorem opponentPiece_eq : s'.opponentPiece = s.opponentPiece := by
  unfold MillState.opponentPiece
  rw [h.sideToMove]

theorem filterCaptureTargets {m m' : Bitboard} (hm : NodeImage t m m') :
    NodeImage t (Sanmill.filterCaptureTargets s options m)
      (Sanmill.filterCaptureTargets s' options m') := by
  have hopp := h.position.pieceBitboard s.opponentPiece
  have hmembers : NodeImage t (millMembersMaskForPiece s options s.opponentPiece)
      (millMembersMaskForPiece s' options s.opponentPiece) :=
    millMembersMaskForPiece_image h.position s.opponentPiece
  have hfree : s.pieceBitboard s.opponentPiece
        &&& ~~~millMembersMaskForPiece s options s.opponentPiece = 0
      ↔ s'.pieceBitboard s.opponentPiece
        &&& ~~~millMembersMaskForPiece s' options s.opponentPiece = 0 :=
    (hopp.andNot hmembers).eq_zero_iff
  unfold Sanmill.filterCaptureTargets
  simp only [h.opponentPiece_eq]
  split
  · exact hm.and hopp
  · simp only [← hfree]
    split
    · exact hm.and hopp
    · exact (hm.and hopp).andNot hmembers

theorem capturePieceCountAllowed_eq (config : CaptureRuleConfig) :
    capturePieceCountAllowed config s' = capturePieceCountAllowed config s := by
  unfold capturePieceCountAllowed
  rw [h.phase, h.sideToMove, h.position.onBoard]

theorem capturePieceCountAllowedLeap_eq (config : CaptureRuleConfig) :
    capturePieceCountAllowedLeap config s' = capturePieceCountAllowedLeap config s := by
  unfold capturePieceCountAllowedLeap
  rw [h.sideToMove, h.position.onBoard]

theorem detectCustodianTargets (target : Node) :
    NodeImage t (Sanmill.detectCustodianTargets s options target)
      (Sanmill.detectCustodianTargets s' options (nodePerm t target)) := by
  unfold Sanmill.detectCustodianTargets
  simp only [h.phase, h.capturePieceCountAllowed_eq, h.opponentPiece_eq, h.sideToMove]
  split
  · exact nodeImage_zero t
  · refine h.filterCaptureTargets (middleTargets_image
      (activeCaptureLines_closed options.custodianCapture options)
      (h.position.pieceBitboard s.opponentPiece) fun l l' himage => ?_)
    have hus := h.position.pieceBitboard (s.sideToMove + 1)
    rcases himage.2 with ⟨ha, hc⟩ | ⟨ha, hc⟩
    · rw [ha, hc, hus.node, hus.node]
      simp only [(nodePerm t).injective.eq_iff]
    · rw [ha, hc, hus.node, hus.node, Bool.or_comm]
      simp only [(nodePerm t).injective.eq_iff]

theorem detectLeapTargets (source target : Node) :
    NodeImage t (Sanmill.detectLeapTargets s options source target)
      (Sanmill.detectLeapTargets s' options (nodePerm t source) (nodePerm t target)) := by
  unfold Sanmill.detectLeapTargets
  simp only [h.phase, h.capturePieceCountAllowedLeap_eq, h.opponentPiece_eq]
  split
  · exact nodeImage_zero t
  · refine h.filterCaptureTargets (middleTargets_image
      (activeCaptureLines_closed options.leapCapture options)
      (h.position.pieceBitboard s.opponentPiece) fun l l' himage => ?_)
    rcases himage.2 with ⟨ha, hc⟩ | ⟨ha, hc⟩
    · rw [ha, hc]
      simp only [(nodePerm t).injective.eq_iff]
    · rw [ha, hc, Bool.or_comm]
      simp only [(nodePerm t).injective.eq_iff]

omit h in
/-- Without a preferred removal the first intervention line counts. -/
theorem detectInterventionTargets_eq (hnone : s.preferredRemoveTarget = -1) (target : Node) :
    Sanmill.detectInterventionTargets s options target
      = if !capturePhaseAllowed options.interventionCapture s.phase
            || !capturePieceCountAllowed options.interventionCapture s then 0
        else match (activeCaptureLines options.interventionCapture options).find? fun line =>
            target = line.b && testBit (s.pieceBitboard s.opponentPiece) line.a
              && testBit (s.pieceBitboard s.opponentPiece) line.c with
          | none => 0
          | some line => Sanmill.filterCaptureTargets s options line.endsMask := by
  have hpreferred : boardNode? (-1) = none := rfl
  unfold Sanmill.detectInterventionTargets interventionLines
  cases hfind : (activeCaptureLines options.interventionCapture options).find? fun line =>
      target = line.b && testBit (s.pieceBitboard s.opponentPiece) line.a
        && testBit (s.pieceBitboard s.opponentPiece) line.c with
  | none => simp only [hnone, hpreferred, List.head?_filter, Option.none_or, hfind]
  | some line => simp only [hnone, hpreferred, List.head?_filter, Option.none_or, hfind]

theorem detectInterventionTargets (hnone : s.preferredRemoveTarget = -1)
    (hnone' : s'.preferredRemoveTarget = -1) (target : Node) :
    NodeImage t (Sanmill.detectInterventionTargets s options target)
      (Sanmill.detectInterventionTargets s' options (nodePerm t target)) := by
  rw [detectInterventionTargets_eq hnone, detectInterventionTargets_eq hnone']
  simp only [h.phase, h.capturePieceCountAllowed_eq, h.opponentPiece_eq]
  split
  · exact nodeImage_zero t
  · have hopp := h.position.pieceBitboard s.opponentPiece
    have hscan : Option.Rel (LineImage t)
        ((activeCaptureLines options.interventionCapture options).find? fun line =>
          target = line.b && testBit (s.pieceBitboard s.opponentPiece) line.a
            && testBit (s.pieceBitboard s.opponentPiece) line.c)
        ((activeCaptureLines options.interventionCapture options).find? fun line =>
          nodePerm t target = line.b && testBit (s'.pieceBitboard s.opponentPiece) line.a
            && testBit (s'.pieceBitboard s.opponentPiece) line.c) :=
      find_active_image options.interventionCapture (fun l l' himage => by
        rcases himage.2 with ⟨ha, hc⟩ | ⟨ha, hc⟩
        · simp only [himage.1, ha, hc, hopp.node, (nodePerm t).injective.eq_iff]
        · simp only [himage.1, ha, hc, hopp.node, (nodePerm t).injective.eq_iff, Bool.and_assoc,
            Bool.and_comm (testBit (s.pieceBitboard s.opponentPiece) l.c)])
      (fun l hl => by
        simp only [Bool.and_eq_true, decide_eq_true_eq] at hl
        exact hl.1.1.symm)
    generalize (activeCaptureLines options.interventionCapture options).find? _ = found at hscan ⊢
    generalize (activeCaptureLines options.interventionCapture options).find? _ = found' at hscan ⊢
    cases hscan with
    | none => exact nodeImage_zero t
    | some himage => exact h.filterCaptureTargets himage.endsMask

omit h in
/-- One line is chosen, so two targets at most are exposed. -/
theorem detectInterventionTargets_pair (hactive : s.sideToMove = c.toI8)
    (hnone : s.preferredRemoveTarget = -1) (target : Node) :
    countOnes (Sanmill.detectInterventionTargets s options target) ≤ 2 := by
  have hends : ∀ line : Line, countOnes line.endsMask ≤ 2 := by
    intro line
    have hone : ∀ n : Node, (ones (nodeBit n)).card = 1 := by
      intro n
      rw [nodeBit, ones_bit (by omega), Finset.card_singleton]
    unfold Line.endsMask
    rw [countOnes_eq_card, ones_or]
    refine le_trans (Finset.card_union_le _ _) ?_
    rw [hone, hone]
  rw [detectInterventionTargets_eq hnone]
  split
  · exact countOnes_zero_le
  · split
    · exact countOnes_zero_le
    · exact le_trans
        (countOnes_le_of_subset _ _ fun i hi => (testBit_filterCaptureTargets hactive hi).1)
        (hends _)

end StateImage

/-! ## The branches -/

variable {r : MillRules}

theorem totalMillsCount_image (h : PositionImage t s.toMillPosition s'.toMillPosition)
    (side : Int) : totalMillsCount s' options side = totalMillsCount s options side := by
  have hcount : ∀ u : MillState, totalMillsCount u options side
      = (millLineMasks options).countP fun m =>
          (maskNodes m).all fun n => decide (u.livePiece n = side + 1) := by
    intro u
    unfold totalMillsCount millLineMasks
    rw [List.countP_map]
    refine List.countP_congr fun line _ => ?_
    have hnodes : ∀ n, n ∈ maskNodes line.mask ↔ n ∈ line.nodes := by
      intro n
      rw [mem_maskNodes]
      unfold Line.mask Line.nodes
      simp only [testBit_or, testBit_nodeBit, Bool.or_eq_true, decide_eq_true_eq, List.mem_cons,
        List.not_mem_nil, or_false, eq_comm (a := n), or_assoc]
    simp only [Function.comp_apply, List.all_eq_true, hnodes]
  rw [hcount, hcount]
  refine countP_lineMasks_image (t := t) fun m m' himage => ?_
  rw [Bool.eq_iff_iff, List.all_eq_true, List.all_eq_true]
  constructor
  · intro hall n hn
    have hn' := hall _ ((mem_maskNodes_image himage n).2 hn)
    rwa [h.livePiece] at hn'
  · intro hall n' hn'
    obtain ⟨n, rfl⟩ := (nodePerm t).surjective n'
    rw [h.livePiece]
    exact hall n ((mem_maskNodes_image himage n).1 hn')

/-- What an adjudicated move needs: no repetition rule, and the same inactivity count. -/
def SameClock (options : MillVariantOptions) (adjudicate : Bool) (s s' : MillState) : Prop :=
  adjudicate = true →
    options.threefoldRepetitionRule = false ∧ s'.plySinceCapture = s.plySinceCapture

namespace StateImage

/-! ## The end of the placing phase -/

theorem sweepMarkedPieces (h : StateImage t s s') (hpos : PositionInv options s.toMillPosition)
    (hpos' : PositionInv options s'.toMillPosition) :
    StateImage t (Sanmill.sweepMarkedPieces s) (Sanmill.sweepMarkedPieces s') := by
  have hswept : ∀ n, sweptBoard s'.toMillPosition (nodePerm t n)
      = sweptBoard s.toMillPosition n := by
    intro n
    unfold sweptBoard
    rw [h.position.marks.node, h.position.board]
  rw [sweepMarkedPieces_eq hpos, sweepMarkedPieces_eq hpos']
  exact
    { h with
      position :=
        { h.position with
          board := hswept
          marks := nodeImage_zero t } }

theorem applyRemovalBasedOnMillCounts (h : StateImage t s s') :
    StateImage t (Sanmill.applyRemovalBasedOnMillCounts s options)
      (Sanmill.applyRemovalBasedOnMillCounts s' options) := by
  have hwhite : totalMillsCount s' options 0 = totalMillsCount s options 0 :=
    totalMillsCount_image h.position 0
  have hblack : totalMillsCount s' options 1 = totalMillsCount s options 1 :=
    totalMillsCount_image h.position 1
  unfold Sanmill.applyRemovalBasedOnMillCounts
  simp only [hwhite, hblack]
  have howing := (h.setRemoveOwnPieces fun _ => decide (totalMillsCount s options 0 = 0
    ∧ totalMillsCount s options 1 = 0)).setOwed (perSide
      (removalsForMillCounts (totalMillsCount s options 0) (totalMillsCount s options 1)).1
      (removalsForMillCounts (totalMillsCount s options 0) (totalMillsCount s options 1)).2)
  have hcounted := howing.refreshZobristMiscForActiveSide
  refine StateImage.setMillAvailableAtRemoval (hcounted.setSide ?_) _
  simp only [hcounted.sideToMove, hcounted.pendingRemovals]

theorem enterMovingPhase (h : StateImage t s s') (hrun : s.phase ≠ .gameOver)
    (hpos : PositionInv options s.toMillPosition)
    (hpos' : PositionInv options s'.toMillPosition) :
    StateImage t (Sanmill.enterMovingPhase s options) (Sanmill.enterMovingPhase s' options) := by
  have hsweep := sweepMarkedPieces (h.setPhase hrun .moving) hpos hpos'
  unfold Sanmill.enterMovingPhase
  dsimp only
  generalize Sanmill.sweepMarkedPieces { s with phase := .moving } = u at hsweep ⊢
  generalize Sanmill.sweepMarkedPieces { s' with phase := .moving } = u' at hsweep ⊢
  have hcounts : StateImage t
      (if decide (options.millFormationActionInPlacingPhase = .removalBasedOnMillCounts) = true
        then Sanmill.applyRemovalBasedOnMillCounts u options else u)
      (if decide (options.millFormationActionInPlacingPhase = .removalBasedOnMillCounts) = true
        then Sanmill.applyRemovalBasedOnMillCounts u' options else u') := by
    split
    · exact hsweep.applyRemovalBasedOnMillCounts
    · exact hsweep
  split
  · split
    · exact hcounts.setSide rfl
    · exact hcounts
  · exact hcounts.setSide rfl

theorem maybeTransitionToMoving (h : StateImage t s s')
    (hactive : ∃ e : Side, s.sideToMove = e.toI8)
    (hrun : s.phase ≠ .gameOver) (hpos : PositionInv options s.toMillPosition)
    (hpos' : PositionInv options s'.toMillPosition) :
    StateImage t (Sanmill.maybeTransitionToMoving s options)
      (Sanmill.maybeTransitionToMoving s' options) := by
  obtain ⟨e, hactive⟩ := hactive
  have hmoving : ∀ {u : MillState}, PositionInv options u.toMillPosition → u.sideToMove = e.toI8 →
      (Sanmill.enterMovingPhase u options).phase ≠ .placing := by
    intro u hu hactive
    obtain ⟨owed, flags, e', heq, -⟩ := enterMovingPhase_eq hu hactive
    rw [heq]
    simp
  unfold Sanmill.maybeTransitionToMoving
  simp only [h.phase, h.position.inHand]
  by_cases hhands : s.phase = .placing ∧ s.piecesInHand 0 = 0 ∧ s.piecesInHand 1 = 0
  · simp only [if_pos hhands, hmoving hpos hactive, hmoving hpos' (h.sideToMove.trans hactive),
      false_and, and_false, if_false]
    exact h.enterMovingPhase hrun hpos hpos'
  · simp only [if_neg hhands, h.phase, h.position.emptySquareCount]
    split
    · exact (h.setHands fun _ => 0).enterMovingPhase hrun (hpos.withHands fun _ => Nat.zero_le _)
        (hpos'.withHands fun _ => Nat.zero_le _)
    · exact h

theorem armBoardFullRemovals (h : StateImage t s s') (first : Side) (owed : Side → Nat) :
    StateImage t (Sanmill.armBoardFullRemovals s first owed)
      (Sanmill.armBoardFullRemovals s' first owed) :=
  { h with
    pendingRemovals := rfl
    sideToMove := rfl
    flags := { h.flags with boardFullRemoving := rfl }
    millAvailable := h.millAvailable }

theorem maybeFinishFullBoard (h : StateImage t s s') :
    StateImage t (Sanmill.maybeFinishFullBoard s options)
      (Sanmill.maybeFinishFullBoard s' options) := by
  unfold Sanmill.maybeFinishFullBoard
  simp only [h.phase, h.position.emptySquareCount, h.pendingRemovals]
  split
  · exact h
  · split
    · exact h
    · split
      · exact h
      · cases options.boardFullAction with
        | firstPlayerLose => exact h.finishGame _ _
        | agreeToDraw => exact h.finishGame _ _
        | firstAndSecondPlayerRemovePiece => exact h.armBoardFullRemovals _ _
        | secondAndFirstPlayerRemovePiece => exact h.armBoardFullRemovals _ _
        | sideToMoveRemovePiece => exact h.armBoardFullRemovals _ _

theorem endPlacingTurn (h : StateImage t s s') (hactive : ∃ e : Side, s.sideToMove = e.toI8)
    (hrun : s.phase ≠ .gameOver) (hpos : PositionInv r.options s.toMillPosition)
    (hpos' : PositionInv r.options s'.toMillPosition) :
    StateImage t (r.endPlacingTurn s) (r.endPlacingTurn s') :=
  (h.maybeTransitionToMoving hactive hrun hpos hpos').syncPhaseWithActiveHand.maybeFinishFullBoard
    |>.syncActionState

/-! ## Placements -/

/-- Completed lines of two presentations. -/
structure Completes (t : BoardTransform) (options : MillVariantOptions) (bits bits' : Bitboard) :
    Prop where
  some_iff : bits' ≠ 0 ↔ bits ≠ 0
  removals : removalCountForBits bits' options = removalCountForBits bits options
  nodes : NodeImage t (nodesOfLines options bits) (nodesOfLines options bits')

/-- The mills an action completes: as many, and through corresponding nodes. -/
theorem usableMills (h : StateImage t s s') (hactive : s.sideToMove = c.toI8)
    (hpos : PositionInv options s.toMillPosition) (hpos' : PositionInv options s'.toMillPosition)
    (n : Node) :
    Completes t options (usableMillBits s options (formedMillBitsAt s options n s.sideToMove))
      (usableMillBits s' options
        (formedMillBitsAt s' options (nodePerm t n) s'.sideToMove)) := by
  have hactive' := h.sideToMove.trans hactive
  have hset := (formed_lineSet hpos c n).usable hactive
  have hset' := (formed_lineSet hpos' c (nodePerm t n)).usable hactive'
  rw [← hactive] at hset
  rw [← hactive'] at hset'
  have himage : ∀ m m', NodeImage t m m' →
      (testBit m' (nodePerm t n) && decide (s'.byColorBb c &&& m' = m')
        && !(options.oneTimeUseMill && decide (m' &&& s'.formedMillsBb c = m')))
      = (testBit m n && decide (s.byColorBb c &&& m = m)
        && !(options.oneTimeUseMill && decide (m &&& s.formedMillsBb c = m))) := by
    intro m m' hm
    rw [hm.node, covers_image (h.position.color c) hm, BitVec.and_comm m', BitVec.and_comm m,
      covers_image (h.formedMillsBb c) hm]
  exact ⟨hset.ne_zero_image hset' himage, hset.removalCount_image hset' himage,
    hset.nodes_image hset' himage⟩

/-- Recording a mill. -/
theorem noteMillFormation (h : StateImage t s s') (side : Side) (source target : Int)
    {bits bits' : Bitboard}
    (hnodes : NodeImage t (nodesOfLines options bits) (nodesOfLines options bits')) :
    StateImage t (Sanmill.noteMillFormation s side source target bits options)
      (Sanmill.noteMillFormation s' side (transformI8 t source) (transformI8 t target) bits'
        options) := by
  have hrecorded : ∀ value : Int,
      (if options.restrictRepeatedMillsFormation = true then transformI8 t value else -1)
        = transformI8 t (if options.restrictRepeatedMillsFormation = true then value else -1) := by
    intro value
    split
    · rfl
    · exact transformI8_neg_one.symm
  exact
    { h with
      lastMillFrom := by
        intro c
        simp only [Sanmill.noteMillFormation, hrecorded]
        exact setAt_i8_image h.lastMillFrom side _ c
      lastMillTo := by
        intro c
        simp only [Sanmill.noteMillFormation, hrecorded]
        exact setAt_i8_image h.lastMillTo side _ c
      formedMillsBb := by
        intro c
        simp only [Sanmill.noteMillFormation]
        split
        · exact setAt_mask_image h.formedMillsBb side ((h.formedMillsBb side).or hnodes) c
        · exact h.formedMillsBb c }

section Branches

variable (h : StateImage t s s') (hactive : s.sideToMove = c.toI8) (hrun : s.phase ≠ .gameOver)
  (hpos : PositionInv r.options s.toMillPosition) (hpos' : PositionInv r.options s'.toMillPosition)
include h hactive hrun hpos hpos'

omit hactive in
theorem placeHandRemoval (removals : Nat) :
    StateImage t (r.placeHandRemoval s c removals) (r.placeHandRemoval s' c removals) := by
  have hle : ∀ d, setAt s.piecesInHand c.opponent (s.piecesInHand c.opponent
      - min removals (s.piecesInHand c.opponent)) d ≤ s.piecesInHand d := by
    intro d
    by_cases hd : d = c.opponent
    · rw [hd, setAt_self]
      exact Nat.sub_le _ _
    · rw [setAt_of_ne hd]
  have hhands := h.setHands (setAt s.piecesInHand c.opponent (s.piecesInHand c.opponent
    - min removals (s.piecesInHand c.opponent)))
  unfold MillRules.placeHandRemoval
  simp only [h.position.inHand]
  refine StateImage.clearCaptureState ?_
  split
  · exact (hhands.armRemovals _ _ _).syncActionState
  · refine StateImage.endPlacingTurn (hhands.setSide rfl) ?_ hrun (hpos.withHands hle)
      (hpos'.withHands fun d => ?_)
    · split
      · exact ⟨c.opponent, rfl⟩
      · exact ⟨c, rfl⟩
    · rw [h.position.inHand]
      exact hle d

omit hactive hrun hpos hpos' in
theorem placeBoardRemoval (removals : Nat) {custodian custodian' intervention
    intervention' : Bitboard} (hcustodian : NodeImage t custodian custodian')
    (hintervention : NodeImage t intervention intervention') (hpair : countOnes intervention ≤ 2) :
    StateImage t (r.placeBoardRemoval s c removals custodian intervention)
      (r.placeBoardRemoval s' c removals custodian' intervention') := by
  have hpublished := (h.armRemovals c removals true).activateCaptureState hcustodian
    hintervention (nodeImage_zero t) hpair
  have htotal := hpublished.captureTotal
  unfold MillRules.placeBoardRemoval
  simp only [htotal, hpublished.pendingRemovals]
  refine StateImage.syncActionState ?_
  split
  · exact (hpublished.setPendingRemovals _ rfl).refreshZobristMiscForSide _
  · exact hpublished

theorem placeRemovalBasedOnMillCounts :
    StateImage t (r.placeRemovalBasedOnMillCounts s) (r.placeRemovalBasedOnMillCounts s') := by
  have hcleared := h.clearCaptureState
  unfold MillRules.placeRemovalBasedOnMillCounts
  simp only [hcleared.position.inHand]
  split
  · refine hcleared.applyRemovalBasedOnMillCounts.endPlacingTurn ?_ hrun hpos hpos'
    obtain ⟨owed, flags, heq, -⟩ :=
      @applyRemovalBasedOnMillCounts_eq r.options s.clearCaptureState c hactive
    rw [heq]
    exact ⟨c, rfl⟩
  · refine (hcleared.setSide (by rw [hcleared.sideToMove])).endPlacingTurn ⟨c.opponent, ?_⟩ hrun
      hpos hpos'
    exact (congrArg xorOne hactive).trans (Side.xorOne_toI8 c)

omit hactive hrun hpos hpos' in
theorem armCapture {custodian custodian' intervention intervention' : Bitboard}
    (hcustodian : NodeImage t custodian custodian')
    (hintervention : NodeImage t intervention intervention') (hpair : countOnes intervention ≤ 2) :
    StateImage t (MillRules.armCapture s c custodian intervention)
      (MillRules.armCapture s' c custodian' intervention') := by
  have hpublished := h.activateCaptureState hcustodian hintervention (nodeImage_zero t) hpair
  unfold MillRules.armCapture
  simp only [hpublished.captureTotal]
  exact (hpublished.armRemovals _ _ _).syncActionState

theorem placeQuiet : StateImage t (r.placeQuiet s) (r.placeQuiet s') := by
  have hcleared := @maybeStopPlacingWhenTwoEmpty t r.options _ _ h.clearCaptureState
  have hstop : ∀ {u : MillState}, PositionInv r.options u.toMillPosition → PositionInv r.options
      (Sanmill.maybeStopPlacingWhenTwoEmpty u.clearCaptureState r.options).toMillPosition := by
    intro u hu
    refine hu.withHands fun d => ?_
    split
    · exact Nat.zero_le _
    · exact Nat.le_refl _
  unfold MillRules.placeQuiet
  simp only [hcleared.position.inHand]
  split
  · exact hcleared.endPlacingTurn ⟨c, hactive⟩ hrun (hstop hpos) (hstop hpos')
  · refine (hcleared.setSide (by rw [hcleared.sideToMove])).endPlacingTurn ⟨c.opponent, ?_⟩ hrun
      (hstop hpos) (hstop hpos')
    exact (congrArg xorOne hactive).trans (Side.xorOne_toI8 c)

end Branches

/-- What the detectors offer at `n`, whether or not their rules are on. -/
structure Offers (t : BoardTransform) (m m' k k' : Bitboard) : Prop where
  custodian : NodeImage t m m'
  intervention : NodeImage t k k'
  pair : countOnes k ≤ 2
  some_iff : (m' ≠ 0 ∨ k' ≠ 0) ↔ (m ≠ 0 ∨ k ≠ 0)

theorem offers (h : StateImage t s s') (options : MillVariantOptions)
    (hactive : s.sideToMove = c.toI8)
    (hnone : s.preferredRemoveTarget = -1) (hnone' : s'.preferredRemoveTarget = -1) (n : Node)
    (b₁ b₂ : Bool) :
    Offers t (if b₁ = true then Sanmill.detectCustodianTargets s options n else 0)
      (if b₁ = true then Sanmill.detectCustodianTargets s' options (nodePerm t n) else 0)
      (if b₂ = true then Sanmill.detectInterventionTargets s options n else 0)
      (if b₂ = true then Sanmill.detectInterventionTargets s' options (nodePerm t n) else 0) := by
  have hcustodian : NodeImage t
      (if b₁ = true then Sanmill.detectCustodianTargets s options n else 0)
      (if b₁ = true then Sanmill.detectCustodianTargets s' options (nodePerm t n) else 0) := by
    split
    · exact h.detectCustodianTargets n
    · exact nodeImage_zero t
  have hintervention : NodeImage t
      (if b₂ = true then Sanmill.detectInterventionTargets s options n else 0)
      (if b₂ = true then Sanmill.detectInterventionTargets s' options (nodePerm t n) else 0) := by
    split
    · exact h.detectInterventionTargets hnone hnone' n
    · exact nodeImage_zero t
  refine ⟨hcustodian, hintervention, ?_, or_congr hcustodian.ne_zero_iff hintervention.ne_zero_iff⟩
  split
  · exact detectInterventionTargets_pair hactive hnone n
  · exact countOnes_zero_le

theorem placeMill (h : StateImage t s s') (hrun : s.phase ≠ .gameOver)
    (hactive : s.sideToMove = c.toI8) (hpos : PositionInv r.options s.toMillPosition)
    (hpos' : PositionInv r.options s'.toMillPosition) {bits bits' m m' k k' : Bitboard}
    (hmills : Completes t r.options bits bits') (hoffers : Offers t m m' k k') :
    StateImage t (r.placeMill s c bits m k) (r.placeMill s' c bits' m' k') := by
  unfold MillRules.placeMill
  simp only [hmills.removals]
  split
  · exact h.placeHandRemoval hrun hpos hpos' _
  · exact h.placeHandRemoval hrun hpos hpos' _
  · exact h.placeBoardRemoval _ hoffers.custodian hoffers.intervention hoffers.pair
  · exact h.placeBoardRemoval _ hoffers.custodian hoffers.intervention hoffers.pair
  · exact h.placeBoardRemoval _ hoffers.custodian hoffers.intervention hoffers.pair
  · exact h.placeRemovalBasedOnMillCounts hactive hrun hpos hpos'

/-- What follows the writes of a placement. -/
theorem settlePlace (h : StateImage t s s') (hrun : s.phase ≠ .gameOver)
    (hactive : s.sideToMove = c.toI8) (hpos : PositionInv r.options s.toMillPosition)
    (hpos' : PositionInv r.options s'.toMillPosition) {bits bits' m m' k k' : Bitboard}
    (hmills : Completes t r.options bits bits') (hoffers : Offers t m m' k k') (n : Node) :
    StateImage t
      (if bits ≠ 0 then
        Sanmill.noteMillFormation (r.placeMill s c bits m k) c (-1) n.toI8 bits r.options
      else if m ≠ 0 ∨ k ≠ 0 then MillRules.armCapture s c m k else r.placeQuiet s)
      (if bits' ≠ 0 then
        Sanmill.noteMillFormation (r.placeMill s' c bits' m' k') c (-1) (nodePerm t n).toI8 bits'
          r.options
      else if m' ≠ 0 ∨ k' ≠ 0 then MillRules.armCapture s' c m' k' else r.placeQuiet s') := by
  simp only [hmills.some_iff, hoffers.some_iff]
  split
  · have hnoted := (h.placeMill hrun hactive hpos hpos' hmills hoffers).noteMillFormation c (-1)
      n.toI8 hmills.nodes
    rwa [transformI8_toI8, transformI8_neg_one] at hnoted
  · split
    · exact h.armCapture hoffers.custodian hoffers.intervention hoffers.pair
    · exact h.placeQuiet hactive hrun hpos hpos'

/-- **A placement on the image node.** -/
theorem applyPlace (h : StateImage t s s') (hactive : s.sideToMove = c.toI8)
    (hrun : s.phase ≠ .gameOver) (hpos : PositionInv r.options s.toMillPosition)
    (hpos' : PositionInv r.options s'.toMillPosition) (hnone : s.preferredRemoveTarget = -1)
    (hnone' : s'.preferredRemoveTarget = -1) {n : Node} (hempty : s.board n = 0)
    (hhand : 0 < s.piecesInHand c) :
    StateImage t (r.applyPlace s n) (r.applyPlace s' (nodePerm t n)) := by
  have hplaced := h.placePiece (r := r) n c
  have hp : PositionInv r.options (r.placePiece s n c).toMillPosition :=
    placePiece_position r hpos hempty hhand
  have hp' : PositionInv r.options (r.placePiece s' (nodePerm t n) c).toMillPosition :=
    placePiece_position r hpos' ((h.position.board n).trans hempty)
      (by rw [h.position.inHand]; exact hhand)
  have hoffers := hplaced.offers r.options hactive hnone hnone' n
    (r.options.custodianCapture.enabled && r.options.custodianCapture.inPlacingPhase)
    (r.options.interventionCapture.enabled && r.options.interventionCapture.inPlacingPhase)
  have hmills := hplaced.usableMills hactive hp hp' n
  unfold MillRules.applyPlace
  simp only [h.sideToMove, hactive, Side.sideIndex_toI8]
  exact hplaced.settlePlace hrun hactive hp hp' hmills hoffers n

/-! ## Board moves -/

theorem moveQuiet (h : StateImage t s s') (c : Side) :
    StateImage t (MillRules.moveQuiet s c) (MillRules.moveQuiet s' c) := by
  have hcleared := h.clearCaptureState
  have hnone : ∀ {f f' : Side → Int}, (∀ c, f' c = transformI8 t (f c)) →
      ∀ c₁, setAt f' c (-1) c₁ = transformI8 t (setAt f c (-1) c₁) := by
    intro f f' hf c₁
    have hset := setAt_i8_image hf c (-1) c₁
    rwa [transformI8_neg_one] at hset
  exact
    { hcleared with
      lastMillFrom := hnone h.lastMillFrom
      lastMillTo := hnone h.lastMillTo
      sideToMove := by
        show xorOne s'.sideToMove = xorOne s.sideToMove
        rw [h.sideToMove] }

theorem isMoveCountingPhase_eq (h : StateImage t s s') :
    isMoveCountingPhase s' options = isMoveCountingPhase s options := by
  unfold isMoveCountingPhase
  rw [h.phase]

theorem adjudicateQuiet (h : StateImage t s s') {adjudicate : Bool}
    (hclock : SameClock r.options adjudicate s s') (key key' : Option Key) :
    StateImage t (r.adjudicateQuiet s key adjudicate) (r.adjudicateQuiet s' key' adjudicate) := by
  cases adjudicate with
  | false =>
    unfold MillRules.adjudicateQuiet maybeDrawByNMoveRule
    exact h.syncPhaseWithActiveHand.syncActionState
  | true =>
    obtain ⟨hoff, hply⟩ := hclock rfl
    -- with the repetition rule off no key is looked at
    have hpush : ∀ (u : MillState) (k : Key),
        pushKeyAndCheckThreefoldWithKey u r.options true k = u := by
      intro u k
      unfold pushKeyAndCheckThreefoldWithKey
      rw [hoff]
      rfl
    have hquiet : ∀ (u : MillState) (k : Option Key), r.adjudicateQuiet u k true
        = (Sanmill.syncPhaseWithActiveHand
            (maybeDrawByNMoveRule u r.options true)).syncActionState := by
      intro u k
      cases k with
      | none => simp only [MillRules.adjudicateQuiet, if_true, pushKeyAndCheckThreefold, hpush]
      | some k => simp only [MillRules.adjudicateQuiet, if_true, hpush]
    rw [hquiet, hquiet]
    refine (StateImage.syncPhaseWithActiveHand ?_).syncActionState
    have hendgame : isNMoveEndgame s' r.options = isNMoveEndgame s r.options := by
      unfold isNMoveEndgame
      rw [h.position.onBoard]
    have hthreshold : nMoveThreshold s' r.options = nMoveThreshold s r.options := by
      unfold nMoveThreshold
      rw [hendgame]
    unfold maybeDrawByNMoveRule
    simp only [h.isMoveCountingPhase_eq, hendgame, hthreshold, hply]
    split
    · exact h
    · split
      · exact h
      · split
        · exact h.finishGame _ _
        · exact h

theorem moveMill (h : StateImage t s s') {bits bits' m m' k k' : Bitboard}
    (hmills : Completes t r.options bits bits') (hoffers : Offers t m m' k k')
    (source target : Node) :
    StateImage t
      (Sanmill.noteMillFormation ((MillRules.armRemovals s c (removalCountForBits bits r.options)
        true).activateCaptureState m k 0) c source.toI8 target.toI8 bits r.options).syncActionState
      (Sanmill.noteMillFormation ((MillRules.armRemovals s' c (removalCountForBits bits' r.options)
        true).activateCaptureState m' k' 0) c (nodePerm t source).toI8 (nodePerm t target).toI8
          bits' r.options).syncActionState := by
  rw [hmills.removals, ← transformI8_toI8, ← transformI8_toI8]
  exact (((h.armRemovals c _ true).activateCaptureState hoffers.custodian hoffers.intervention
    (nodeImage_zero t) hoffers.pair).noteMillFormation c source.toI8 target.toI8
      hmills.nodes).syncActionState

/-- What follows the writes of a board move. -/
theorem settleMove (h : StateImage t s s') {adjudicate : Bool}
    (hclock : SameClock r.options adjudicate s s') {bits bits' m m' k k' l l' : Bitboard}
    (hmills : Completes t r.options bits bits') (hoffers : Offers t m m' k k')
    (hleap : NodeImage t l l') (source target : Node) (key key' : Option Key) :
    StateImage t
      (if l ≠ 0 then (MillRules.armRemovals (s.activateCaptureState 0 0 l) c 1
          false).syncActionState
      else if bits ≠ 0 then
        (Sanmill.noteMillFormation ((MillRules.armRemovals s c
          (removalCountForBits bits r.options) true).activateCaptureState m k 0) c source.toI8
            target.toI8 bits r.options).syncActionState
      else if m ≠ 0 ∨ k ≠ 0 then MillRules.armCapture s c m k
      else r.adjudicateQuiet (MillRules.moveQuiet s c) key adjudicate)
      (if l' ≠ 0 then (MillRules.armRemovals (s'.activateCaptureState 0 0 l') c 1
          false).syncActionState
      else if bits' ≠ 0 then
        (Sanmill.noteMillFormation ((MillRules.armRemovals s' c
          (removalCountForBits bits' r.options) true).activateCaptureState m' k' 0) c
            (nodePerm t source).toI8 (nodePerm t target).toI8 bits' r.options).syncActionState
      else if m' ≠ 0 ∨ k' ≠ 0 then MillRules.armCapture s' c m' k'
      else r.adjudicateQuiet (MillRules.moveQuiet s' c) key' adjudicate) := by
  -- both sides take the same branch: the tests agree, and each branch commutes
  simp only [hmills.some_iff, hoffers.some_iff, hleap.ne_zero_iff]
  split
  · exact ((h.activateCaptureState (nodeImage_zero t) (nodeImage_zero t) hleap
      countOnes_zero_le).armRemovals c 1 false).syncActionState
  · split
    · exact h.moveMill hmills hoffers source target
    · split
      · exact h.armCapture hoffers.custodian hoffers.intervention hoffers.pair
      · exact (h.moveQuiet c).adjudicateQuiet hclock _ _

/-- **A board move between the image nodes.** -/
theorem applyMove (h : StateImage t s s') (hactive : s.sideToMove = c.toI8)
    (hpos : PositionInv r.options s.toMillPosition)
    (hpos' : PositionInv r.options s'.toMillPosition) (hnone : s.preferredRemoveTarget = -1)
    (hnone' : s'.preferredRemoveTarget = -1) {source target : Node}
    (hlive : testBit (s.byColorBb c) source = true) (hempty : s.board target = 0)
    {adjudicate : Bool} (hclock : SameClock r.options adjudicate s s')
    (ctx ctx' : MillRules.KeyContext) (a a' : Action) :
    StateImage t (r.applyMove s source target ctx a adjudicate).1
      (r.applyMove s' (nodePerm t source) (nodePerm t target) ctx' a' adjudicate).1 := by
  have hmoved := h.movePiece (r := r) source target c
  have hp : PositionInv r.options (r.movePiece s source target c).toMillPosition :=
    movePiece_position r hpos hlive hempty
  have hp' : PositionInv r.options
      (r.movePiece s' (nodePerm t source) (nodePerm t target) c).toMillPosition :=
    movePiece_position r hpos' (by rw [(h.position.color c).node, hlive])
      ((h.position.board target).trans hempty)
  have hoffers := hmoved.offers r.options hactive hnone hnone' target
    (r.options.custodianCapture.enabled && r.options.custodianCapture.inMovingPhase)
    (r.options.interventionCapture.enabled && r.options.interventionCapture.inMovingPhase)
  have hmills := hmoved.usableMills hactive hp hp' target
  have hleap : NodeImage t
      (if (r.options.leapCapture.enabled && r.options.leapCapture.inMovingPhase) = true then
        Sanmill.detectLeapTargets (r.movePiece s source target c) r.options source target else 0)
      (if (r.options.leapCapture.enabled && r.options.leapCapture.inMovingPhase) = true then
        Sanmill.detectLeapTargets (r.movePiece s' (nodePerm t source) (nodePerm t target) c)
          r.options (nodePerm t source) (nodePerm t target) else 0) := by
    split
    · exact hmoved.detectLeapTargets source target
    · exact nodeImage_zero t
  have hmovedClock : SameClock r.options adjudicate (r.movePiece s source target c)
      (r.movePiece s' (nodePerm t source) (nodePerm t target) c) := by
    intro hadjudicate
    obtain ⟨hoff, hply⟩ := hclock hadjudicate
    refine ⟨hoff, ?_⟩
    show (bumpPlySinceCapture s' r.options).plySinceCapture
      = (bumpPlySinceCapture s r.options).plySinceCapture
    unfold bumpPlySinceCapture
    rw [h.isMoveCountingPhase_eq, hply]
  unfold MillRules.applyMove
  simp only [h.sideToMove, hactive, Side.sideIndex_toI8]
  rw [apply_ite Prod.fst, apply_ite Prod.fst, apply_ite Prod.fst, apply_ite Prod.fst,
    apply_ite Prod.fst, apply_ite Prod.fst]
  exact hmoved.settleMove hmovedClock hmills hoffers hleap source target _ _

end StateImage

end Sanmill
