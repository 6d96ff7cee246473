import Sanmill.Proof.FastPath
import Sanmill.Proof.Symmetry.Mills

/-!
# Images of states

`StateImage t s s'` says that `s'` presents the state `s` under the transform `t`. Board,
marks, capture records and mill records are carried along; what the rules ask of a side is
the same. The repetition keys, the move number, the inactivity counter and the caches are
left out: with the identity as the transform, two states in relation differ in their history
only. The mill flag of a finished game is left out too, since nothing reads it.
-/

namespace Sanmill

open Bits

variable {t : BoardTransform} {options : MillVariantOptions} {s s' : MillState} {c : Side}

/-! ## The relation -/

/-- Capture records under a transform. -/
structure CapturesImage (t : BoardTransform) (k k' : MillCaptures) : Prop where
  custodianTargets : ∀ c, NodeImage t (k.custodianTargets c) (k'.custodianTargets c)
  interventionTargets : ∀ c, NodeImage t (k.interventionTargets c) (k'.interventionTargets c)
  leapTargets : ∀ c, NodeImage t (k.leapTargets c) (k'.leapTargets c)
  custodianCount : k'.custodianCount = k.custodianCount
  interventionCount : k'.interventionCount = k.interventionCount
  leapCount : k'.leapCount = k.leapCount
  /-- At most one intervention line is recorded for a side. -/
  pair : ∀ c, countOnes (k.interventionTargets c) ≤ 2

/-- The runtime flags that outlive a step of a running game. -/
structure FlagsAgree (f f' : MillStateFlags) : Prop where
  stalemateRemoving : f'.stalemateRemoving = f.stalemateRemoving
  bothStalemateRemoving : f'.bothStalemateRemoving = f.bothStalemateRemoving
  removeOwnPiece : f'.removeOwnPiece = f.removeOwnPiece
  boardFullRemoving : f'.boardFullRemoving = f.boardFullRemoving

structure StateImage (t : BoardTransform) (s s' : MillState) : Prop where
  position : PositionImage t s.toMillPosition s'.toMillPosition
  captures : CapturesImage t s.toMillCaptures s'.toMillCaptures
  sideToMove : s'.sideToMove = s.sideToMove
  phase : s'.phase = s.phase
  action : s'.action = s.action
  pendingRemovals : s'.pendingRemovals = s.pendingRemovals
  flags : FlagsAgree s.flags s'.flags
  millAvailable : s.phase ≠ .gameOver →
    s'.flags.millAvailableAtRemoval = s.flags.millAvailableAtRemoval
  winner : s'.winner = s.winner
  outcomeReason : s'.outcomeReason = s.outcomeReason
  lastMillFrom : ∀ c, s'.lastMillFrom c = transformI8 t (s.lastMillFrom c)
  lastMillTo : ∀ c, s'.lastMillTo c = transformI8 t (s.lastMillTo c)
  formedMillsBb : ∀ c, NodeImage t (s.formedMillsBb c) (s'.formedMillsBb c)

/-! ## Node-valued fields -/

theorem boardNode?_transformI8 (t : BoardTransform) (value : Int) :
    boardNode? (transformI8 t value) = (boardNode? value).map (nodePerm t) := by
  unfold transformI8
  cases hvalue : boardNode? value with
  | none => exact hvalue
  | some n => exact boardNode?_toI8 _

theorem transformI8_neg_iff (t : BoardTransform) (value : Int) :
    transformI8 t value < 0 ↔ value < 0 := by
  unfold transformI8
  cases hvalue : boardNode? value with
  | none => exact Iff.rfl
  | some n =>
    have himage := (transformOpeningBookNode n t).toI8_bounds
    have hnode := n.toI8_bounds
    rw [(boardNode?_eq_some_iff value n).1 hvalue]
    dsimp only
    omega

theorem toI8_eq_transformI8 (n : Node) (value : Int) :
    (nodePerm t n).toI8 = transformI8 t value ↔ n.toI8 = value := by
  rw [← transformI8_toI8]
  exact (transformI8_injective t).eq_iff

/-! ## What is read off the mills -/

theorem covers_image {a a' m m' : Bitboard} (h : NodeImage t a a') (hm : NodeImage t m m') :
    decide (a' &&& m' = m') = decide (a &&& m = m) :=
  decide_eq_decide.2 (h.covers_iff hm).symm

theorem potentialMillsStandard_eq (options : MillVariantOptions)
    (hplain : options.hasDiagonalLines = false) (colorBb : Bitboard) (n : Node) :
    potentialMillsCountStandardUnrestricted colorBb n none
      = (millLinePeerMasksForNode options n).countP fun m => decide (colorBb &&& m = m) := by
  obtain ⟨i, j, a, b, hlines⟩ := standard_lines n
  unfold potentialMillsCountStandardUnrestricted millLinePeerMasksForNode millLines
  simp only [hplain, Bool.false_eq_true, if_false, hlines.peers, List.getD_cons_zero,
    List.getD_cons_succ, List.countP_cons, List.countP_nil, decide_eq_true_eq, Nat.zero_add]
  exact Nat.add_comm _ _

/-- The mill count once the side's mask is fixed. -/
theorem potentialMillsOf_image (h : StateImage t s s') {colorBb colorBb' : Bitboard} {color : Side}
    (hcolor : NodeImage t colorBb colorBb') (target : Node) :
    (if !options.hasDiagonalLines && !options.oneTimeUseMill then
        potentialMillsCountStandardUnrestricted colorBb' (nodePerm t target) none
      else (millLinePeerMasksForNode options (nodePerm t target)).countP fun peerMask =>
        colorBb' &&& peerMask = peerMask
          ∧ ¬(options.oneTimeUseMill = true
            ∧ (nodeBit (nodePerm t target) ||| peerMask) &&& s'.formedMillsBb color
              = nodeBit (nodePerm t target) ||| peerMask))
      = if !options.hasDiagonalLines && !options.oneTimeUseMill then
          potentialMillsCountStandardUnrestricted colorBb target none
        else (millLinePeerMasksForNode options target).countP fun peerMask =>
          colorBb &&& peerMask = peerMask
            ∧ ¬(options.oneTimeUseMill = true
              ∧ (nodeBit target ||| peerMask) &&& s.formedMillsBb color
                = nodeBit target ||| peerMask) := by
  split
  · rename_i hplain
    simp only [Bool.and_eq_true, Bool.not_eq_true'] at hplain
    rw [potentialMillsStandard_eq options hplain.1, potentialMillsStandard_eq options hplain.1]
    exact countP_peers_image fun m m' hm => covers_image hcolor hm
  · refine countP_peers_image fun m m' hm => ?_
    -- a used mill is the line of the node and its peers
    have hline := (nodeImage_nodeBit (t := t) target).or hm
    have hfull : (nodeBit (nodePerm t target) ||| m') &&& s'.formedMillsBb color
          = nodeBit (nodePerm t target) ||| m'
        ↔ (nodeBit target ||| m) &&& s.formedMillsBb color = nodeBit target ||| m := by
      rw [BitVec.and_comm, BitVec.and_comm (nodeBit target ||| m)]
      exact ((h.formedMillsBb color).covers_iff hline).symm
    have hcover := hcolor.covers_iff hm
    rw [decide_eq_decide, hfull, hcover]

theorem potentialMillsCountAt_image (h : StateImage t s s') (target : Node) (side : Int)
    (source : Option Node) :
    potentialMillsCountAt s' options (nodePerm t target) side (source.map (nodePerm t))
      = potentialMillsCountAt s options target side source := by
  unfold potentialMillsCountAt
  cases colorIndexForPiece (side + 1) with
  | none => rfl
  | some color =>
    cases source with
    | none => exact potentialMillsOf_image h (h.position.color color) target
    | some n =>
      exact potentialMillsOf_image h ((h.position.color color).andNot (nodeImage_nodeBit n)) target

theorem inUsableMill_image (h : StateImage t s s') {colorBb colorBb' : Bitboard}
    (hcolor : NodeImage t colorBb colorBb') (node : Node) (side : Side) :
    inUsableMill s' options colorBb' (nodePerm t node) side
      = inUsableMill s options colorBb node side := by
  unfold inUsableMill
  refine any_peers_image fun m m' hm => ?_
  have hline := (nodeImage_nodeBit (t := t) node).or hm
  have hfull : decide ((nodeBit (nodePerm t node) ||| m') &&& s'.formedMillsBb side
        ≠ nodeBit (nodePerm t node) ||| m')
      = decide ((nodeBit node ||| m) &&& s.formedMillsBb side ≠ nodeBit node ||| m) := by
    rw [decide_eq_decide, BitVec.and_comm, BitVec.and_comm (nodeBit node ||| m)]
    exact not_congr ((h.formedMillsBb side).covers_iff hline).symm
  rw [covers_image hcolor hm, hfull]

namespace StateImage

variable (h : StateImage t s s')
include h

theorem isRestrictedRepeatedMill_eq (source target : Node) :
    isRestrictedRepeatedMill s' options (nodePerm t source) (nodePerm t target)
      = isRestrictedRepeatedMill s options source target := by
  unfold isRestrictedRepeatedMill
  have hsource := @potentialMillsCountAt_image t options _ _ h source s.sideToMove none
  have htarget := @potentialMillsCountAt_image t options _ _ h target s.sideToMove (some source)
  simp only [Option.map_none, Option.map_some] at hsource htarget
  simp only [h.sideToMove, h.lastMillFrom, h.lastMillTo, transformI8_neg_iff, hsource, htarget,
    ne_eq, toI8_eq_transformI8]

theorem isPieceSurrounded_eq (side : Side) (source : Node) :
    isPieceSurrounded s' options side (nodePerm t source)
      = isPieceSurrounded s options side source := by
  -- the free neighbours are carried over first, then the shuttle between the last two nodes
  have hempty : NodeImage t
      (neighborMaskFor source options.hasDiagonalLines &&& ~~~s.boardOccupiedBitboard)
      (neighborMaskFor (nodePerm t source) options.hasDiagonalLines
        &&& ~~~s'.boardOccupiedBitboard) :=
    (nodeImage_neighborMaskFor options.hasDiagonalLines source).andNot h.position.occupied
  unfold isPieceSurrounded
  simp only [h.lastMillFrom, h.lastMillTo, boardNode?_transformI8]
  rw [show decide (neighborMaskFor (nodePerm t source) options.hasDiagonalLines
      &&& ~~~s'.boardOccupiedBitboard = 0) = decide (neighborMaskFor source options.hasDiagonalLines
      &&& ~~~s.boardOccupiedBitboard = 0) from decide_eq_decide.2 hempty.eq_zero_iff.symm]
  refine congrArg (_ || ·) (congrArg (_ && ·) ?_)
  cases boardNode? (s.lastMillTo side) with
  | none => rfl
  | some lastTo =>
    cases boardNode? (s.lastMillFrom side) with
    | none => rfl
    | some lastFrom =>
      have hshuttle : isShuttleMoveRestricted s' options (nodePerm t source)
          (nodePerm t lastFrom) side
          = isShuttleMoveRestricted s options source lastFrom side := by
        have hcolor := h.position.color side
        have hvacated := hcolor.andNot (nodeImage_nodeBit source)
        simp only [isShuttleMoveRestricted, inUsableMill_image h hcolor source side,
          inUsableMill_image h hvacated lastFrom side]
      have hlast := hempty.eq_iff (nodeImage_nodeBit (t := t) lastFrom)
      simp only [Option.map_some]
      rw [hshuttle, decide_eq_decide.2 hlast.symm,
        decide_eq_decide.2 ((nodePerm t).injective.eq_iff (a := source) (b := lastTo))]

theorem captureTargetsOfActive :
    NodeImage t (captureTargetsOfActive s) (captureTargetsOfActive s') := by
  unfold Sanmill.captureTargetsOfActive
  rw [h.sideToMove]
  split
  · exact ((h.captures.custodianTargets _).or (h.captures.interventionTargets _)).or
      (h.captures.leapTargets _)
  · exact nodeImage_zero t

theorem captureTotal : s'.captureTotal = s.captureTotal := by
  unfold MillState.captureTotal
  rw [h.sideToMove, h.captures.custodianCount, h.captures.interventionCount, h.captures.leapCount]

/-- **Corresponding states have corresponding legal actions.** -/
theorem legalImage (options : MillVariantOptions) : LegalImage t options s s' :=
  { h.position with
    sideToMove := h.sideToMove
    phase := h.phase
    action := h.action
    pendingRemovals := h.pendingRemovals
    removeOwnPiece := h.flags.removeOwnPiece
    stalemateRemoving := h.flags.stalemateRemoving
    bothStalemateRemoving := h.flags.bothStalemateRemoving
    captureTargets := h.captureTargetsOfActive
    captureTotal := h.captureTotal
    restricted := h.isRestrictedRepeatedMill_eq
    surrounded := h.isPieceSurrounded_eq }

end StateImage

/-!
## The writes of an action under a transform

Every write of the apply path carries states in relation to states in relation. The lemmas
are about one write each; a field a write does not touch is the field of the hypothesis.
-/

variable {r : MillRules}

/-! ## Array writes -/

theorem setAt_node_image {α : Type} {f f' : Node → α} (h : ∀ n, f' (nodePerm t n) = f n)
    (node : Node) (value : α) (n : Node) :
    setAt f' (nodePerm t node) value (nodePerm t n) = setAt f node value n := by
  by_cases hn : n = node
  · rw [hn, setAt_self, setAt_self]
  · rw [setAt_of_ne hn, setAt_of_ne ((nodePerm t).injective.ne hn), h]

theorem setAt_mask_image {f f' : Side → Bitboard} (h : ∀ c, NodeImage t (f c) (f' c))
    (side : Side) {m m' : Bitboard} (hm : NodeImage t m m') (c : Side) :
    NodeImage t (setAt f side m c) (setAt f' side m' c) := by
  by_cases hc : c = side
  · rw [hc, setAt_self, setAt_self]
    exact hm
  · rw [setAt_of_ne hc, setAt_of_ne hc]
    exact h c

theorem setAt_i8_image {f f' : Side → Int} (h : ∀ c, f' c = transformI8 t (f c)) (side : Side)
    (value : Int) (c : Side) :
    setAt f' side (transformI8 t value) c = transformI8 t (setAt f side value c) := by
  by_cases hc : c = side
  · rw [hc, setAt_self, setAt_self]
  · rw [setAt_of_ne hc, setAt_of_ne hc, h]

theorem setAt_pair {f : Side → Bitboard} (h : ∀ c, countOnes (f c) ≤ 2) (side : Side)
    {m : Bitboard} (hm : countOnes m ≤ 2) (c : Side) : countOnes (setAt f side m c) ≤ 2 := by
  by_cases hc : c = side
  · rw [hc, setAt_self]
    exact hm
  · rw [setAt_of_ne hc]
    exact h c

theorem countOnes_zero_le : countOnes (0 : Bitboard) ≤ 2 := by decide

/-! ## The board -/

namespace PositionImage

variable {p q : MillPosition}

theorem livePiece (h : PositionImage t p q) (n : Node) :
    q.livePiece (nodePerm t n) = p.livePiece n := by
  unfold MillPosition.livePiece MillPosition.isMarked
  rw [h.marks.node, h.board]

theorem clearColorAt (h : PositionImage t p q) (n : Node) (c : Side) :
    NodeImage t (p.clearColorAt n c) (q.clearColorAt (nodePerm t n) c) := by
  unfold MillPosition.clearColorAt
  rw [h.board]
  cases colorIndexForPiece (p.board n) with
  | none => exact h.color c
  | some color =>
    exact setAt_mask_image h.color color ((h.color color).andNot (nodeImage_nodeBit n)) c

end PositionImage

namespace StateImage

theorem withHistory (h : StateImage t s s') (len len' : Nat) (key key' : Key) :
    StateImage t { s with keyHistoryLen := len, zobristKey := key }
      { s' with keyHistoryLen := len', zobristKey := key' } :=
  { h with }

/-- A capture starts a new history. -/
theorem forgetHistory (h : StateImage t s s') :
    StateImage t (MillState.clearKeyHistory { s with plySinceCapture := 0 })
      (MillState.clearKeyHistory { s' with plySinceCapture := 0 }) :=
  { h with }

/-- A placement. -/
theorem placePiece (h : StateImage t s s') (n : Node) (c : Side) :
    StateImage t (r.placePiece s n c) (r.placePiece s' (nodePerm t n) c) :=
  { h with
    position :=
      { board := setAt_node_image h.position.board n (c.toI8 + 1)
        color := setAt_mask_image h.position.color c
          ((h.position.color c).or (nodeImage_nodeBit n))
        marks := h.position.marks
        inHand := by
          show setAt s'.piecesInHand c (s'.piecesInHand c - 1) = _
          rw [h.position.inHand]
          rfl
        onBoard := by
          show setAt s'.piecesOnBoard c (s'.piecesOnBoard c + 1) = _
          rw [h.position.onBoard]
          rfl } }

/-- A board move. -/
theorem movePiece (h : StateImage t s s') (source target : Node) (c : Side) :
    StateImage t (r.movePiece s source target c)
      (r.movePiece s' (nodePerm t source) (nodePerm t target) c) :=
  { h with
    position :=
      { board := setAt_node_image (setAt_node_image h.position.board source 0) target (c.toI8 + 1)
        color := setAt_mask_image h.position.color c
          (((h.position.color c).andNot (nodeImage_nodeBit source)).or (nodeImage_nodeBit target))
        marks := h.position.marks
        inHand := h.position.inHand
        onBoard := h.position.onBoard } }

/-- Taking a piece off the board, or marking it. -/
theorem takePiece (h : StateImage t s s') (n : Node) (c : Side) (mark : Bool) :
    StateImage t (r.takePiece s n c mark) (r.takePiece s' (nodePerm t n) c mark) := by
  unfold MillRules.takePiece
  cases mark with
  | true =>
    exact
      { h with
        position :=
          { board := h.position.board
            color := h.position.clearColorAt n
            marks := h.position.marks.or (nodeImage_nodeBit n)
            inHand := h.position.inHand
            onBoard := h.position.onBoard } }
  | false =>
    exact
      { h with
        position :=
          { board := setAt_node_image h.position.board n 0
            color := setAt_mask_image h.position.color c
              ((h.position.color c).andNot (nodeImage_nodeBit n))
            marks := h.position.marks
            inHand := h.position.inHand
            onBoard := h.position.onBoard } }

/-! ## Flags and obligations -/

theorem armRemovals (h : StateImage t s s') (side : Side) (count : Nat) (millAvailable : Bool) :
    StateImage t (MillRules.armRemovals s side count millAvailable)
      (MillRules.armRemovals s' side count millAvailable) :=
  { h with
    pendingRemovals := by
      show setAt s'.pendingRemovals side count = setAt s.pendingRemovals side count
      rw [h.pendingRemovals]
    flags := { h.flags with }
    millAvailable := fun _ => rfl }

theorem setPendingRemovals (h : StateImage t s s') (side : Side) {count count' : Nat}
    (hcount : count' = count) :
    StateImage t (s.setPendingRemovals side count) (s'.setPendingRemovals side count') :=
  { h with
    pendingRemovals := by
      show setAt s'.pendingRemovals side count' = setAt s.pendingRemovals side count
      rw [h.pendingRemovals, hcount] }

theorem setOwed (h : StateImage t s s') (owed : Side → Nat) :
    StateImage t { s with pendingRemovals := owed } { s' with pendingRemovals := owed } :=
  { h with pendingRemovals := rfl }

theorem refreshZobristMiscForSide (h : StateImage t s s') (side : Side) :
    StateImage t (s.refreshZobristMiscForSide side) (s'.refreshZobristMiscForSide side) :=
  { h with
    flags := { h.flags with }
    millAvailable := h.millAvailable }

theorem refreshZobristMiscForActiveSide (h : StateImage t s s') :
    StateImage t s.refreshZobristMiscForActiveSide s'.refreshZobristMiscForActiveSide :=
  { h with
    flags := { h.flags with }
    millAvailable := h.millAvailable }

theorem setMillAvailableAtRemoval (h : StateImage t s s') (b : Bool) :
    StateImage t (s.setMillAvailableAtRemoval b) (s'.setMillAvailableAtRemoval b) :=
  { h with
    flags := { h.flags with }
    millAvailable := fun _ => rfl }

theorem setStalemateRemoving (h : StateImage t s s') (b : Bool) :
    StateImage t (s.setStalemateRemoving b) (s'.setStalemateRemoving b) :=
  { h with
    flags := { h.flags with stalemateRemoving := rfl }
    millAvailable := h.millAvailable }

theorem setBothStalemateRemoving (h : StateImage t s s') (b : Bool) :
    StateImage t (s.setBothStalemateRemoving b) (s'.setBothStalemateRemoving b) :=
  { h with
    flags := { h.flags with bothStalemateRemoving := rfl }
    millAvailable := h.millAvailable }

theorem setBoardFullRemoving (h : StateImage t s s') (b : Bool) :
    StateImage t (s.setBoardFullRemoving b) (s'.setBoardFullRemoving b) :=
  { h with
    flags := { h.flags with boardFullRemoving := rfl }
    millAvailable := h.millAvailable }

theorem setRemoveOwnPiece (h : StateImage t s s') (side : Side) (b : Bool) :
    StateImage t (s.setRemoveOwnPiece side b) (s'.setRemoveOwnPiece side b) :=
  { h with
    flags :=
      { h.flags with
        removeOwnPiece := by
          show setAt s'.flags.removeOwnPiece side b = setAt s.flags.removeOwnPiece side b
          rw [h.flags.removeOwnPiece] }
    millAvailable := h.millAvailable }

theorem setRemoveOwnPieces (h : StateImage t s s') (values : Side → Bool) :
    StateImage t (s.setRemoveOwnPieces values) (s'.setRemoveOwnPieces values) :=
  { h with
    flags := { h.flags with removeOwnPiece := rfl }
    millAvailable := h.millAvailable }

/-! ## Whose turn it is -/

theorem setSide (h : StateImage t s s') {side side' : Int} (hside : side' = side) :
    StateImage t { s with sideToMove := side } { s' with sideToMove := side' } :=
  { h with sideToMove := hside }

theorem setHands (h : StateImage t s s') (hands : Side → Nat) :
    StateImage t { s with piecesInHand := hands } { s' with piecesInHand := hands } :=
  { h with position := { h.position with inHand := rfl } }

theorem setOnBoard (h : StateImage t s s') {counts counts' : Side → Nat}
    (hcounts : counts' = counts) :
    StateImage t { s with piecesOnBoard := counts } { s' with piecesOnBoard := counts' } :=
  { h with position := { h.position with onBoard := hcounts } }

/-- A new phase, while the game goes on. -/
theorem setPhase (h : StateImage t s s') (hrun : s.phase ≠ .gameOver) (phase : MillPhase) :
    StateImage t { s with phase := phase } { s' with phase := phase } :=
  { h with
    phase := rfl
    millAvailable := fun _ => h.millAvailable hrun }

theorem finishGame (h : StateImage t s s') (winner : Int) (reason : MillOutcomeReason) :
    StateImage t (Sanmill.finishGame s winner reason) (Sanmill.finishGame s' winner reason) :=
  { h with
    phase := rfl
    winner := rfl
    outcomeReason := rfl
    sideToMove := rfl
    millAvailable := fun hrun => absurd rfl hrun }

theorem syncedAction (h : StateImage t s s') : s'.syncedAction = s.syncedAction := by
  unfold MillState.syncedAction
  rw [h.phase, h.sideToMove, h.pendingRemovals]

theorem syncActionState (h : StateImage t s s') :
    StateImage t s.syncActionState s'.syncActionState :=
  { h with action := h.syncedAction }

theorem syncPhaseWithActiveHand (h : StateImage t s s') :
    StateImage t (Sanmill.syncPhaseWithActiveHand s) (Sanmill.syncPhaseWithActiveHand s') := by
  have hover : s.phase = .gameOver → (Sanmill.syncPhaseWithActiveHand s).phase = .gameOver := by
    intro hover
    unfold Sanmill.syncPhaseWithActiveHand
    simp [hover]
  exact
    { h with
      phase := by
        simp only [Sanmill.syncPhaseWithActiveHand, h.phase, h.sideToMove, h.position.inHand]
      millAvailable := fun hrun => h.millAvailable fun hfinished => hrun (hover hfinished) }

theorem maybeStopPlacingWhenTwoEmpty (h : StateImage t s s') :
    StateImage t (Sanmill.maybeStopPlacingWhenTwoEmpty s options)
      (Sanmill.maybeStopPlacingWhenTwoEmpty s' options) :=
  { h with
    position :=
      { h.position with
        inHand := by
          simp only [Sanmill.maybeStopPlacingWhenTwoEmpty, h.position.emptySquareCount,
            h.position.inHand] } }

/-! ## Capture records -/

theorem clearCaptureState (h : StateImage t s s') :
    StateImage t s.clearCaptureState s'.clearCaptureState :=
  { h with
    captures :=
      { custodianTargets := fun _ => nodeImage_zero t
        interventionTargets := fun _ => nodeImage_zero t
        leapTargets := fun _ => nodeImage_zero t
        custodianCount := rfl
        interventionCount := rfl
        leapCount := rfl
        pair := fun _ => countOnes_zero_le }
    flags := { h.flags with }
    millAvailable := fun _ => rfl }

theorem clearCaptureStateForSide (h : StateImage t s s') (side : Side) :
    StateImage t (s.clearCaptureStateForSide side) (s'.clearCaptureStateForSide side) :=
  { h with
    captures :=
      { custodianTargets := setAt_mask_image h.captures.custodianTargets side (nodeImage_zero t)
        interventionTargets :=
          setAt_mask_image h.captures.interventionTargets side (nodeImage_zero t)
        leapTargets := setAt_mask_image h.captures.leapTargets side (nodeImage_zero t)
        custodianCount := congrArg (setAt · side 0) h.captures.custodianCount
        interventionCount := congrArg (setAt · side 0) h.captures.interventionCount
        leapCount := congrArg (setAt · side 0) h.captures.leapCount
        pair := setAt_pair h.captures.pair side countOnes_zero_le }
    flags := { h.flags with }
    millAvailable := fun _ => rfl }

theorem clearCustodian (h : StateImage t s s') (side : Side) :
    StateImage t (MillRules.clearCustodian s side) (MillRules.clearCustodian s' side) :=
  { h with
    captures :=
      { h.captures with
        custodianTargets := setAt_mask_image h.captures.custodianTargets side (nodeImage_zero t)
        custodianCount := congrArg (setAt · side 0) h.captures.custodianCount } }

theorem clearIntervention (h : StateImage t s s') (side : Side) :
    StateImage t (MillRules.clearIntervention s side) (MillRules.clearIntervention s' side) :=
  { h with
    captures :=
      { h.captures with
        interventionTargets :=
          setAt_mask_image h.captures.interventionTargets side (nodeImage_zero t)
        interventionCount := congrArg (setAt · side 0) h.captures.interventionCount
        pair := setAt_pair h.captures.pair side countOnes_zero_le } }

theorem clearLeap (h : StateImage t s s') (side : Side) :
    StateImage t (MillRules.clearLeap s side) (MillRules.clearLeap s' side) :=
  { h with
    captures :=
      { h.captures with
        leapTargets := setAt_mask_image h.captures.leapTargets side (nodeImage_zero t)
        leapCount := congrArg (setAt · side 0) h.captures.leapCount } }

/-- Publishing detected targets. -/
theorem activateCaptureState (h : StateImage t s s') {custodian custodian' intervention
    intervention' leap leap' : Bitboard} (hcustodian : NodeImage t custodian custodian')
    (hintervention : NodeImage t intervention intervention') (hleap : NodeImage t leap leap')
    (hpair : countOnes intervention ≤ 2) :
    StateImage t (s.activateCaptureState custodian intervention leap)
      (s'.activateCaptureState custodian' intervention' leap') := by
  have hcount : (if custodian' = 0 then 0 else 1) = if custodian = 0 then 0 else 1 :=
    if_congr hcustodian.eq_zero_iff.symm rfl rfl
  have hbits : ∀ {m m' : Bitboard}, NodeImage t m m' → bitCount m' = bitCount m := by
    intro m m' hm
    unfold bitCount
    rw [hm.countOnes_eq]
  have hcaptures : CapturesImage t
      (s.activateCaptureState custodian intervention leap).toMillCaptures
      (s'.activateCaptureState custodian' intervention' leap').toMillCaptures := by
    unfold MillState.activateCaptureState
    simp only [h.sideToMove, hcount, hbits hintervention, hbits hleap]
    split
    · exact
        { custodianTargets := setAt_mask_image h.captures.custodianTargets _ hcustodian
          interventionTargets := setAt_mask_image h.captures.interventionTargets _ hintervention
          leapTargets := setAt_mask_image h.captures.leapTargets _ hleap
          custodianCount := congrArg (setAt · _ _) h.captures.custodianCount
          interventionCount := congrArg (setAt · _ _) h.captures.interventionCount
          leapCount := congrArg (setAt · _ _) h.captures.leapCount
          pair := setAt_pair h.captures.pair _ hpair }
    · exact { h.captures with }
  exact { h with captures := hcaptures }

end StateImage

end Sanmill
