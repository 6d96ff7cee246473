import Sanmill.Proof.CaptureTargets
import Sanmill.Proof.Legal
import Sanmill.Proof.Symmetry.Board

/-!
# Legal actions of an image

Two states of which one presents the position of the other under a transform have
corresponding legal actions. `LegalImage` lists what legality looks at; what it does
not look at (the keys, the counters, the formed mills while no mill is recorded) may
differ.
-/

namespace Sanmill

open Bits

variable {t : BoardTransform} {options : MillVariantOptions}

/-! ## Positions -/

/-- `q` presents `p` under `t`. -/
structure PositionImage (t : BoardTransform) (p q : MillPosition) : Prop where
  board : ∀ n, q.board (nodePerm t n) = p.board n
  color : ∀ c, NodeImage t (p.byColorBb c) (q.byColorBb c)
  marks : NodeImage t p.delayedMarkedPieces q.delayedMarkedPieces
  inHand : q.piecesInHand = p.piecesInHand
  onBoard : q.piecesOnBoard = p.piecesOnBoard

namespace PositionImage

variable {p q : MillPosition} (h : PositionImage t p q)
include h

theorem occupied : NodeImage t p.boardOccupiedBitboard q.boardOccupiedBitboard :=
  ((h.color 0).or (h.color 1)).or h.marks

theorem empty (n : Node) :
    testBit q.boardOccupiedBitboard (nodePerm t n) = testBit p.boardOccupiedBitboard n :=
  h.occupied.node n

theorem emptySquareCount : q.emptySquareCount = p.emptySquareCount := by
  unfold MillPosition.emptySquareCount
  rw [h.occupied.countOnes_eq]

theorem pieceBitboard (piece : Int) :
    NodeImage t (p.pieceBitboard piece) (q.pieceBitboard piece) := by
  unfold MillPosition.pieceBitboard
  cases colorIndexForPiece piece with
  | none => exact nodeImage_zero t
  | some c => exact h.color c

end PositionImage

/-! ## Mills of a position -/

variable {s s' : MillState}

theorem millMembersMaskForColor_eq (s : MillState) (options : MillVariantOptions) (c : Side) :
    millMembersMaskForColor s options c
      = union ((millLineMasks options).filter fun m => s.byColorBb c &&& m = m) := by
  unfold millMembersMaskForColor union
  rw [List.foldl_filter]
  refine congrArg (fun f => List.foldl f _ _) ?_
  funext members lineMask
  simp only [decide_eq_true_eq]

theorem millMembersMaskForPiece_image (h : PositionImage t s.toMillPosition s'.toMillPosition)
    (piece : Int) :
    NodeImage t (millMembersMaskForPiece s options piece)
      (millMembersMaskForPiece s' options piece) := by
  unfold millMembersMaskForPiece
  cases colorIndexForPiece piece with
  | none => exact nodeImage_zero t
  | some c =>
    simp only [millMembersMaskForColor_eq]
    unfold millLineMasks
    refine MaskImage.union (fun m hm => ?_) (fun m' hm' => ?_)
    · obtain ⟨hline, hcover⟩ := List.mem_filter.1 hm
      obtain ⟨l, hl, rfl⟩ := List.mem_map.1 hline
      obtain ⟨l', hl', himage⟩ := millLines_closed options t l hl
      refine ⟨l'.mask, List.mem_filter.2 ⟨List.mem_map_of_mem hl', ?_⟩, himage.mask⟩
      exact decide_eq_true (((h.color c).covers_iff himage.mask).1 (of_decide_eq_true hcover))
    · obtain ⟨hline, hcover⟩ := List.mem_filter.1 hm'
      obtain ⟨l', hl', rfl⟩ := List.mem_map.1 hline
      obtain ⟨l, hl, himage⟩ := (millLines_closed options).onto t hl'
      refine ⟨l.mask, List.mem_filter.2 ⟨List.mem_map_of_mem hl, ?_⟩, himage.mask⟩
      exact decide_eq_true (((h.color c).covers_iff himage.mask).2 (of_decide_eq_true hcover))

/-- A side is surrounded in both presentations when its pieces are. -/
theorem isAllSurrounded_image (h : PositionImage t s.toMillPosition s'.toMillPosition)
    (hpiece : ∀ side source, isPieceSurrounded s' options side (nodePerm t source)
      = isPieceSurrounded s options side source) (side : Int) :
    isAllSurrounded s' options side = isAllSurrounded s options side := by
  have hall : ((maskNodes (s'.byColorBb (sideIndex side))).all fun source =>
        isPieceSurrounded s' options (sideIndex side) source)
      = (maskNodes (s.byColorBb (sideIndex side))).all fun source =>
        isPieceSurrounded s options (sideIndex side) source := by
    rw [Bool.eq_iff_iff, List.all_eq_true, List.all_eq_true]
    constructor
    · intro hall n hn
      rw [← hpiece]
      exact hall _ ((mem_maskNodes_image (h.color _) n).2 hn)
    · intro hall n' hn'
      obtain ⟨n, rfl⟩ := (nodePerm t).surjective n'
      rw [hpiece]
      exact hall n ((mem_maskNodes_image (h.color _) n).1 hn')
  unfold isAllSurrounded
  dsimp only
  rw [h.onBoard, hall]

/-! ## What legality looks at -/

/-- `s'` presents `s` under `t`, as far as legality can tell. -/
structure LegalImage (t : BoardTransform) (options : MillVariantOptions) (s s' : MillState) : Prop
    extends PositionImage t s.toMillPosition s'.toMillPosition where
  sideToMove : s'.sideToMove = s.sideToMove
  phase : s'.phase = s.phase
  action : s'.action = s.action
  pendingRemovals : s'.pendingRemovals = s.pendingRemovals
  removeOwnPiece : s'.flags.removeOwnPiece = s.flags.removeOwnPiece
  stalemateRemoving : s'.flags.stalemateRemoving = s.flags.stalemateRemoving
  bothStalemateRemoving : s'.flags.bothStalemateRemoving = s.flags.bothStalemateRemoving
  captureTargets : NodeImage t (captureTargetsOfActive s) (captureTargetsOfActive s')
  captureTotal : s'.captureTotal = s.captureTotal
  restricted : ∀ source target,
    isRestrictedRepeatedMill s' options (nodePerm t source) (nodePerm t target)
      = isRestrictedRepeatedMill s options source target
  surrounded : ∀ side source,
    isPieceSurrounded s' options side (nodePerm t source) = isPieceSurrounded s options side source

/-! ## Images of actions -/

theorem transformI8_toI8 (n : Node) : transformI8 t n.toI8 = (nodePerm t n).toI8 := by
  unfold transformI8
  rw [boardNode?_toI8]
  rfl

theorem transformI8_neg_one : transformI8 t (-1) = -1 := rfl

theorem transformI8_injective (t : BoardTransform) : Function.Injective (transformI8 t) := by
  have hout : ∀ value : Int, boardNode? value = none → transformI8 t value = value := by
    intro value hvalue
    unfold transformI8
    rw [hvalue]
  have hin : ∀ (value : Int) (n : Node), boardNode? value = some n → value = n.toI8 :=
    fun value n hvalue => (boardNode?_eq_some_iff value n).1 hvalue
  intro x y hxy
  cases hx : boardNode? x with
  | none =>
    cases hy : boardNode? y with
    | none => rwa [hout x hx, hout y hy] at hxy
    | some n =>
      rw [hout x hx, hin y n hy, transformI8_toI8] at hxy
      rw [hxy, boardNode?_toI8] at hx
      cases hx
  | some m =>
    cases hy : boardNode? y with
    | none =>
      rw [hin x m hx, transformI8_toI8, hout y hy] at hxy
      rw [← hxy, boardNode?_toI8] at hy
      cases hy
    | some n =>
      rw [hin x m hx, hin y n hy, transformI8_toI8, transformI8_toI8, Node.toI8_inj] at hxy
      rw [hin x m hx, hin y n hy, (nodePerm t).injective hxy]

theorem transformAction_injective (t : BoardTransform) :
    Function.Injective (transformAction t) := by
  intro a b hab
  cases a
  cases b
  simp only [transformAction, Action.mk.injEq] at hab
  obtain ⟨rfl, hfrom, hto, rfl, rfl⟩ := hab
  rw [transformI8_injective t hfrom, transformI8_injective t hto]

@[simp] theorem transformAction_place (n : Node) :
    transformAction t (placeAction n) = placeAction (nodePerm t n) := by
  unfold transformAction placeAction
  rw [transformI8_toI8]
  rfl

@[simp] theorem transformAction_move (m n : Node) :
    transformAction t (moveAction m n) = moveAction (nodePerm t m) (nodePerm t n) := by
  unfold transformAction moveAction
  rw [transformI8_toI8, transformI8_toI8]

@[simp] theorem transformAction_remove (n : Node) :
    transformAction t (removeAction n) = removeAction (nodePerm t n) := by
  unfold transformAction removeAction
  rw [transformI8_toI8]
  rfl

/-- An action of a kind that takes one node, in both presentations. -/
theorem image_unary {make : Node → Action}
    (hmake : ∀ n, transformAction t (make n) = make (nodePerm t n))
    {P P' : Node → Prop} (hP : ∀ n, P' (nodePerm t n) ↔ P n) (a : Action) :
    (∃ n, transformAction t a = make n ∧ P' n) ↔ ∃ n, a = make n ∧ P n := by
  constructor
  · rintro ⟨n, ha, hn⟩
    obtain ⟨m, rfl⟩ := (nodePerm t).surjective n
    exact ⟨m, transformAction_injective t (ha.trans (hmake m).symm), (hP m).1 hn⟩
  · rintro ⟨n, rfl, hn⟩
    exact ⟨nodePerm t n, hmake n, (hP n).2 hn⟩

theorem image_binary {P P' : Node → Node → Prop}
    (hP : ∀ m n, P' (nodePerm t m) (nodePerm t n) ↔ P m n) (a : Action) :
    (∃ m n, transformAction t a = moveAction m n ∧ P' m n) ↔ ∃ m n, a = moveAction m n ∧ P m n := by
  constructor
  · rintro ⟨m, n, ha, hmn⟩
    obtain ⟨k, rfl⟩ := (nodePerm t).surjective m
    obtain ⟨l, rfl⟩ := (nodePerm t).surjective n
    exact ⟨k, l, transformAction_injective t (ha.trans (transformAction_move k l).symm),
      (hP k l).1 hmn⟩
  · rintro ⟨m, n, rfl, hmn⟩
    exact ⟨nodePerm t m, nodePerm t n, transformAction_move m n, (hP m n).2 hmn⟩

/-! ## Legality -/

/-- A leap runs from one end of a line to the other. -/
theorem leapTarget?_eq_some {line : Line} (hends : line.a ≠ line.c) {source target : Node} :
    leapTarget? s options source line = some target ↔
      (source = line.a ∧ target = line.c ∨ source = line.c ∧ target = line.a)
        ∧ testBit s.boardOccupiedBitboard target = false
        ∧ testBit (s.byColorBb (sideIndex s.sideToMove).opponent) line.b = true
        ∧ isRestrictedRepeatedMill s options source target = false
        ∧ leapCaptureTargetIsRemovable s options line.b = true := by
  unfold leapTarget?
  -- the source reads the line from its first end, then from its last
  dsimp only
  simp only [Bool.not_eq_true', Bool.and_eq_true]
  split
  · rename_i hleap
    obtain ⟨rfl, hempty, hopp⟩ := hleap
    have hback : ¬(line.a = line.c ∧ target = line.a) := fun h => hends h.1
    split
    · rename_i hmay
      constructor
      · intro h
        obtain rfl := Option.some.inj h
        exact ⟨Or.inl ⟨rfl, rfl⟩, hempty, hopp, hmay.1, hmay.2⟩
      · rintro ⟨hdir, -⟩
        rw [(hdir.resolve_right hback).2]
    · rename_i hmay
      constructor
      · intro h
        cases h
      · rintro ⟨hdir, -, -, hres, hrem⟩
        have htarget := (hdir.resolve_right hback).2
        rw [htarget] at hres
        exact absurd ⟨hres, hrem⟩ hmay
  · rename_i hleap
    split
    · rename_i hback
      obtain ⟨rfl, hempty, hopp, hmay⟩ := hback
      constructor
      · intro h
        obtain rfl := Option.some.inj h
        exact ⟨Or.inr ⟨rfl, rfl⟩, hempty, hopp, hmay.1, hmay.2⟩
      · rintro ⟨hdir, -⟩
        rcases hdir with ⟨hsame, -⟩ | ⟨-, htarget⟩
        · exact absurd hsame.symm hends
        · rw [htarget]
    · rename_i hback
      constructor
      · intro h
        cases h
      · rintro ⟨hdir, hempty, hopp, hres, hrem⟩
        rcases hdir with ⟨rfl, rfl⟩ | ⟨rfl, rfl⟩
        · exact absurd ⟨rfl, hempty, hopp⟩ hleap
        · exact absurd ⟨rfl, hempty, hopp, hres, hrem⟩ hback

namespace LegalImage

variable (h : LegalImage t options s s')
include h

theorem canFly_eq (allowFly : Bool) : canFly s' options allowFly = canFly s options allowFly := by
  unfold canFly
  rw [h.sideToMove, h.inHand, h.onBoard]

theorem leapEnabled_eq (allowFly : Bool) :
    leapEnabled s' options allowFly = leapEnabled s options allowFly := by
  unfold leapEnabled capturePieceCountAllowedLeap
  rw [h.canFly_eq, h.sideToMove, h.inHand, h.onBoard, h.phase]

theorem opponentPiece_eq : s'.opponentPiece = s.opponentPiece := by
  unfold MillState.opponentPiece
  rw [h.sideToMove]

theorem removable (n : Node) : leapCaptureTargetIsRemovable s' options (nodePerm t n)
    = leapCaptureTargetIsRemovable s options n := by
  have hmembers := @millMembersMaskForPiece_image _ options _ _ h.toPositionImage
    s.opponentPiece
  have hopp := h.toPositionImage.pieceBitboard s.opponentPiece
  unfold leapCaptureTargetIsRemovable
  dsimp only
  rw [h.opponentPiece_eq, hopp.node, hmembers.node,
    NodeImage.decide_ne_zero (hopp.andNot hmembers)]

theorem leap_iff {l l' : Line} (hl : l.a ≠ l.c) (hl' : l'.a ≠ l'.c) (himage : LineImage t l l')
    (source target : Node) :
    leapTarget? s' options (nodePerm t source) l' = some (nodePerm t target)
      ↔ leapTarget? s options source l = some target := by
  rw [leapTarget?_eq_some hl, leapTarget?_eq_some hl', h.toPositionImage.empty, h.sideToMove,
    himage.1, (h.color _).node, h.restricted, h.removable]
  refine and_congr ?_ Iff.rfl
  have hinj : ∀ m n, nodePerm t m = nodePerm t n ↔ m = n := fun m n =>
    (nodePerm t).injective.eq_iff
  rcases himage.2 with ⟨ha, hc⟩ | ⟨ha, hc⟩
  · rw [ha, hc, hinj, hinj, hinj, hinj]
  · rw [ha, hc, hinj, hinj, hinj, hinj, or_comm]

theorem placeTarget_iff (n : Node) : PlaceTarget s' (nodePerm t n) ↔ PlaceTarget s n := by
  unfold PlaceTarget
  rw [h.inHand, h.sideToMove, h.toPositionImage.empty]

theorem moveTarget_iff (allowFly : Bool) (source target : Node) :
    MoveTarget s' options allowFly (nodePerm t source) (nodePerm t target)
      ↔ MoveTarget s options allowFly source target := by
  unfold MoveTarget
  rw [h.sideToMove, (h.color _).node, h.toPositionImage.empty, h.restricted, h.canFly_eq,
    h.leapEnabled_eq, adjacent_image]
  refine and_congr_right fun _ =>
    or_congr Iff.rfl (and_congr_right fun _ => and_congr_right fun _ => ?_)
  have hclosed := activeCaptureLines_closed options.leapCapture options
  have hends := activeCaptureLines_ends options.leapCapture options
  constructor
  · rintro ⟨l', hl', hleap⟩
    obtain ⟨l, hl, himage⟩ := hclosed.onto t hl'
    exact ⟨l, hl, (h.leap_iff (hends l hl) (hends l' hl') himage source target).1 hleap⟩
  · rintro ⟨l, hl, hleap⟩
    obtain ⟨l', hl', himage⟩ := hclosed t l hl
    exact ⟨l', hl', (h.leap_iff (hends l hl) (hends l' hl') himage source target).2 hleap⟩

theorem isAllSurrounded_eq (side : Int) :
    isAllSurrounded s' options side = isAllSurrounded s options side :=
  isAllSurrounded_image h.toPositionImage h.surrounded side

theorem isStalemateRemovalContext_eq :
    isStalemateRemovalContext s' options = isStalemateRemovalContext s options := by
  unfold isStalemateRemovalContext
  rw [h.stalemateRemoving, h.bothStalemateRemoving, h.phase, h.sideToMove, h.pendingRemovals,
    h.isAllSurrounded_eq]

theorem isAdjacentToSidePiece_eq (n : Node) :
    isAdjacentToSidePiece s' options (nodePerm t n) = isAdjacentToSidePiece s options n := by
  unfold isAdjacentToSidePiece
  rw [h.sideToMove]
  have hmask := (h.toPositionImage.pieceBitboard (s.sideToMove + 1)).and
    (nodeImage_neighborMaskFor options.hasDiagonalLines n)
  rw [NodeImage.decide_ne_zero hmask]

theorem isRegularRemoveTarget_eq (piece : Int) {excluded excluded' : Bitboard}
    (hexcluded : NodeImage t excluded excluded') (n : Node) :
    isRegularRemoveTarget s' options piece excluded' (nodePerm t n)
      = isRegularRemoveTarget s options piece excluded n := by
  have hpiece := h.toPositionImage.pieceBitboard piece
  have hmembers : NodeImage t
      (if !options.mayRemoveFromMillsAlways && !isStalemateRemovalContext s options then
        millMembersMaskForPiece s options piece else 0)
      (if !options.mayRemoveFromMillsAlways && !isStalemateRemovalContext s options then
        millMembersMaskForPiece s' options piece else 0) := by
    split
    · exact millMembersMaskForPiece_image h.toPositionImage piece
    · exact nodeImage_zero t
  unfold isRegularRemoveTarget
  dsimp only
  rw [h.isStalemateRemovalContext_eq, h.sideToMove, hpiece.node, hexcluded.node,
    h.isAdjacentToSidePiece_eq, hmembers.node,
    NodeImage.decide_ne_zero (hpiece.andNot hmembers)]

theorem removeTarget_iff (n : Node) :
    RemoveTarget s' options (nodePerm t n) ↔ RemoveTarget s options n := by
  have hlive : NodeImage t (captureTargetsOfActive s &&& s.pieceBitboard s.opponentPiece)
      (captureTargetsOfActive s' &&& s'.pieceBitboard s.opponentPiece) :=
    h.captureTargets.and (h.toPositionImage.pieceBitboard s.opponentPiece)
  unfold RemoveTarget
  rw [h.sideToMove, h.opponentPiece_eq, h.captureTotal, h.pendingRemovals, h.removeOwnPiece,
    hlive.node, h.captureTargets.ne_zero_iff,
    h.isRegularRemoveTarget_eq _ (nodeImage_zero t),
    h.isRegularRemoveTarget_eq _ h.captureTargets]

theorem actionForLegalGeneration_eq : s'.actionForLegalGeneration = s.actionForLegalGeneration := by
  unfold MillState.actionForLegalGeneration MillState.syncedAction
  rw [h.phase, h.sideToMove, h.action, h.pendingRemovals]

/-- **The legal actions of the image are the images of the legal actions.** -/
theorem legalAction_iff (a : Action) :
    LegalAction s' options (transformAction t a) ↔ LegalAction s options a := by
  unfold LegalAction
  rw [h.actionForLegalGeneration_eq]
  cases s.actionForLegalGeneration with
  | remove =>
    dsimp only
    rw [h.sideToMove, h.pendingRemovals]
    exact and_congr_right fun _ => image_unary transformAction_remove h.removeTarget_iff a
  | place =>
    exact or_congr (image_unary transformAction_place h.placeTarget_iff a)
      (and_congr_right fun _ => image_binary (h.moveTarget_iff false) a)
  | select =>
    dsimp only
    rw [h.phase]
    exact and_congr_right fun _ => image_binary (h.moveTarget_iff true) a
  | gameOver => exact Iff.rfl

end LegalImage

end Sanmill
