import Sanmill.Proof.OpeningBook.Fen
import Sanmill.Proof.Symmetry.Legal

/-!
# Reading the image of a text

The rules read the text of an image as the image of the position, with no formed mill
and the first counter at zero. The fields that name a last mill or a capture target
are copied as they are: `BookImage` says so. Legality agrees where it does not look at
these fields.
-/

namespace Sanmill

open Bits

variable {t : BoardTransform} {options : MillVariantOptions} {s s' : MillState}

/-! ## Images whose other fields are copied -/

/-- `s'` has the image of the board of `s`, and otherwise the fields of `s`. -/
structure BookImage (t : BoardTransform) (s s' : MillState) : Prop
    extends PositionImage t s.toMillPosition s'.toMillPosition where
  captures : s'.toMillCaptures = s.toMillCaptures
  sideToMove : s'.sideToMove = s.sideToMove
  phase : s'.phase = s.phase
  action : s'.action = s.action
  pendingRemovals : s'.pendingRemovals = s.pendingRemovals
  removeOwnPiece : s'.flags.removeOwnPiece = s.flags.removeOwnPiece
  stalemateRemoving : s'.flags.stalemateRemoving = s.flags.stalemateRemoving
  bothStalemateRemoving : s'.flags.bothStalemateRemoving = s.flags.bothStalemateRemoving
  lastMillFrom : s'.lastMillFrom = s.lastMillFrom
  lastMillTo : s'.lastMillTo = s.lastMillTo

/-- No side is kept from moving back into a mill. -/
def QuietMills (options : MillVariantOptions) (s : MillState) : Prop :=
  options.restrictRepeatedMillsFormation = false
    ∨ ∀ c, s.lastMillFrom c < 0 ∨ s.lastMillTo c < 0

theorem QuietMills.not_restricted (h : QuietMills options s) (source target : Node) :
    isRestrictedRepeatedMill s options source target = false := by
  unfold isRestrictedRepeatedMill
  rcases h with hoff | hnone
  · rw [hoff]
    rfl
  · have := hnone (sideIndex s.sideToMove)
    simp only [this, if_true, ite_self]

theorem boardNode?_neg {value : Int} (h : value < 0) : boardNode? value = none := by
  unfold boardNode?
  rw [dif_neg (by omega)]

/-- Then a piece is surrounded when no neighbour is empty. -/
theorem QuietMills.isPieceSurrounded_eq (h : QuietMills options s) (side : Side) (source : Node) :
    isPieceSurrounded s options side source
      = decide (neighborMaskFor source options.hasDiagonalLines
      &&& ~~~s.boardOccupiedBitboard = 0) := by
  unfold isPieceSurrounded
  dsimp only
  rcases h with hoff | hnone
  · rw [hoff, Bool.false_and, Bool.or_false]
  · rcases hnone side with hneg | hneg
    · rw [boardNode?_neg hneg]
      cases boardNode? (s.lastMillTo side) <;> simp
    · rw [boardNode?_neg hneg]
      simp

namespace BookImage

variable (h : BookImage t s s')
include h

theorem quiet (hq : QuietMills options s) : QuietMills options s' := by
  unfold QuietMills at hq ⊢
  rwa [h.lastMillFrom, h.lastMillTo]

theorem surrounded (hq : QuietMills options s) (side : Side) (source : Node) :
    isPieceSurrounded s' options side (nodePerm t source)
      = isPieceSurrounded s options side source := by
  have hmask : NodeImage t
      (neighborMaskFor source options.hasDiagonalLines &&& ~~~s.boardOccupiedBitboard)
      (neighborMaskFor (nodePerm t source) options.hasDiagonalLines
        &&& ~~~s'.boardOccupiedBitboard) :=
    (nodeImage_neighborMaskFor options.hasDiagonalLines source).andNot h.toPositionImage.occupied
  rw [(h.quiet hq).isPieceSurrounded_eq, hq.isPieceSurrounded_eq, decide_eq_decide]
  exact hmask.eq_zero_iff.symm

theorem captureTargetsOfActive_eq : captureTargetsOfActive s' = captureTargetsOfActive s := by
  unfold captureTargetsOfActive
  rw [h.captures, h.sideToMove]

theorem captureTotal_eq : s'.captureTotal = s.captureTotal := by
  unfold MillState.captureTotal
  rw [h.captures, h.sideToMove]

/-- **The two states have corresponding legal actions where no copied field is looked at.** -/
theorem legalImage (hq : QuietMills options s) (hnone : captureTargetsOfActive s = 0) :
    LegalImage t options s s' :=
  { h.toPositionImage with
    sideToMove := h.sideToMove
    phase := h.phase
    action := h.action
    pendingRemovals := h.pendingRemovals
    removeOwnPiece := h.removeOwnPiece
    stalemateRemoving := h.stalemateRemoving
    bothStalemateRemoving := h.bothStalemateRemoving
    captureTargets := by
      rw [h.captureTargetsOfActive_eq, hnone]
      exact nodeImage_zero t
    captureTotal := h.captureTotal_eq
    restricted := fun source target => by
      rw [(h.quiet hq).not_restricted, hq.not_restricted]
    surrounded := h.surrounded hq }

/-! ## The terminal checks -/

theorem finishGame (winner : Int) (reason : MillOutcomeReason) :
    BookImage t (finishGame s winner reason) (Sanmill.finishGame s' winner reason) :=
  { h with
    sideToMove := rfl
    phase := rfl }

theorem armBoardFullRemovals (first : Side) (owed : Side → Nat) :
    BookImage t (armBoardFullRemovals s first owed) (Sanmill.armBoardFullRemovals s' first owed) :=
  { h with
    sideToMove := rfl
    pendingRemovals := rfl }

theorem maybeFinishFullBoard (options : MillVariantOptions) :
    BookImage t (maybeFinishFullBoard s options) (Sanmill.maybeFinishFullBoard s' options) := by
  unfold Sanmill.maybeFinishFullBoard
  rw [h.phase, h.pendingRemovals, h.toPositionImage.emptySquareCount]
  split
  · exact h
  · split
    · exact h
    · split
      · exact h
      · cases options.boardFullAction with
        | firstPlayerLose => exact h.finishGame _ _
        | agreeToDraw => exact h.finishGame _ _
        | firstAndSecondPlayerRemovePiece => exact h.armBoardFullRemovals _ _
        | secondAndFirstPlayerRemovePiece => exact h.armBoardFullRemovals _ _
        | sideToMoveRemovePiece => exact h.armBoardFullRemovals _ _

theorem syncActionState : BookImage t s.syncActionState s'.syncActionState :=
  { h with
    action := by
      simp only [MillState.syncActionState, MillState.syncedAction, h.phase, h.sideToMove,
        h.pendingRemovals] }

theorem owe (side : Side) (count : Nat) :
    BookImage t (s.setPendingRemovals side count) (s'.setPendingRemovals side count) :=
  { h with
    pendingRemovals := by
      unfold MillState.setPendingRemovals
      rw [h.pendingRemovals] }

theorem clearCaptureState : BookImage t s.clearCaptureState s'.clearCaptureState :=
  { h with captures := rfl }

theorem setStalemateRemoving (enabled : Bool) :
    BookImage t (s.setStalemateRemoving enabled) (s'.setStalemateRemoving enabled) :=
  { h with stalemateRemoving := rfl }

theorem setBothStalemateRemoving (enabled : Bool) :
    BookImage t (s.setBothStalemateRemoving enabled) (s'.setBothStalemateRemoving enabled) :=
  { h with bothStalemateRemoving := rfl }

theorem applyStalemateAction (options : MillVariantOptions) :
    BookImage t (applyStalemateAction s options) (Sanmill.applyStalemateAction s' options) := by
  unfold Sanmill.applyStalemateAction
  cases options.stalemateAction with
  | endWithStalemateLoss => exact { h with phase := rfl }
  | changeSideToMove =>
    exact
      { h with
        sideToMove := by
          unfold syncPhaseWithActiveHand
          rw [h.sideToMove]
        phase := by
          unfold syncPhaseWithActiveHand
          dsimp only
          rw [h.phase, h.sideToMove, h.inHand] }
  | removeOpponentsPieceAndMakeNextMove =>
    dsimp only
    rw [h.sideToMove]
    exact ((h.owe _ 1).setStalemateRemoving true).clearCaptureState
  | removeOpponentsPieceAndChangeSideToMove =>
    dsimp only
    rw [h.sideToMove]
    exact (h.owe _ 1).clearCaptureState
  | endWithStalemateDraw => exact { h with phase := rfl }
  | bothPlayersRemoveOpponentsPiece =>
    dsimp only
    rw [h.sideToMove]
    exact (((h.owe _ 1).owe _ 1).setBothStalemateRemoving true).clearCaptureState

theorem maybeHandleStalemate (hq : QuietMills options s) :
    BookImage t (maybeHandleStalemate s options).1 (Sanmill.maybeHandleStalemate s' options).1 := by
  have hstalemated : isStalemated s' options = isStalemated s options := by
    unfold isStalemated
    rw [h.phase, h.sideToMove, h.pendingRemovals, h.onBoard,
      isAllSurrounded_image h.toPositionImage (h.surrounded hq)]
  unfold Sanmill.maybeHandleStalemate
  rw [hstalemated]
  split
  · exact (h.applyStalemateAction options).syncActionState
  · exact h

theorem shortSide?_eq (options : MillVariantOptions) :
    shortSide? s' options = shortSide? s options := by
  unfold shortSide?
  rw [h.onBoard, h.inHand]

end BookImage

/-- The game was drawn by its move counter. -/
def DrawnByCounter (s : MillState) : Prop :=
  s.outcomeReason = .drawFiftyMove ∨ s.outcomeReason = .drawEndgameFiftyMove

/-- The terminal checks, with the move counter left out. -/
def checkWithoutCounter (state : MillState) (options : MillVariantOptions) : MillState :=
  if state.phase = .gameOver ∨ state.sideToMove < 0 then state
  else
    let state := maybeFinishFullBoard state options
    if state.phase = .gameOver then state
    else match if state.phase = .moving then shortSide? state options else none with
      | some side => finishGame state side.opponent.toI8 .loseFewerThanThree
      | none => (maybeHandleStalemate state options).1

/-- The counter rule leaves a state alone or ends the game as a draw of its own. -/
theorem maybeDrawByNMoveRule_counter (s : MillState) (options : MillVariantOptions) :
    maybeDrawByNMoveRule s options true = s
      ∨ ((maybeDrawByNMoveRule s options true).phase = .gameOver
        ∧ DrawnByCounter (maybeDrawByNMoveRule s options true)
        ∧ s.plySinceCapture ≠ 0) := by
  unfold maybeDrawByNMoveRule
  rw [if_neg (by decide)]
  split
  · exact Or.inl rfl
  · split
    · rename_i hdue
      refine Or.inr ⟨rfl, ?_, by omega⟩
      unfold DrawnByCounter finishGame
      dsimp only
      split
      · exact Or.inr rfl
      · exact Or.inl rfl
    · exact Or.inl rfl

/-- Unless the counter ends the game, the checks are those without it. -/
theorem checkIfGameIsOver_eq {s : MillState} (h : s.plySinceCapture = 0
    ∨ ¬DrawnByCounter (checkIfGameIsOver s options)) :
    checkIfGameIsOver s options = checkWithoutCounter s options := by
  have hply : (maybeFinishFullBoard s options).plySinceCapture = s.plySinceCapture := by
    rcases maybeFinishFullBoard_cases s options
        with hsame | ⟨-, -, ⟨_, _, -, hend⟩ | ⟨_, _, -, -, harm⟩⟩
    · rw [hsame]
    · rw [hend]
      rfl
    · rw [harm]
      rfl
  unfold checkIfGameIsOver checkWithoutCounter at *
  split at h
  · rename_i hover
    rw [if_pos hover, if_pos hover]
  · rename_i hover
    rw [if_neg hover, if_neg hover]
    dsimp only at h ⊢
    split at h
    · rename_i hfull
      rw [if_pos hfull, if_pos hfull]
    · rename_i hfull
      rw [if_neg hfull, if_neg hfull]
      -- the counter is only read by the rule of n moves, and that rule did not end the game
      rcases maybeDrawByNMoveRule_counter (maybeFinishFullBoard s options) options with
        hsame | ⟨hdrawn, hreason, hcounter⟩
      · rw [hsame]
        exact if_neg hfull
      · rw [if_pos hdrawn] at h
        rcases h with hzero | hnot
        · rw [hply] at hcounter
          exact absurd hzero hcounter
        · exact absurd hreason hnot

/-! The terminal checks do not touch the record of the last mills. -/

/-- The last mills are as before. -/
def KeepsMills (s u : MillState) : Prop :=
  u.lastMillFrom = s.lastMillFrom ∧ u.lastMillTo = s.lastMillTo

theorem maybeFinishFullBoard_keepsMills (s : MillState) (options : MillVariantOptions) :
    KeepsMills s (maybeFinishFullBoard s options) := by
  rcases maybeFinishFullBoard_cases s options
      with hsame | ⟨-, -, ⟨_, _, -, hend⟩ | ⟨_, _, -, -, harm⟩⟩
  · rw [hsame]
    exact ⟨rfl, rfl⟩
  · rw [hend]
    exact ⟨rfl, rfl⟩
  · rw [harm]
    exact ⟨rfl, rfl⟩

theorem maybeHandleStalemate_keepsMills (s : MillState) (options : MillVariantOptions) :
    KeepsMills s (maybeHandleStalemate s options).1 := by
  unfold maybeHandleStalemate
  split
  · unfold applyStalemateAction
    cases options.stalemateAction <;> exact ⟨rfl, rfl⟩
  · exact ⟨rfl, rfl⟩

theorem KeepsMills.quiet {u : MillState} (h : KeepsMills s u) :
    QuietMills options u ↔ QuietMills options s := by
  unfold QuietMills
  rw [h.1, h.2]

theorem checkWithoutCounter_keepsMills (s : MillState) (options : MillVariantOptions) :
    KeepsMills s (checkWithoutCounter s options) := by
  have hfull := maybeFinishFullBoard_keepsMills s options
  have hstale := maybeHandleStalemate_keepsMills (maybeFinishFullBoard s options) options
  unfold checkWithoutCounter
  dsimp only
  split
  · exact ⟨rfl, rfl⟩
  · split
    · exact hfull
    · split
      · exact hfull
      · exact ⟨hstale.1.trans hfull.1, hstale.2.trans hfull.2⟩

theorem checkWithoutCounter_image (h : BookImage t s s') (hq : QuietMills options s) :
    BookImage t (checkWithoutCounter s options) (checkWithoutCounter s' options) := by
  have hfull := h.maybeFinishFullBoard options
  have hquiet : QuietMills options (maybeFinishFullBoard s options) :=
    (maybeFinishFullBoard_keepsMills s options).quiet.2 hq
  unfold checkWithoutCounter
  dsimp only
  rw [h.phase, h.sideToMove, hfull.phase, hfull.shortSide?_eq]
  split
  · exact h
  · split
    · exact hfull
    · split
      · exact hfull.finishGame _ _
      · exact hfull.maybeHandleStalemate hquiet

/-! ## Loading -/

/-- Loading both states back keeps the correspondence. -/
theorem BookImage.reloaded (h : BookImage t s s') (options : MillVariantOptions) :
    BookImage t (reloaded options s) (Sanmill.reloaded options s') :=
  { h with
    color := fun c => nodeImage_of
      (fun n => by
        change testBit (bitboardsFromBoard s'.board s'.delayedMarkedPieces c) _
          = testBit (bitboardsFromBoard s.board s.delayedMarkedPieces c) _
        rw [testBit_bitboardsFromBoard, testBit_bitboardsFromBoard, h.board, h.marks.node])
      (bitboardsFromBoard_below _ _ c) (bitboardsFromBoard_below _ _ c) }

/-! ## Reading the two texts -/

theorem getD_transformChars {chars : Text} (hlen : chars.length = 24) (n : Node) :
    (transformChars t chars).getD (nodePerm t n).val '*' = chars.getD n.val '*' := by
  rw [List.getD_eq_getElem?_getD, getElem?_transformChars t hlen, List.getD_eq_getElem?_getD]

theorem ofChars_marks_eq (chars : Text) : (FenBoard.ofChars chars).delayedMarkedPieces
    = union (((List.finRange 24).filter fun n => chars.getD n.val '*' = 'X').map nodeBit) := by
  unfold FenBoard.ofChars union
  rw [List.foldl_map, List.foldl_filter]
  simp only [decide_eq_true_eq]
  rfl

theorem ofChars_marks_image {chars : Text} (hlen : chars.length = 24) (t : BoardTransform) :
    NodeImage t (FenBoard.ofChars chars).delayedMarkedPieces
      (FenBoard.ofChars (transformChars t chars)).delayedMarkedPieces := by
  rw [ofChars_marks_eq, ofChars_marks_eq]
  refine MaskImage.union (fun m hm => ?_) (fun m' hm' => ?_)
  · obtain ⟨n, hn, rfl⟩ := List.mem_map.1 hm
    refine ⟨nodeBit (nodePerm t n), List.mem_map_of_mem ?_, nodeImage_nodeBit n⟩
    rw [List.mem_filter, getD_transformChars hlen]
    exact ⟨List.mem_finRange _, (List.mem_filter.1 hn).2⟩
  · obtain ⟨n', hn', rfl⟩ := List.mem_map.1 hm'
    obtain ⟨n, rfl⟩ := (nodePerm t).surjective n'
    refine ⟨nodeBit n, List.mem_map_of_mem ?_, nodeImage_nodeBit n⟩
    rw [List.mem_filter, getD_transformChars hlen] at hn'
    exact List.mem_filter.2 ⟨List.mem_finRange _, hn'.2⟩

/-- The record of the text of an image. -/
def FenRecord.normalized (record : FenRecord) : FenRecord :=
  { record with formedMillsBb := fun _ => 0, rule50 := 0 }

theorem imported_board (record : FenRecord) (fenBoard : FenBoard) (options : MillVariantOptions) :
    (record.imported fenBoard options).board = fenBoard.board := rfl

theorem imported_marks (record : FenRecord) (fenBoard : FenBoard) (options : MillVariantOptions) :
    (record.imported fenBoard options).delayedMarkedPieces = fenBoard.delayedMarkedPieces := rfl

theorem imported_color (record : FenRecord) (fenBoard : FenBoard) (options : MillVariantOptions) :
    (record.imported fenBoard options).byColorBb
      = bitboardsFromBoard fenBoard.board fenBoard.delayedMarkedPieces := rfl

/-- Normalizing a record leaves what legality looks at. -/
theorem imported_copies (record : FenRecord) {fenBoard fenBoard' : FenBoard}
    (h : PositionImage t (record.imported fenBoard options).toMillPosition
      (record.normalized.imported fenBoard' options).toMillPosition) :
    BookImage t (record.imported fenBoard options) (record.normalized.imported fenBoard' options) :=
  { h with
    captures := rfl
    sideToMove := rfl
    phase := rfl
    action := rfl
    pendingRemovals := rfl
    removeOwnPiece := rfl
    stalemateRemoving := rfl
    bothStalemateRemoving := rfl
    lastMillFrom := rfl
    lastMillTo := rfl }

/-- The record and the board of the image, imported, are the image of what was imported. -/
theorem imported_image {chars : Text} (hlen : chars.length = 24) (record : FenRecord)
    (t : BoardTransform) (options : MillVariantOptions) :
    BookImage t (record.imported (.ofChars chars) options)
      (record.normalized.imported (.ofChars (transformChars t chars)) options) := by
  have hboard : ∀ n, (FenBoard.ofChars (transformChars t chars)).board (nodePerm t n)
      = (FenBoard.ofChars chars).board n := fun n => by
    unfold FenBoard.ofChars
    dsimp only
    rw [getD_transformChars hlen]
  have hmarks := ofChars_marks_image hlen t
  have hposition : PositionImage t (record.imported (.ofChars chars) options).toMillPosition
      (record.normalized.imported (.ofChars (transformChars t chars)) options).toMillPosition :=
    { board := by
        rw [imported_board, imported_board]
        exact hboard
      color := fun c => by
        rw [imported_color, imported_color]
        refine nodeImage_of (fun n => ?_) (bitboardsFromBoard_below _ _ c)
          (bitboardsFromBoard_below _ _ c)
        rw [testBit_bitboardsFromBoard, testBit_bitboardsFromBoard, hboard, hmarks.node]
      marks := by
        rw [imported_marks, imported_marks]
        exact hmarks
      inHand := rfl
      onBoard := rfl }
  exact imported_copies record hposition

theorem getD_normalTail (tail : List Text) {k : Nat} (h13 : k ≠ 13) (h14 : k ≠ 14) :
    (normalTail tail).getD k [] = tail.getD k [] := by
  unfold normalTail
  rw [List.getD_eq_getElem?_getD, List.getElem?_set_ne (Ne.symm h14),
    List.getElem?_set_ne (Ne.symm h13), List.getD_eq_getElem?_getD]

/-- The fields of the text of an image are read as those of the text, normalized. -/
theorem FenRecord.Reads.image {board board' : Text} {tail : List Text} (henough : 16 ≤ tail.length)
    {record : FenRecord} (h : record.Reads (board :: tail) ((board :: tail).drop 17)) :
    record.normalized.Reads (board' :: normalTail tail) ((board' :: normalTail tail).drop 17) := by
  -- normalization sets two fields to zero and keeps the rest
  have hext : (board' :: normalTail tail).drop 17 = (board :: tail).drop 17 := by
    rw [List.drop_succ_cons, List.drop_succ_cons]
    unfold normalTail
    rw [List.drop_set_of_lt (by decide), List.drop_set_of_lt (by decide)]
  have hfield : ∀ k, k ≠ 13 → k ≠ 14 →
      (board' :: normalTail tail).getD (k + 1) [] = (board :: tail).getD (k + 1) [] := by
    intro k h13 h14
    rw [List.getD_cons_succ, List.getD_cons_succ, getD_normalTail tail h13 h14]
  have hmills : (board' :: normalTail tail).getD 14 [] = ['0'] := by
    rw [List.getD_cons_succ, List.getD_eq_getElem?_getD]
    unfold normalTail
    rw [List.getElem?_set_ne (by decide), List.getElem?_set_self (by omega)]
    rfl
  have hcounter : (board' :: normalTail tail).getD 15 [] = ['0'] := by
    rw [List.getD_cons_succ, List.getD_eq_getElem?_getD]
    unfold normalTail
    rw [List.getElem?_set_self (by rw [List.length_set]; omega)]
    rfl
  have hmode : ∀ mode, parseNodeBitboard 0 mode = .ok 0 := by
    intro mode
    cases mode <;> rfl
  rw [hext]
  exact
    { side := by rw [hfield 0 (by decide) (by decide)]; exact h.side
      phase := by rw [hfield 1 (by decide) (by decide)]; exact h.phase
      action := by rw [hfield 2 (by decide) (by decide)]; exact h.action
      onBoardW := by rw [hfield 3 (by decide) (by decide)]; exact h.onBoardW
      inHandW := by rw [hfield 4 (by decide) (by decide)]; exact h.inHandW
      onBoardB := by rw [hfield 5 (by decide) (by decide)]; exact h.onBoardB
      inHandB := by rw [hfield 6 (by decide) (by decide)]; exact h.inHandB
      removeW := by rw [hfield 7 (by decide) (by decide)]; exact h.removeW
      removeB := by rw [hfield 8 (by decide) (by decide)]; exact h.removeB
      lastMillFromW := by rw [hfield 9 (by decide) (by decide)]; exact h.lastMillFromW
      lastMillToW := by rw [hfield 10 (by decide) (by decide)]; exact h.lastMillToW
      lastMillFromB := by rw [hfield 11 (by decide) (by decide)]; exact h.lastMillFromB
      lastMillToB := by rw [hfield 12 (by decide) (by decide)]; exact h.lastMillToB
      formedMills := ⟨0, by rw [hmills]; rfl, hmode _, hmode _⟩
      rule50 := by rw [hcounter]; rfl
      fullMove := by rw [hfield 15 (by decide) (by decide)]; exact h.fullMove
      ext := h.ext }

/-- A text that is read describes an imported record of its own board. -/
theorem BookText.imported {fen chars : Text} {tail : List Text} (h : BookText fen chars tail)
    (hread : setFromFen options fen = .ok s) :
    ∃ record : FenRecord, (∀ c ∈ chars, isFenPiece c = true)
      ∧ record.Reads (joinRanks chars :: tail) ((joinRanks chars :: tail).drop 17)
      ∧ s = checkIfGameIsOver (record.imported (.ofChars chars) options) options := by
  obtain ⟨-, fenBoard, record, hboard, hrecord, rfl⟩ := setFromFen_eq_ok.1 hread
  rw [h.fields] at hboard hrecord
  rw [List.getD_cons_zero] at hboard
  obtain ⟨-, hpieces, rfl⟩ := parseFenBoard_eq_ok hboard
  rw [splitOn_joinRanks h.slash, flatten_ranks] at hpieces ⊢
  exact ⟨record, hpieces, hrecord, rfl⟩

/-- **The rules read the text of an image as the image.** -/
theorem BookText.setFromFen_image {fen chars : Text} {tail : List Text}
    (h : BookText fen chars tail) (hread : setFromFen options fen = .ok s) (t : BoardTransform)
    (hq : QuietMills options s) (hcounter : ¬DrawnByCounter s) :
    ∃ s', setFromFen options (bookText (transformChars t chars) tail) = .ok s'
      ∧ BookImage t s s' := by
  obtain ⟨record, hpieces, hrecord, rfl⟩ := h.imported hread
  have himage := h.image t
  have hmoved : ∀ c ∈ transformChars t chars, isFenPiece c = true := fun c hc =>
    hpieces c (mem_of_mem_transformChars h.length hc)
  have hstep := imported_image h.length record t options
  have hquiet : QuietMills options (record.imported (.ofChars chars) options) := by
    rw [checkIfGameIsOver_eq (Or.inr hcounter)] at hq
    exact (checkWithoutCounter_keepsMills _ options).quiet.1 hq
  refine ⟨checkIfGameIsOver
      (record.normalized.imported (.ofChars (transformChars t chars)) options) options,
    setFromFen_eq_ok.2 ⟨?_, .ofChars (transformChars t chars), record.normalized, ?_, ?_, rfl⟩, ?_⟩
  · have := himage.enough
    rw [himage.fields, List.length_cons]
    omega
  · rw [himage.fields, List.getD_cons_zero]
    exact parseFenBoard_joinRanks (length_transformChars t chars) hmoved
  · rw [himage.fields]
    exact hrecord.image h.enough
  · rw [checkIfGameIsOver_eq (Or.inr hcounter), checkIfGameIsOver_eq (Or.inl rfl)]
    exact checkWithoutCounter_image hstep hquiet

end Sanmill
