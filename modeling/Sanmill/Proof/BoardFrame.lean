import Sanmill.Mill.LegalApply
import Sanmill.Proof.Sides

/-!
# What an action does to the board

From any state, sound or not, an action writes to the squares it names and to the count of the
piece it sets or takes. Otherwise it only sweeps marked pieces off the board and takes pieces
out of the hands. So a live piece that is not named stays live, and the counts grow by a
placement only.
-/

namespace Sanmill

open Bits

/-- Nothing on the board changes, but marked pieces may be swept off, and hands may shrink. -/
structure BoardKept (s t : MillState) : Prop where
  board : ∀ n, t.board n = s.board n ∨ (s.isMarked n = true ∧ t.board n = 0)
  marks : ∀ n, t.isMarked n = true → s.isMarked n = true
  piecesOnBoard : t.piecesOnBoard = s.piecesOnBoard
  hands : ∀ x, t.piecesInHand x ≤ s.piecesInHand x

variable {s t u : MillState} {options : MillVariantOptions} {n : Node} {c : Side}

namespace BoardKept

theorem of_hands (hboard : t.board = s.board)
    (hmarks : t.delayedMarkedPieces = s.delayedMarkedPieces)
    (hcounts : t.piecesOnBoard = s.piecesOnBoard)
    (hhands : ∀ x, t.piecesInHand x ≤ s.piecesInHand x) : BoardKept s t where
  board m := Or.inl (congrFun hboard m)
  marks m hm := by
    unfold MillPosition.isMarked at hm ⊢
    rwa [hmarks] at hm
  piecesOnBoard := hcounts
  hands := hhands

theorem of_eq (hboard : t.board = s.board)
    (hmarks : t.delayedMarkedPieces = s.delayedMarkedPieces)
    (hcounts : t.piecesOnBoard = s.piecesOnBoard)
    (hhands : t.piecesInHand = s.piecesInHand) : BoardKept s t :=
  of_hands hboard hmarks hcounts fun x => (congrFun hhands x).le

theorem refl (s : MillState) : BoardKept s s := of_eq rfl rfl rfl rfl

theorem trans (h₁ : BoardKept s t) (h₂ : BoardKept t u) : BoardKept s u where
  board m := by
    rcases h₂.board m with heq | ⟨hmarked, hzero⟩
    · rcases h₁.board m with heq' | ⟨hmarked, hzero⟩
      · exact Or.inl (heq.trans heq')
      · exact Or.inr ⟨hmarked, heq.trans hzero⟩
    · exact Or.inr ⟨h₁.marks m hmarked, hzero⟩
  marks m hm := h₁.marks m (h₂.marks m hm)
  piecesOnBoard := h₂.piecesOnBoard.trans h₁.piecesOnBoard
  hands x := (h₂.hands x).trans (h₁.hands x)

theorem ite {p : Prop} [Decidable p] (h₁ : BoardKept s t) (h₂ : BoardKept s u) :
    BoardKept s (if p then t else u) := by
  split
  · exact h₁
  · exact h₂

theorem ite_fst {p : Prop} [Decidable p] {first second : MillState × Option Key}
    (h₁ : BoardKept s first.1) (h₂ : BoardKept s second.1) :
    BoardKept s (if p then first else second).1 := by
  split
  · exact h₁
  · exact h₂

end BoardKept

/-! ## The end of a turn -/

theorem foldl_setBoardNode (nodes : List Node) (s : MillState) :
    (∀ m, (nodes.foldl (fun s node => s.setBoardNode node 0) s).board m
        = if m ∈ nodes then 0 else s.board m)
      ∧ (nodes.foldl (fun s node => s.setBoardNode node 0) s).delayedMarkedPieces
        = s.delayedMarkedPieces
      ∧ (nodes.foldl (fun s node => s.setBoardNode node 0) s).piecesOnBoard = s.piecesOnBoard
      ∧ (nodes.foldl (fun s node => s.setBoardNode node 0) s).piecesInHand = s.piecesInHand := by
  induction nodes generalizing s with
  | nil =>
    refine ⟨fun m => ?_, rfl, rfl, rfl⟩
    rw [if_neg (List.not_mem_nil)]
    rfl
  | cons node rest ih =>
    obtain ⟨hboard, hothers⟩ := ih (s.setBoardNode node 0)
    refine ⟨fun m => ?_, hothers⟩
    rw [List.foldl_cons, hboard m]
    by_cases hrest : m ∈ rest
    · rw [if_pos hrest, if_pos (List.mem_cons_of_mem _ hrest)]
    · rw [if_neg hrest]
      by_cases heq : m = node
      · rw [if_pos (heq ▸ List.mem_cons_self ..), heq]
        exact setAt_self s.board node 0
      · have hmem : m ∉ node :: rest := by
          intro hmem
          rcases List.mem_cons.1 hmem with h | h
          · exact heq h
          · exact hrest h
        rw [if_neg hmem]
        exact setAt_of_ne heq s.board 0

theorem sweepMarkedPieces_kept (s : MillState) : BoardKept s (sweepMarkedPieces s) := by
  unfold sweepMarkedPieces
  split
  · obtain ⟨hboard, -, hcounts, hhands⟩ :=
      foldl_setBoardNode (maskNodes s.delayedMarkedPieces) s
    refine ⟨?_, ?_, hcounts, fun x => (congrFun hhands x).le⟩
    · intro m
      by_cases hmarked : m ∈ maskNodes s.delayedMarkedPieces
      · refine Or.inr ⟨(mem_maskNodes _ m).1 hmarked, ?_⟩
        exact (hboard m).trans (if_pos hmarked)
      · exact Or.inl ((hboard m).trans (if_neg hmarked))
    · intro m hm
      have hnone : testBit 0#32 m = true := hm
      rw [testBit_zero] at hnone
      exact absurd hnone Bool.false_ne_true
  · exact .refl s

theorem applyRemovalBasedOnMillCounts_kept (s : MillState) (options : MillVariantOptions) :
    BoardKept s (applyRemovalBasedOnMillCounts s options) := .of_eq rfl rfl rfl rfl

theorem enterMovingPhase_kept (s : MillState) (options : MillVariantOptions) :
    BoardKept s (enterMovingPhase s options) := by
  have hsweep : BoardKept s (sweepMarkedPieces { s with phase := .moving }) :=
    .trans (t := { s with phase := .moving }) (.of_eq rfl rfl rfl rfl) (sweepMarkedPieces_kept _)
  unfold enterMovingPhase
  refine hsweep.trans ?_
  dsimp only
  generalize sweepMarkedPieces { s with phase := .moving } = t
  have hcounts : BoardKept t (if decide (options.millFormationActionInPlacingPhase
      = .removalBasedOnMillCounts) = true then applyRemovalBasedOnMillCounts t options else t) := by
    split
    · exact applyRemovalBasedOnMillCounts_kept t options
    · exact .refl t
  refine hcounts.trans ?_
  generalize (if decide (options.millFormationActionInPlacingPhase
    = .removalBasedOnMillCounts) = true then applyRemovalBasedOnMillCounts t options else t) = u
  split
  · split
    · exact .of_eq rfl rfl rfl rfl
    · exact .refl u
  · exact .of_eq rfl rfl rfl rfl

theorem maybeTransitionToMoving_kept (s : MillState) (options : MillVariantOptions) :
    BoardKept s (maybeTransitionToMoving s options) := by
  have hfirst : BoardKept s (if s.phase = .placing ∧ s.piecesInHand 0 = 0 ∧ s.piecesInHand 1 = 0
      then enterMovingPhase s options else s) := by
    split
    · exact enterMovingPhase_kept s options
    · exact .refl s
  unfold maybeTransitionToMoving
  refine hfirst.trans ?_
  dsimp only
  generalize (if s.phase = .placing ∧ s.piecesInHand 0 = 0 ∧ s.piecesInHand 1 = 0
    then enterMovingPhase s options else s) = t
  split
  · exact .trans (t := { t with piecesInHand := fun _ => 0 })
      (.of_hands rfl rfl rfl fun _ => Nat.zero_le _) (enterMovingPhase_kept _ options)
  · exact .refl t

theorem maybeFinishFullBoard_kept (s : MillState) (options : MillVariantOptions) :
    BoardKept s (maybeFinishFullBoard s options) := by
  unfold maybeFinishFullBoard
  split
  · exact .refl s
  · split
    · exact .refl s
    · split
      · exact .refl s
      · cases options.boardFullAction <;> exact .of_eq rfl rfl rfl rfl

variable (r : MillRules)

theorem endPlacingTurn_kept (s : MillState) : BoardKept s (r.endPlacingTurn s) := by
  unfold MillRules.endPlacingTurn
  refine (maybeTransitionToMoving_kept s r.options).trans ?_
  refine .trans (t := syncPhaseWithActiveHand (maybeTransitionToMoving s r.options))
    (.of_eq rfl rfl rfl rfl) ?_
  exact (maybeFinishFullBoard_kept _ r.options).trans (.of_eq rfl rfl rfl rfl)

theorem applyStalemateAction_kept (s : MillState) (options : MillVariantOptions) :
    BoardKept s (applyStalemateAction s options) := by
  unfold applyStalemateAction
  cases options.stalemateAction <;> exact .of_eq rfl rfl rfl rfl

theorem maybeHandleStalemate_kept (s : MillState) (options : MillVariantOptions) :
    BoardKept s (maybeHandleStalemate s options).1 := by
  unfold maybeHandleStalemate
  split
  · exact (applyStalemateAction_kept s options).trans (.of_eq rfl rfl rfl rfl)
  · exact .refl s

/-! ## Placements -/

theorem placeHandRemoval_kept (s : MillState) (side : Side) (removals : Nat) :
    BoardKept s (r.placeHandRemoval s side removals) := by
  have hhands : ∀ x, setAt s.piecesInHand side.opponent
      (s.piecesInHand side.opponent - min removals (s.piecesInHand side.opponent)) x
        ≤ s.piecesInHand x := by
    intro x
    by_cases hx : x = side.opponent
    · rw [hx, setAt_self]
      exact Nat.sub_le _ _
    · rw [setAt_of_ne hx]
  unfold MillRules.placeHandRemoval
  dsimp only
  split
  · exact .of_hands rfl rfl rfl hhands
  · refine .trans ?_ (.trans (endPlacingTurn_kept r _) (.of_eq rfl rfl rfl rfl))
    exact .of_hands rfl rfl rfl hhands

theorem placeBoardRemoval_kept (s : MillState) (side : Side) (removals : Nat)
    (custodian intervention : Bitboard) :
    BoardKept s (r.placeBoardRemoval s side removals custodian intervention) := by
  unfold MillRules.placeBoardRemoval
  dsimp only
  split
  · exact .of_eq rfl rfl rfl rfl
  · exact .of_eq rfl rfl rfl rfl

theorem placeRemovalBasedOnMillCounts_kept (s : MillState) :
    BoardKept s (r.placeRemovalBasedOnMillCounts s) := by
  unfold MillRules.placeRemovalBasedOnMillCounts
  dsimp only
  split
  · exact .trans (t := s.clearCaptureState) (.of_eq rfl rfl rfl rfl)
      ((applyRemovalBasedOnMillCounts_kept s.clearCaptureState r.options).trans
        (endPlacingTurn_kept r _))
  · refine .trans ?_ (endPlacingTurn_kept r _)
    exact .of_eq rfl rfl rfl rfl

theorem placeQuiet_kept (s : MillState) : BoardKept s (r.placeQuiet s) := by
  have hhands : ∀ x, (maybeStopPlacingWhenTwoEmpty s.clearCaptureState r.options).piecesInHand x
      ≤ s.piecesInHand x := by
    intro x
    unfold maybeStopPlacingWhenTwoEmpty
    dsimp only
    split
    · exact Nat.zero_le _
    · exact Nat.le_refl _
  unfold MillRules.placeQuiet
  refine .trans ?_ (endPlacingTurn_kept r _)
  exact .ite (.of_hands rfl rfl rfl hhands) (.of_hands rfl rfl rfl hhands)

theorem placeMill_kept (s : MillState) (side : Side)
    (usableBits custodian intervention : Bitboard) :
    BoardKept s (r.placeMill s side usableBits custodian intervention) := by
  unfold MillRules.placeMill
  cases r.options.millFormationActionInPlacingPhase with
  | removeOpponentsPieceFromHandThenOpponentsTurn => exact placeHandRemoval_kept r s side _
  | removeOpponentsPieceFromHandThenYourTurn => exact placeHandRemoval_kept r s side _
  | markAndDelayRemovingPieces => exact placeBoardRemoval_kept r s side _ _ _
  | removeOpponentsPieceFromBoard => exact placeBoardRemoval_kept r s side _ _ _
  | opponentRemovesOwnPiece => exact placeBoardRemoval_kept r s side _ _ _
  | removalBasedOnMillCounts => exact placeRemovalBasedOnMillCounts_kept r s

theorem applyPlace_kept (s : MillState) (n : Node) :
    BoardKept (r.placePiece s n (sideIndex s.sideToMove)) (r.applyPlace s n) := by
  unfold MillRules.applyPlace
  dsimp only
  generalize r.placePiece s n (sideIndex s.sideToMove) = t
  refine .ite ?_ (.ite ?_ ?_)
  · exact (placeMill_kept r t _ _ _ _).trans (.of_eq rfl rfl rfl rfl)
  · exact .of_eq rfl rfl rfl rfl
  · exact placeQuiet_kept r t

theorem standardPlace_kept (s : MillState) (n : Node) (a : Action) :
    BoardKept (r.placePiece s n (sideIndex s.sideToMove)) (r.standardPlace s n a) := by
  have hfinish : ∀ {t u : MillState}, BoardKept t u →
      BoardKept t (MillRules.finishFastPath s (if u.phase = .moving then
        (maybeHandleStalemate u r.options).1 else u) 0 0 a) := by
    intro t u h
    refine h.trans ?_
    split
    · exact (maybeHandleStalemate_kept u r.options).trans (.of_eq rfl rfl rfl rfl)
    · exact .of_eq rfl rfl rfl rfl
  unfold MillRules.standardPlace
  dsimp only
  generalize r.placePiece s n (sideIndex s.sideToMove) = t
  refine hfinish (.ite ?_ ?_)
  · exact .of_eq rfl rfl rfl rfl
  · refine .trans ?_ (endPlacingTurn_kept r _)
    exact .of_eq rfl rfl rfl rfl

/-! ## Moves -/

theorem maybeDrawByNMoveRule_kept (s : MillState) (options : MillVariantOptions)
    (adjudicate : Bool) : BoardKept s (maybeDrawByNMoveRule s options adjudicate) := by
  unfold maybeDrawByNMoveRule
  split
  · exact .refl s
  · split
    · exact .refl s
    · split
      · exact .of_eq rfl rfl rfl rfl
      · exact .refl s

theorem pushKeyAndCheckThreefoldWithKey_kept (s : MillState) (options : MillVariantOptions)
    (adjudicate : Bool) (key : Key) :
    BoardKept s (pushKeyAndCheckThreefoldWithKey s options adjudicate key) := by
  unfold pushKeyAndCheckThreefoldWithKey
  dsimp only
  split
  · exact .refl s
  · split
    · exact .of_eq rfl rfl rfl rfl
    · split
      · exact .of_eq rfl rfl rfl rfl
      · exact .of_eq rfl rfl rfl rfl

theorem adjudicateQuiet_kept (s : MillState) (incrementalKey : Option Key) (adjudicate : Bool) :
    BoardKept s (r.adjudicateQuiet s incrementalKey adjudicate) := by
  unfold MillRules.adjudicateQuiet
  dsimp only
  refine .trans ?_ (.trans (maybeDrawByNMoveRule_kept _ r.options adjudicate)
    (.of_eq rfl rfl rfl rfl))
  split
  · cases incrementalKey with
    | some key => exact pushKeyAndCheckThreefoldWithKey_kept s r.options true key
    | none => exact pushKeyAndCheckThreefoldWithKey_kept s r.options true _
  · exact .refl s

theorem movePiece_kept (s : MillState) (source target : Node) (side : Side) :
    BoardKept (s.moveLivePiece source target side) (r.movePiece s source target side) :=
  .of_eq rfl rfl rfl rfl

theorem applyMove_kept (s : MillState) (source target : Node) (ctx : MillRules.KeyContext)
    (a : Action) (adjudicate : Bool) :
    BoardKept (s.moveLivePiece source target (sideIndex s.sideToMove))
      (r.applyMove s source target ctx a adjudicate).1 := by
  refine (movePiece_kept r s source target _).trans ?_
  unfold MillRules.applyMove
  dsimp only
  generalize r.movePiece s source target (sideIndex s.sideToMove) = t
  refine .ite_fst ?_ (.ite_fst ?_ (.ite_fst ?_ ?_))
  · exact .of_eq rfl rfl rfl rfl
  · exact .of_eq rfl rfl rfl rfl
  · exact .of_eq rfl rfl rfl rfl
  · exact .trans (t := MillRules.moveQuiet t (sideIndex s.sideToMove)) (.of_eq rfl rfl rfl rfl)
      (adjudicateQuiet_kept r _ _ adjudicate)

/-! ## Removals -/

theorem commitRemoval_kept (s : MillState) (side : Side) (mode : MillRules.RemovalMode) :
    (r.commitRemoval s side mode).toMillPosition = s.toMillPosition := by
  unfold MillRules.commitRemoval
  cases mode with
  | intervention => rfl
  | custodian => rfl
  | leap => rfl
  | regular =>
    dsimp only
    split
    · split
      · rfl
      · rfl
    · rfl

theorem dischargeRemoval_kept (s : MillState) (side : Side) (n : Node)
    (mode : MillRules.RemovalMode) : BoardKept s (r.dischargeRemoval s side n mode) := by
  unfold MillRules.dischargeRemoval
  cases mode <;> exact .of_eq rfl rfl rfl rfl

theorem finishRemovals_kept (s : MillState) (side : Side) (removingOwn : Bool) :
    BoardKept s (r.finishRemovals s side removingOwn) := by
  unfold MillRules.finishRemovals
  extract_lets cleared own stalemate both full
  have hown : BoardKept s own := .ite (.of_eq rfl rfl rfl rfl) (.of_eq rfl rfl rfl rfl)
  have hstalemate : BoardKept s stalemate :=
    .ite (hown.trans (.of_eq rfl rfl rfl rfl)) (hown.trans (.of_eq rfl rfl rfl rfl))
  have hboth : BoardKept s both := .ite (hstalemate.trans (.of_eq rfl rfl rfl rfl)) hstalemate
  have hfull : BoardKept s full := .ite (hboth.trans (.of_eq rfl rfl rfl rfl)) hboth
  exact hfull.trans (endPlacingTurn_kept r full)

/-- One piece less is counted. -/
def countTaken (s : MillState) (side : Side) : MillState :=
  { s with piecesOnBoard := setAt s.piecesOnBoard side (s.piecesOnBoard side - 1) }

/-- The piece is taken off the board, or marked, and counted off. -/
inductive Taken (s : MillState) (n : Node) : MillState → Prop
  | cleared (side : Side) : Taken s n (countTaken (s.clearLivePiece n side) side)
  | marked (side : Side) : Taken s n (countTaken (s.markBoardNodeInactive n) side)

/-- Taking a piece looks at the position only. -/
theorem takePiece_kept (hsame : t.toMillPosition = s.toMillPosition) (n : Node) (side : Side)
    (markPending : Bool) :
    ∃ u, Taken s n u ∧ BoardKept u (countTaken (r.takePiece t n side markPending) side) := by
  have hboard : t.board = s.board := congrArg MillPosition.board hsame
  have hmarks : t.delayedMarkedPieces = s.delayedMarkedPieces :=
    congrArg MillPosition.delayedMarkedPieces hsame
  have hcounts : t.piecesOnBoard = s.piecesOnBoard := congrArg MillPosition.piecesOnBoard hsame
  have hhands : t.piecesInHand = s.piecesInHand := congrArg MillPosition.piecesInHand hsame
  have hfewer : setAt t.piecesOnBoard side (t.piecesOnBoard side - 1)
      = setAt s.piecesOnBoard side (s.piecesOnBoard side - 1) := by rw [hcounts]
  cases markPending with
  | true =>
    refine ⟨_, .marked side, .of_eq hboard ?_ hfewer hhands⟩
    show t.delayedMarkedPieces ||| nodeBit n = s.delayedMarkedPieces ||| nodeBit n
    rw [hmarks]
  | false =>
    refine ⟨_, .cleared side, .of_eq ?_ hmarks hfewer hhands⟩
    show setAt t.board n 0 = setAt s.board n 0
    rw [hboard]

theorem removePiece_kept (s : MillState) (n : Node) (side targetColor : Side)
    (removingOwn : Bool) :
    ∃ t, Taken s n t ∧ BoardKept t (r.removePiece s n side targetColor removingOwn) := by
  unfold MillRules.removePiece
  extract_lets mode committed markPending taken counted owed discharged
  obtain ⟨t, ht, htaken⟩ :=
    takePiece_kept r (commitRemoval_kept r s side mode) n targetColor markPending
  have howed : BoardKept t owed := htaken.trans (.of_eq rfl rfl rfl rfl)
  have hdischarged : BoardKept t discharged :=
    howed.trans (dischargeRemoval_kept r owed side n mode)
  exact ⟨t, ht, hdischarged.trans (.of_eq rfl rfl rfl rfl)⟩

theorem applyRemove_kept (s : MillState) (n : Node) :
    ∃ t, Taken s n t ∧ BoardKept t (r.applyRemove s n) := by
  obtain ⟨t, htaken, hkept⟩ := removePiece_kept r s n (sideIndex s.sideToMove)
    (if s.flags.removeOwnPiece (sideIndex s.sideToMove) then sideIndex s.sideToMove
      else sideIndex (xorOne s.sideToMove)) (s.flags.removeOwnPiece (sideIndex s.sideToMove))
  refine ⟨t, htaken, ?_⟩
  unfold MillRules.applyRemove
  refine .ite (hkept.trans (.of_eq rfl rfl rfl rfl)) (.ite (hkept.trans ?_) hkept)
  exact finishRemovals_kept r _ _ _

/-! ## Fast paths of the search -/

theorem standardMove_kept (s : MillState) (source target : Node) (a : Action) :
    BoardKept (s.moveLivePiece source target (sideIndex s.sideToMove))
      (r.standardMove s source target a) := by
  refine (movePiece_kept r s source target _).trans ?_
  unfold MillRules.standardMove
  extract_lets side moved handed synced stalemate
  have hsynced : BoardKept moved synced := .of_eq rfl rfl rfl rfl
  exact (hsynced.trans (maybeHandleStalemate_kept synced r.options)).trans (.of_eq rfl rfl rfl rfl)

theorem standardRemove_kept (s : MillState) (n : Node) (a : Action) :
    ∃ t, Taken s n t ∧ BoardKept t (r.standardRemove s n a) := by
  refine ⟨_, .cleared (sideIndex s.sideToMove).opponent, ?_⟩
  unfold MillRules.standardRemove
  extract_lets side opponent mobility cleared counted owed history final stalemate
  have hcounted : BoardKept (countTaken (s.clearLivePiece n opponent) opponent) history :=
    .of_eq rfl rfl rfl rfl
  have hfinal : BoardKept (countTaken (s.clearLivePiece n opponent) opponent) final := by
    refine .ite (hcounted.trans (.of_eq rfl rfl rfl rfl)) (.trans ?_ (endPlacingTurn_kept r _))
    exact hcounted.trans (.of_eq rfl rfl rfl rfl)
  exact (hfinal.trans (maybeHandleStalemate_kept final r.options)).trans (.of_eq rfl rfl rfl rfl)

end Sanmill
