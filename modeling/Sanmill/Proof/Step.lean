import Sanmill.Proof.Legal
import Sanmill.Proof.RemoveBranch

/-!
# One step

A legal action is a placement, a move or a removal whose preconditions hold.
`StateInv` is what every state of a game satisfies, finished or not; a legal
action on the general path keeps it. `applyGeneral_done` says more: what the step
has written to the board, and that nothing else on the board has changed.
-/

namespace Sanmill

open Bits

/-- What holds of every state of a game. -/
structure StateInv (options : MillVariantOptions) (s : MillState) : Prop where
  position : PositionInv options s.toMillPosition
  sane : Sane options s
  /-- Pieces are marked under mark-and-delay only. -/
  marksDelayed : s.delayedMarkedPieces ≠ 0 →
    options.millFormationActionInPlacingPhase = .markAndDelayRemovingPieces
  turn : SomeTurn s

variable {options : MillVariantOptions} {s t : MillState} {c : Side} {a : Action}

/-! ## Legal steps -/

/-- A legal action of `c`, with the preconditions its branch relies on. -/
inductive LegalStep (options : MillVariantOptions) (s : MillState) (c : Side) : Action → Prop
  | place (n : Node) (hnone : s.pendingRemovals c = 0) (hphase : s.phase = .placing)
      (hhand : 0 < s.piecesInHand c) (hempty : s.board n = 0) :
      LegalStep options s c (placeAction n)
  | move (source target : Node) (allowFly : Bool) (hnone : s.pendingRemovals c = 0)
      (hphase : (s.phase = .moving ∧ allowFly = true)
        ∨ (s.phase = .placing ∧ options.mayMoveInPlacingPhase = true ∧ allowFly = false))
      (hlive : testBit (s.byColorBb c) source = true) (hempty : s.board target = 0)
      (htarget : MoveTarget s options allowFly source target) :
      LegalStep options s c (moveAction source target)
  | remove (n : Node) (howed : s.pendingRemovals c ≠ 0)
      (hlive : testBit (s.byColorBb (removalTarget s c)) n = true)
      (htarget : RemoveTarget s options n) : LegalStep options s c (removeAction n)

/-- The generators dispatch on the phase and on what is owed. -/
theorem TurnInv.actionForLegalGeneration (h : TurnInv s c) :
    s.actionForLegalGeneration = s.syncedAction := by
  unfold MillState.actionForLegalGeneration
  rw [if_neg (by
    rw [h.active]
    simp [h.not_over]), ← h.synced, ite_self]

theorem syncedAction_free (hactive : s.sideToMove = c.toI8) (hnone : s.pendingRemovals c = 0) :
    (s.phase = .placing → s.syncedAction = .place)
      ∧ (s.phase = .moving → s.syncedAction = .select) := by
  constructor <;> intro hphase <;> unfold MillState.syncedAction <;>
    simp [hphase, hactive, hnone]

theorem leapTarget?_empty {source target : Node} {line : Line}
    (h : leapTarget? s options source line = some target) :
    testBit s.boardOccupiedBitboard target = false := by
  unfold leapTarget? at h
  simp only at h
  split_ifs at h with h1 h2 h3
  · rw [← Option.some.inj h]
    exact Bool.not_eq_true' _ ▸ h1.2.1
  · rw [← Option.some.inj h]
    exact Bool.not_eq_true' _ ▸ h3.2.1

theorem MoveTarget.empty {allowFly : Bool} {source target : Node}
    (h : MoveTarget s options allowFly source target) :
    testBit s.boardOccupiedBitboard target = false := by
  rcases h.2 with ⟨hempty, -⟩ | ⟨-, -, line, -, hline⟩
  · exact hempty
  · exact leapTarget?_empty hline

theorem isRegularRemoveTarget_live {piece : Int} {excluded : Bitboard} {n : Node}
    (h : isRegularRemoveTarget s options piece excluded n = true) :
    testBit (s.pieceBitboard piece) n = true := by
  unfold isRegularRemoveTarget at h
  simp only [Bool.and_eq_true] at h
  exact h.1.1

/-- A removal takes a live piece of the right color. -/
theorem RemoveTarget.live (h : TurnInv s c) {n : Node} (hn : RemoveTarget s options n) :
    testBit (s.byColorBb (removalTarget s c)) n = true := by
  unfold RemoveTarget at hn
  rw [h.active, Side.sideIndex_toI8] at hn
  rcases hn with ⟨hsome, hbit⟩ | ⟨-, hregular⟩
  · have hown : s.flags.removeOwnPiece c = false := by
      rw [Bool.eq_false_iff]
      intro hset
      have hempty := h.ownPieceAlone hset
      refine hsome ?_
      unfold captureTargetsOfActive
      simp [h.active, hempty.custodian, hempty.intervention, hempty.leap]
    rw [testBit_and, Bool.and_eq_true, pieceBitboard_opponent h.active] at hbit
    unfold removalTarget
    rw [hown]
    exact hbit.2
  · unfold removalTarget
    split at hregular
    · rename_i hown
      have := isRegularRemoveTarget_live hregular
      rw [if_pos hown]
      rwa [← h.active, pieceBitboard_own h.active] at this
    · rename_i hown
      have := isRegularRemoveTarget_live hregular
      rw [if_neg hown]
      rwa [pieceBitboard_opponent h.active] at this

/-- **Every legal action is a placement, a move or a removal.** -/
theorem legalStep_of_legal (h : TurnInv s c) (hpos : PositionInv options s.toMillPosition)
    (ha : LegalAction s options a) : LegalStep options s c a := by
  have hmove : ∀ {allowFly : Bool} {source target : Node},
      MoveTarget s options allowFly source target →
      testBit (s.byColorBb c) source = true ∧ s.board target = 0 := by
    intro allowFly source target ht
    refine ⟨?_, (hpos.empty_iff target).1 ht.empty⟩
    have := ht.1
    rwa [h.active, Side.sideIndex_toI8] at this
  unfold LegalAction at ha
  rw [h.actionForLegalGeneration] at ha
  by_cases howed : s.pendingRemovals c = 0
  · rcases h.running with hphase | hphase
    · rw [(syncedAction_free h.active howed).1 hphase] at ha
      rcases ha with ⟨n, rfl, hhand, hempty⟩ | ⟨hmay, source, target, rfl, ht⟩
      · rw [h.active, Side.sideIndex_toI8] at hhand
        exact .place n howed hphase hhand ((hpos.empty_iff n).1 hempty)
      · exact .move source target false howed (Or.inr ⟨hphase, hmay, rfl⟩) (hmove ht).1
          (hmove ht).2 ht
    · rw [(syncedAction_free h.active howed).2 hphase] at ha
      obtain ⟨-, source, target, rfl, ht⟩ := ha
      exact .move source target true howed (Or.inl ⟨hphase, rfl⟩) (hmove ht).1 (hmove ht).2 ht
  · rw [syncedAction_owing h.active h.not_over howed] at ha
    obtain ⟨-, n, rfl, ht⟩ := ha
    exact .remove n howed (ht.live h) ht

/-- A finished game has no legal action. -/
theorem not_legal_of_over (hover : s.phase = .gameOver) : ¬LegalAction s options a := by
  unfold LegalAction MillState.actionForLegalGeneration
  rw [if_pos (Or.inl hover)]
  exact fun h => h

/-- A legal action is somebody's. -/
theorem StateInv.legalStep (h : StateInv options s) (ha : LegalAction s options a) :
    ∃ c, TurnInv s c ∧ LegalStep options s c a := by
  by_cases hover : s.phase = .gameOver
  · exact absurd ha (not_legal_of_over hover)
  · obtain ⟨c, hc⟩ := h.turn hover
    exact ⟨c, hc, legalStep_of_legal hc h.position ha⟩

/-! ## The general path -/

variable (r : MillRules)

/-- The state `p` an action's board writes reach, before its effects on the turn. -/
inductive Written (s : MillState) (c : Side) (adjudicate : Bool) : Action → MillState → Prop
  | place (n : Node) : Written s c adjudicate (placeAction n) (r.placePiece s n c)
  | move (source target : Node) (history : List Key)
      (hsearch : adjudicate = false → history = s.keyHistory) :
      Written s c adjudicate (moveAction source target)
        { r.movePiece s source target c with keyHistory := history }
  | remove (n : Node) (mark : Bool) (k : MillCaptures) (owed : Nat) (flags : MillStateFlags)
      (hmark : mark = true →
        r.options.millFormationActionInPlacingPhase = .markAndDelayRemovingPieces) :
      Written s c adjudicate (removeAction n)
        (removed r s n c (removalTarget s c) mark k owed flags)

theorem applyBranch_place (s : MillState) (n : Node) (ctx : MillRules.KeyContext)
    (adjudicate : Bool) :
    r.applyBranch s ctx (placeAction n) adjudicate = (r.applyPlace s n, none) := by
  simp [MillRules.applyBranch, placeAction]

theorem applyBranch_move (s : MillState) (source target : Node) (ctx : MillRules.KeyContext)
    (adjudicate : Bool) :
    r.applyBranch s ctx (moveAction source target) adjudicate
      = r.applyMove s source target ctx (moveAction source target) adjudicate := by
  simp [MillRules.applyBranch, moveAction, MillActionKind.toI16]

theorem applyBranch_remove (s : MillState) (n : Node) (ctx : MillRules.KeyContext)
    (adjudicate : Bool) :
    r.applyBranch s ctx (removeAction n) adjudicate = (r.applyRemove s n, none) := by
  simp [MillRules.applyBranch, removeAction, MillActionKind.toI16]

/-- The board writes of a legal action keep the position. -/
theorem Written.position {p : MillState} {adjudicate : Bool}
    (hpos : PositionInv r.options s.toMillPosition) (hstep : LegalStep r.options s c a)
    (h : Written r s c adjudicate a p) : PositionInv r.options p.toMillPosition := by
  cases h with
  | place n =>
    -- the action names its case, so the step that was legal is the same one
    generalize ha : placeAction n = b at hstep
    cases hstep with
    | place m hnone hphase hhand hempty =>
      have : m = n := by
        have := congrArg Action.toNode ha
        simpa [placeAction, eq_comm] using this
      subst this
      exact placePiece_position r hpos hempty hhand
    | move => simp [placeAction, moveAction, MillActionKind.toI16] at ha
    | remove => simp [placeAction, removeAction, MillActionKind.toI16] at ha
  | move source target history hsearch =>
    generalize ha : moveAction source target = b at hstep
    cases hstep with
    | place => simp [placeAction, moveAction, MillActionKind.toI16] at ha
    | move source' target' allowFly hnone hphase hlive hempty htarget =>
      simp [moveAction] at ha
      obtain ⟨rfl, rfl⟩ := ha
      exact movePiece_position r hpos hlive hempty
    | remove => simp [removeAction, moveAction, MillActionKind.toI16] at ha
  | remove n mark k owed flags hmark =>
    generalize ha : removeAction n = b at hstep
    cases hstep with
    | place => simp [placeAction, removeAction, MillActionKind.toI16] at ha
    | move => simp [moveAction, removeAction, MillActionKind.toI16] at ha
    | remove m howed hlive htarget =>
      have : m = n := by
        have := congrArg Action.toNode ha
        simpa [removeAction, eq_comm] using this
      subst this
      exact takeCounted_position r hpos hlive mark

/-- **The branch of a legal action**: its board writes, then effects on the turn only. -/
theorem applyBranch_done (h : StateInv r.options s) (hturn : TurnInv s c)
    (hstep : LegalStep r.options s c a) (ctx : MillRules.KeyContext) (adjudicate : Bool) :
    ∃ p, Written r s c adjudicate a p
      ∧ BranchDone r.options p (r.applyBranch s ctx a adjudicate).1 := by
  cases hstep with
  | place n hnone hphase hhand hempty =>
    rw [applyBranch_place]
    exact ⟨_, .place n, applyPlace_done r hturn h.position h.sane hnone hphase hempty hhand⟩
  | move source target allowFly hnone hphase hlive hempty htarget =>
    rw [applyBranch_move]
    obtain ⟨history, hdone, hsearch⟩ := @applyMove_done r _ _ source target
      hturn h.sane hnone ctx (moveAction source target) adjudicate
    exact ⟨_, .move source target history hsearch, hdone⟩
  | remove n howed hlive htarget =>
    rw [applyBranch_remove]
    obtain ⟨k, owed, flags, mark, hdone, hmark⟩ :=
      applyRemove_done r hturn h.position h.sane howed hlive
    exact ⟨_, .remove n mark k owed flags hmark, hdone⟩

theorem applyGeneral_eq (s : MillState) (a : Action) (adjudicate : Bool) :
    ∃ key, r.applyGeneral s a adjudicate
      = { (maybeHandleStalemate
            (r.applyBranch s (.capture r s a) a adjudicate).1 r.options).1 with
          keyHistoryLen := (maybeHandleStalemate
            (r.applyBranch s (.capture r s a) a adjudicate).1 r.options).1.keyHistory.length
          zobristKey := key } :=
  ⟨_, rfl⟩

theorem applyGeneral_done (h : StateInv r.options s) (hturn : TurnInv s c)
    (hstep : LegalStep r.options s c a) (adjudicate : Bool) :
    ∃ p, Written r s c adjudicate a p ∧ BranchDone r.options p (r.applyGeneral s a adjudicate) := by
  obtain ⟨p, hwritten, hdone⟩ := applyBranch_done r h hturn hstep (.capture r s a) adjudicate
  obtain ⟨key, heq⟩ := applyGeneral_eq r s a adjudicate
  have hkeeps := hdone.keeps.trans (maybeHandleStalemate_keeps _ r.options)
  have hsane := hdone.sane.stalemate hdone.turn
  have hsome := @SomeTurn.stalemate r.options _ hdone.turn
  refine ⟨p, hwritten, ?_⟩
  rw [heq]
  exact
    { keeps := { hkeeps with }
      sane := { hsane with }
      turn := fun hrun => (hsome hrun).imp fun _ ht => { ht with record := { ht.record with } } }

theorem Written.marks {p : MillState} {adjudicate : Bool} (h : StateInv r.options s)
    (hwritten : Written r s c adjudicate a p) (hne : p.delayedMarkedPieces ≠ 0) :
    r.options.millFormationActionInPlacingPhase = .markAndDelayRemovingPieces := by
  cases hwritten with
  | place n => exact h.marksDelayed hne
  | move source target history hsearch => exact h.marksDelayed hne
  | remove n mark k owed flags hmark =>
    cases mark
    · exact h.marksDelayed hne
    · exact hmark rfl

/-- What a step establishes about the state it reaches. -/
theorem BranchDone.stateInv {p : MillState} {adjudicate : Bool} (h : StateInv r.options s)
    (hstep : LegalStep r.options s c a) (hwritten : Written r s c adjudicate a p)
    (hdone : BranchDone r.options p t) : StateInv r.options t where
  position := hdone.keeps.position (hwritten.position r h.position hstep)
  sane := hdone.sane
  marksDelayed hne := hwritten.marks r h fun hz => hne (hdone.keeps.marks hz)
  turn := hdone.turn

/-- **The general path keeps the invariant.** -/
theorem applyGeneral_inv (h : StateInv r.options s) (ha : LegalAction s r.options a)
    (adjudicate : Bool) : StateInv r.options (r.applyGeneral s a adjudicate) := by
  obtain ⟨c, hturn, hstep⟩ := h.legalStep ha
  obtain ⟨p, hwritten, hdone⟩ := applyGeneral_done r h hturn hstep adjudicate
  exact hdone.stateInv r h hstep hwritten

end Sanmill
