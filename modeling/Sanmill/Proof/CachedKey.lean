import Sanmill.Proof.BoardFrame
import Sanmill.Proof.Keys
import Sanmill.Proof.Reach

/-!
# The cached key along a game

A state carries the key of its position, updated from step to step and recomputed only
where there is none. Each way to update it is right because of what its step leaves
alone: a legal action writes to its own squares and to marked ones, and without capture
rules and delayed removals there is never a capture record or a mark.
-/

namespace Sanmill

open Bits

variable {r : MillRules} {options : MillVariantOptions} {s t : MillState} {c : Side} {a : Action}

/--
The key of a state is unset, or the key computed from scratch. A state that is loaded
from a snapshot whose key happens to be zero counts as one without a key.
-/
def KeyCurrent (s : MillState) : Prop := s.zobristKey = 0 ∨ s.zobristKey = fullStateKey s

/-! ## What an action leaves alone -/

/-- `t` has the board and the marks of `s`, but for the squares of the action; marks may go. -/
structure KeptOutside (s t : MillState) (a : Action) : Prop where
  board : ∀ n, boardNode? a.fromNode ≠ some n → boardNode? a.toNode ≠ some n →
    s.isMarked n = false → t.board n = s.board n
  marks : ∀ n, boardNode? a.toNode ≠ some n → t.isMarked n = true → s.isMarked n = true

/-- The squares of a legal action differ. -/
theorem LegalStep.distinct (h : PositionInv options s.toMillPosition)
    (hstep : LegalStep options s c a) (n : Node) (hfrom : boardNode? a.fromNode = some n) :
    boardNode? a.toNode ≠ some n := by
  cases hstep with
  | place m => cases hfrom
  | move source target allowFly hnone hphase hlive hempty htarget =>
    intro hto
    have hsource : source = n := Option.some.inj ((boardNode?_toI8 source).symm.trans hfrom)
    have htarget : target = n := Option.some.inj ((boardNode?_toI8 target).symm.trans hto)
    have hpiece := ((h.live_iff c source).1 hlive).2
    rw [hsource, ← htarget, hempty] at hpiece
    exact Side.piece_ne_zero c hpiece.symm
  | remove m => cases hfrom

/-- Sweeping marks later keeps what was kept. -/
theorem KeptOutside.trans {u : MillState} (hwrite : KeptOutside s u a) (hkept : BoardKept u t) :
    KeptOutside s t a where
  board n hfrom hto hmark := by
    rcases hkept.board n with heq | ⟨hmarked, -⟩
    · rw [heq]
      exact hwrite.board n hfrom hto hmark
    · have := hwrite.marks n hto hmarked
      rw [hmark] at this
      exact absurd this Bool.false_ne_true
  marks n hto hmarked := hwrite.marks n hto (hkept.marks n hmarked)

theorem ne_of_boardNode?_ne {n m : Node} (h : boardNode? n.toI8 ≠ some m) : m ≠ n := by
  intro hmn
  rw [hmn] at h
  exact h (boardNode?_toI8 n)

theorem placed_keptOutside (r : MillRules) (s : MillState) (n : Node) (side : Side) :
    KeptOutside s (r.placePiece s n side) (placeAction n) where
  board _ _ hto _ := setAt_of_ne (ne_of_boardNode?_ne hto) _ _
  marks _ _ hmarked := hmarked

theorem moved_keptOutside (s : MillState) (source target : Node) (side : Side) :
    KeptOutside s (s.moveLivePiece source target side) (moveAction source target) where
  board m hfrom hto _ := by
    show setAt (setAt s.board source 0) target (side.toI8 + 1) m = s.board m
    rw [setAt_of_ne (ne_of_boardNode?_ne hto), setAt_of_ne (ne_of_boardNode?_ne hfrom)]
  marks _ _ hmarked := hmarked

theorem Taken.keptOutside {n : Node} (h : Taken s n t) : KeptOutside s t (removeAction n) := by
  cases h with
  | cleared side =>
    exact ⟨fun _ _ hto _ => setAt_of_ne (ne_of_boardNode?_ne hto) _ _, fun _ _ hmarked => hmarked⟩
  | marked side =>
    refine ⟨fun _ _ _ _ => rfl, fun m hto hmarked => ?_⟩
    have hbit : testBit (s.delayedMarkedPieces ||| nodeBit n) m = true := hmarked
    rw [testBit_or, Bool.or_eq_true, testBit_nodeBit, decide_eq_true_eq] at hbit
    exact hbit.resolve_right fun h => ne_of_boardNode?_ne hto h.symm

/-- **A branch writes to the squares of its action and to marked ones.** -/
theorem applyBranch_keptOutside (hstep : LegalStep options s c a) (ctx : MillRules.KeyContext)
    (adjudicate : Bool) : KeptOutside s (r.applyBranch s ctx a adjudicate).1 a := by
  cases hstep with
  | place n =>
    rw [applyBranch_place]
    exact (placed_keptOutside r s n _).trans (applyPlace_kept r s n)
  | move source target =>
    rw [applyBranch_move]
    exact (moved_keptOutside s source target _).trans
      (applyMove_kept r s source target ctx _ adjudicate)
  | remove n =>
    rw [applyBranch_remove]
    obtain ⟨u, htaken, hkept⟩ := applyRemove_kept r s n
    exact htaken.keptOutside.trans hkept

theorem applyGeneral_keptOutside (hstep : LegalStep options s c a) (adjudicate : Bool) :
    KeptOutside s (r.applyGeneral s a adjudicate) a := by
  obtain ⟨key, heq⟩ := applyGeneral_eq r s a adjudicate
  rw [heq]
  refine (applyBranch_keptOutside hstep (.capture r s a) adjudicate).trans
    ((maybeHandleStalemate_kept _ r.options).trans (.of_eq rfl rfl rfl rfl))

/-! ## The incremental key -/

/-- **The key an action updates to**, in any state with these things left alone. -/
theorem keyOf_eq (h : StateInv r.options s) (hstep : LegalStep r.options s c a)
    (hkey : s.zobristKey = fullStateKey s) (hkept : KeptOutside s t a)
    (hmarks : t.delayedMarkedPieces ≠ 0 →
      r.options.millFormationActionInPlacingPhase = .markAndDelayRemovingPieces)
    (hsane : Sane r.options t) :
    (MillRules.KeyContext.capture r s a).keyOf t a = fullStateKey t := by
  have hdistinct := hstep.distinct h.position
  by_cases hcheap : r.canUseChangedSquaresKey s = true
  · have hcapture : MillRules.KeyContext.capture r s a
        = { oldKey := s.zobristKey, oldSideToMove := s.sideToMove
            oldFromPiece := MillRules.pieceAt s a.fromNode
            oldToPiece := MillRules.pieceAt s a.toNode, oldZobrist := none } := by
      unfold MillRules.KeyContext.capture
      rw [if_pos hcheap]
    unfold MillRules.canUseChangedSquaresKey at hcheap
    simp only [Bool.and_eq_true, decide_eq_true_eq, Bool.not_eq_true'] at hcheap
    obtain ⟨⟨⟨⟨⟨hempty, hnomarks⟩, hcustodian⟩, hintervention⟩, hleap⟩, hmode⟩ := hcheap
    -- without the rules for them there is no mark and no capture
    have hnone : t.delayedMarkedPieces = 0 := by
      by_contra hne
      exact hmode (hmarks hne)
    have hclean : captureStateIsEmpty t = true :=
      captureStateIsEmpty_iff_empty.2 (hsane.captureRules hcustodian hintervention hleap)
    rw [hcapture]
    unfold MillRules.KeyContext.keyOf
    simp only
    rw [if_pos ⟨hnone, hclean⟩]
    refine keyAfterApplyFromChangedSquares_eq hkey hdistinct ?_ ?_ ?_ (hnone.trans hnomarks.symm)
      hempty hclean
    · intro n hn
      unfold MillRules.pieceAt
      rw [hn]
    · intro n hn
      unfold MillRules.pieceAt
      rw [hn]
    · intro n hfrom hto
      refine hkept.board n hfrom hto ?_
      unfold MillPosition.isMarked
      rw [hnomarks]
      exact testBit_zero _
  · have hcapture : (MillRules.KeyContext.capture r s a).oldZobrist
        = some (ZobristInputs.capture s) := by
      unfold MillRules.KeyContext.capture
      rw [if_neg hcheap]
    unfold MillRules.KeyContext.keyOf
    rw [hcapture]
    exact keyAfterApply_eq hkey hdistinct hkept.board

theorem movePiece_keptOutside (s : MillState) (source target : Node) (side : Side) :
    KeptOutside s (MillRules.moveQuiet (r.movePiece s source target side) side)
      (moveAction source target) :=
  ⟨(moved_keptOutside s source target side).board, (moved_keptOutside s source target side).marks⟩

/-- The moving branch hands a key over only after a quiet move of the search. -/
theorem applyMove_key {source target : Node} {ctx : MillRules.KeyContext} {adjudicate : Bool}
    {key : Key} (hactive : s.sideToMove = c.toI8)
    (hsome : (r.applyMove s source target ctx a adjudicate).2 = some key) :
    ctx.oldKey ≠ 0 ∧ key = ctx.keyOf (MillRules.moveQuiet (r.movePiece s source target c) c) a
      ∧ (r.applyMove s source target ctx a adjudicate).1
        = (syncPhaseWithActiveHand
            (MillRules.moveQuiet (r.movePiece s source target c) c)).syncActionState := by
  revert hsome
  unfold MillRules.applyMove
  simp only [hactive, Side.sideIndex_toI8]
  generalize (if (r.options.custodianCapture.enabled
      && r.options.custodianCapture.inMovingPhase) = true then
    detectCustodianTargets (r.movePiece s source target c) r.options target else 0) = custodian
  generalize (if (r.options.interventionCapture.enabled
      && r.options.interventionCapture.inMovingPhase) = true then
    detectInterventionTargets (r.movePiece s source target c) r.options target else 0)
    = intervention
  generalize (if (r.options.leapCapture.enabled && r.options.leapCapture.inMovingPhase) = true then
    detectLeapTargets (r.movePiece s source target c) r.options source target else 0) = leap
  -- a mill, a capture and the adjudication each answer without a key; only the quiet branch has one
  split
  · intro hsome
    cases hsome
  · split
    · intro hsome
      cases hsome
    · split
      · intro hsome
        cases hsome
      · intro hsome
        cases adjudicate with
        | true => cases hsome
        | false =>
          obtain ⟨t, -, heq, hsearch⟩ := adjudicateQuiet_eq r
            (MillRules.moveQuiet (r.movePiece s source target c) c)
            (if ctx.oldKey ≠ 0 then
              some (ctx.keyOf (MillRules.moveQuiet (r.movePiece s source target c) c) a)
            else none) false
          rw [hsearch rfl] at heq
          by_cases hzero : ctx.oldKey ≠ 0
          · simp only [Bool.false_eq_true, if_false, if_pos hzero] at hsome
            exact ⟨hzero, (Option.some.inj hsome).symm, heq⟩
          · simp only [Bool.false_eq_true, if_false, if_neg hzero] at hsome
            cases hsome

/-- Syncing the phase of a running game leaves its key alone. -/
theorem fullStateKey_sync (h : s.phase = .placing ∨ s.phase = .moving) :
    fullStateKey (syncPhaseWithActiveHand s).syncActionState = fullStateKey s := by
  have hrunning : s.phase ≠ .gameOver := by
    rcases h with h | h <;> rw [h] <;> decide
  have hsynced : (syncPhaseWithActiveHand s).syncActionState.phase ≠ .gameOver := by
    show (if s.phase ≠ .placing ∧ s.phase ≠ .moving then s.phase
      else if 0 ≤ s.sideToMove ∧ s.sideToMove ≤ 1 then
        if s.piecesInHand (sideIndex s.sideToMove) = 0 then .moving else .placing
      else s.phase) ≠ .gameOver
    split
    · exact hrunning
    · split
      · split
        · decide
        · decide
      · exact hrunning
  have hcount : miscCount (syncPhaseWithActiveHand s).syncActionState = miscCount s := by
    unfold miscCount
    rw [if_pos hrunning, if_pos hsynced]
    rfl
  rw [fullStateKey_eq, fullStateKey_eq, hcount]
  rfl

/-- **A key handed over by a branch** is the key of the state the branch reaches. -/
theorem applyBranch_key {adjudicate : Bool} (h : StateInv r.options s) (hturn : TurnInv s c)
    (hstep : LegalStep r.options s c a) (hkey : KeyCurrent s) {key : Key}
    (hsome : (r.applyBranch s (.capture r s a) a adjudicate).2 = some key) :
    key = fullStateKey (r.applyBranch s (.capture r s a) a adjudicate).1 := by
  cases hstep with
  | place n =>
    rw [applyBranch_place] at hsome
    cases hsome
  | remove n =>
    rw [applyBranch_remove] at hsome
    cases hsome
  | move source target allowFly hnone hphase hlive hempty htarget =>
    rw [applyBranch_move] at hsome ⊢
    obtain ⟨hset, hvalue, hstate⟩ := applyMove_key hturn.active hsome
    have hsane : Sane r.options (r.movePiece s source target c) := { h.sane with }
    have hquiet := @keyOf_eq r s (MillRules.moveQuiet (r.movePiece s source target c) c) c _ h
      (.move source target allowFly hnone hphase hlive hempty htarget) (hkey.resolve_left hset)
      (movePiece_keptOutside s source target c) h.marksDelayed hsane.moveQuiet
    rw [hvalue, hquiet, hstate, fullStateKey_sync]
    exact hturn.running

/-- The stalemate rule reports whether it has done anything. -/
theorem maybeHandleStalemate_unchanged (h : (maybeHandleStalemate s options).2 = false) :
    (maybeHandleStalemate s options).1 = s := by
  unfold maybeHandleStalemate at h ⊢
  by_cases hstale : isStalemated s options = true
  · rw [if_pos hstale] at h
    cases h
  · rw [if_neg hstale]

/-! ## One step -/

/-- **The general path leaves the right key.** -/
theorem applyGeneral_key (h : StateInv r.options s) (hkey : KeyCurrent s)
    (ha : LegalAction s r.options a) (adjudicate : Bool) :
    (r.applyGeneral s a adjudicate).zobristKey = fullStateKey (r.applyGeneral s a adjudicate) := by
  obtain ⟨c, hturn, hstep⟩ := h.legalStep ha
  have hgeneral := applyGeneral_inv r h ha adjudicate
  have hbranch := @applyBranch_key r s c a adjudicate h hturn hstep hkey
  have hkept := @applyGeneral_keptOutside r r.options s c a hstep adjudicate
  -- what is recomputed is the key, whether from scratch or from the old one
  have hrecomputed : (if (MillRules.KeyContext.capture r s a).oldKey = 0 then
        fullStateKey (r.applyGeneral s a adjudicate)
      else (MillRules.KeyContext.capture r s a).keyOf (r.applyGeneral s a adjudicate) a)
      = fullStateKey (r.applyGeneral s a adjudicate) := by
    by_cases hzero : (MillRules.KeyContext.capture r s a).oldKey = 0
    · rw [if_pos hzero]
    · rw [if_neg hzero]
      exact keyOf_eq h hstep (hkey.resolve_left hzero) hkept hgeneral.marksDelayed hgeneral.sane
  have hkeyOf : (r.applyGeneral s a adjudicate).zobristKey
      = (r.applyBranch s (.capture r s a) a adjudicate).2.elim
        (fullStateKey (r.applyGeneral s a adjudicate)) fun key =>
          if (maybeHandleStalemate (r.applyBranch s (.capture r s a) a adjudicate).1
              r.options).2 then
            fullStateKey (r.applyGeneral s a adjudicate)
          else key := by
    rw [← hrecomputed]
    unfold MillRules.applyGeneral MillRules.finishApply
    dsimp only
    cases (r.applyBranch s (.capture r s a) a adjudicate).2 <;> rfl
  rw [hkeyOf]
  cases hsome : (r.applyBranch s (.capture r s a) a adjudicate).2 with
  | none => rfl
  | some key =>
    cases hchanged : (maybeHandleStalemate (r.applyBranch s (.capture r s a) a adjudicate).1
        r.options).2 with
    | true => rfl
    | false =>
      simp only [Bool.false_eq_true, if_false]
      obtain ⟨key', heq⟩ := applyGeneral_eq r s a adjudicate
      rw [hbranch hsome, heq, maybeHandleStalemate_unchanged hchanged]
      rfl

/-! ## The fast paths -/

/-- The state a fast path leaves: it was told the pieces that stood on the action's squares. -/
structure LeftFast (r : MillRules) (s t : MillState) (a : Action) : Prop where
  keyed : s.zobristKey ≠ 0
  rules : StandardRules r.options
  finished : ∃ (st : MillState) (oldFromPiece oldToPiece : Int),
    t = MillRules.finishFastPath s st oldFromPiece oldToPiece a
      ∧ (∀ n, boardNode? a.fromNode = some n → oldFromPiece = s.board n)
      ∧ ∀ n, boardNode? a.toNode = some n → oldToPiece = s.board n

theorem applyToStateUnchecked_fast (h : StateInv r.options s) (hturn : TurnInv s c)
    (hstep : LegalStep r.options s c a) (adjudicate : Bool) :
    r.applyToStateUnchecked s a adjudicate = r.applyGeneral s a adjudicate
      ∨ LeftFast r s (r.applyToStateUnchecked s a adjudicate) a := by
  have hpiece : ∀ {n m : Node}, boardNode? n.toI8 = some m → m = n := by
    intro n m hm
    exact Option.some.inj (hm.symm.trans (boardNode?_toI8 n))
  unfold MillRules.applyToStateUnchecked
  cases hstep with
  | place n hnone hphase hhand hempty =>
    have hkind : (placeAction n).kindTag = MillActionKind.place.toI16 := rfl
    rw [tryMove_of_kind r (by rw [hkind]; decide), tryRemove_of_kind r (by rw [hkind]; decide)]
    rcases tryPlace_cases r s n with hslow | ⟨hkeyed, hrules, hfast⟩
    · rw [hslow]
      exact Or.inl (ite_self _)
    · rw [hfast]
      refine Or.inr ⟨hkeyed, hrules, _, 0, 0, rfl, fun m hm => ?_, fun m hm => ?_⟩
      · cases hm
      · rw [hpiece hm, hempty]
  | move source target allowFly hnone hphase hlive hempty htarget =>
    have hkind : (moveAction source target).kindTag = MillActionKind.move.toI16 := rfl
    rw [tryPlace_of_kind r (by rw [hkind]; decide), tryRemove_of_kind r (by rw [hkind]; decide)]
    cases adjudicate with
    | true => exact Or.inl rfl
    | false =>
      rcases tryMove_cases r s source target with hslow | ⟨hkeyed, hrules, hfast⟩
      · rw [hslow]
        exact Or.inl rfl
      · rw [hfast]
        refine Or.inr ⟨hkeyed, hrules, _, s.sideToMove + 1, 0, rfl, fun m hm => ?_, fun m hm => ?_⟩
        · rw [hpiece hm, ((h.position.live_iff c source).1 hlive).2, hturn.active]
        · rw [hpiece hm, hempty]
  | remove n howed hlive htarget =>
    have hkind : (removeAction n).kindTag = MillActionKind.remove.toI16 := rfl
    rw [tryPlace_of_kind r (by rw [hkind]; decide), tryMove_of_kind r (by rw [hkind]; decide)]
    cases adjudicate with
    | true => exact Or.inl rfl
    | false =>
      rcases tryRemove_cases r s n with hslow | ⟨hkeyed, howes, hfast⟩
      · rw [hslow]
        exact Or.inl rfl
      · rw [hfast]
        have howes := (owesStandardRemoval_iff r hturn.active).1 howes
        refine Or.inr ⟨hkeyed, howes.rules, _, 0, (sideIndex s.sideToMove).opponent.toI8 + 1, rfl,
          fun m hm => ?_, fun m hm => ?_⟩
        · cases hm
        · -- the removal takes a piece of the opponent
          have htaken : removalTarget s c = c.opponent := by
            unfold removalTarget
            rw [howes.notOwn]
            rfl
          rw [htaken] at hlive
          rw [hpiece hm, ((h.position.live_iff _ n).1 hlive).2, hturn.active, Side.sideIndex_toI8]

/-- **A step of real play or of the search leaves the right key.** -/
theorem applyToStateUnchecked_key (h : StateInv r.options s) (hkey : KeyCurrent s)
    (ha : LegalAction s r.options a) (adjudicate : Bool) :
    (r.applyToStateUnchecked s a adjudicate).zobristKey
      = fullStateKey (r.applyToStateUnchecked s a adjudicate) := by
  obtain ⟨c, hturn, hstep⟩ := h.legalStep ha
  rcases applyToStateUnchecked_fast h hturn hstep adjudicate with hslow | hfast
  · rw [hslow]
    -- the general path recomputes the whole key
    exact applyGeneral_key h hkey ha adjudicate
  · have hreached := applyToStateUnchecked_inv r h ha adjudicate
    -- a fast path changes what the general path changes, up to the key
    have hkept : KeptOutside s (r.applyToStateUnchecked s a adjudicate) a := by
      have hgeneral := @applyGeneral_keptOutside r r.options s c a hstep adjudicate
      rcases applyToStateUnchecked_cases r h hturn hstep adjudicate with
        ⟨⟨key, heq⟩, -⟩ | ⟨-, -, ⟨key, heq⟩, -, -⟩
      · rw [heq]
        exact ⟨hgeneral.board, hgeneral.marks⟩
      · rw [heq]
        exact ⟨hgeneral.board, hgeneral.marks⟩
    -- under the rules of a fast path no capture is ever open, before or after
    have hclean : ∀ {t : MillState}, StateInv r.options t → captureStateIsEmpty t = true := by
      intro t ht
      exact captureStateIsEmpty_iff_empty.2 (ht.sane.captureRules hfast.rules.noCustodian
        hfast.rules.noIntervention hfast.rules.noLeap)
    obtain ⟨st, oldFromPiece, oldToPiece, heq, hfrom, hto⟩ := hfast.finished
    rw [heq] at hreached hkept ⊢
    have hmarks := hfast.rules.no_marks h
    have hnew := hclean hreached
    refine @keyAfterApplyFromChangedSquares_eq s
      { st with keyHistoryLen := st.keyHistory.length } _ _ _ _ _ (hkey.resolve_left hfast.keyed)
      (hstep.distinct h.position) hfrom hto ?_ ?_ (hclean h) hnew
    · intro n hf ht
      refine hkept.board n hf ht ?_
      unfold MillPosition.isMarked
      rw [hmarks]
      exact testBit_zero _
    · exact (hfast.rules.no_marks hreached).trans hmarks.symm

/-! ## Loading -/

theorem applyMisc_extract (key : Key) (count : BitVec 2) :
    (applyMisc key count).extractLsb' 30 2 = count := by
  unfold applyMisc
  apply BitVec.eq_of_getLsbD_eq
  intro i hi
  have hcases : i = 0 ∨ i = 1 := by omega
  rcases hcases with rfl | rfl
  · simp
  · simp

/-- The misc counter survives a snapshot with a key, for it is part of the key. -/
theorem reloaded_keyCurrent (options : MillVariantOptions) (s : MillState) :
    KeyCurrent (reloaded options s) := by
  by_cases hzero : fullStateKey s = 0
  · exact Or.inl hzero
  · right
    have hdecoded : MillState.decodeMiscCount (s.encode options) = miscCount s := by
      unfold MillState.decodeMiscCount
      rw [if_pos (show (s.encode options).zobristKey ≠ 0 from hzero)]
      exact applyMisc_extract _ _
    have hcount : miscCount (reloaded options s) = miscCount s := by
      unfold miscCount
      by_cases hover : s.phase ≠ .gameOver
      · rw [if_pos hover, if_pos (show (reloaded options s).phase ≠ .gameOver from hover)]
        show MillState.decodeMiscCount (s.encode options) = s.flags.zobristMiscCount
        rw [hdecoded]
        unfold miscCount
        rw [if_pos hover]
      · rw [if_neg hover, if_neg (show ¬(reloaded options s).phase ≠ .gameOver from hover)]
    show fullStateKey s = fullStateKey (reloaded options s)
    rw [fullStateKey_eq, fullStateKey_eq, hcount]
    rfl

theorem Reachable.keyCurrent {snap : GameStateSnapshot} (h : Reachable r snap) :
    KeyCurrent (MillState.decodeWithOptions snap r.options) := by
  obtain ⟨s, rfl, hs⟩ := h.encoded
  rw [decode_encode r.options hs.encodable]
  exact reloaded_keyCurrent r.options s

theorem SearchReachable.keyCurrent (h : SearchReachable r s) : KeyCurrent s := by
  induction h with
  | load rootRepetitionHistory h hwb =>
    obtain ⟨-, -, keys, len, heq⟩ := buildWorkbench_eq hwb
    rw [heq]
    exact h.keyCurrent
  | doMove h ha ih => exact Or.inr (applyToStateUnchecked_key h.inv ih ha false)

/-! ## Runs -/

/-- The states that real play and the search apply an action to reach. -/
inductive Applied (r : MillRules) : MillState → Prop
  | played {snap : GameStateSnapshot} {a : Action} (history : List GameStateSnapshot)
      (h : Reachable r snap) (ha : a ∈ r.legalActions snap) :
      Applied r (r.applyToState (r.hydrateRepetitionHistory
        (MillState.decodeWithOptions snap r.options) snap history) a true)
  | searched {s : MillState} {a : Action} (h : SearchReachable r s)
      (ha : LegalAction s r.options a) : Applied r (r.applySearchToState s a)

/-- **Along every run, the key an action leaves is the key computed from scratch.** -/
theorem zobristKey_eq_fullStateKey (h : Applied r s) : s.zobristKey = fullStateKey s := by
  cases h with
  | played history h ha =>
    rename_i snap a
    rw [mem_legalActions_iff] at ha
    obtain ⟨c, -, hstep⟩ := h.inv.legalStep ha
    obtain ⟨keys, len, hkeys⟩ := hydrate_cases r (MillState.decodeWithOptions snap r.options) snap
      history
    unfold MillRules.applyToState
    rw [hstep.inBounds, if_pos rfl, hkeys]
    exact applyToStateUnchecked_key (h.inv.withHistory keys len) h.keyCurrent ha true
  | searched h ha => exact applyToStateUnchecked_key h.inv h.keyCurrent ha false

theorem lastRemoval_legal : removeAction 8 ∈ laskerRules.legalActions lastRemoval := by
  decide +kernel

/-- The theorem after the removal that ends a game of eight mills. -/
theorem zobristKey_eq_fullStateKey_lastRemoval :
    (laskerRules.applyToState (laskerRules.hydrateRepetitionHistory
        (MillState.decodeWithOptions lastRemoval laskerRules.options) lastRemoval [threeLeft])
        (removeAction 8) true).zobristKey
      = fullStateKey (laskerRules.applyToState (laskerRules.hydrateRepetitionHistory
        (MillState.decodeWithOptions lastRemoval laskerRules.options) lastRemoval [threeLeft])
        (removeAction 8) true) :=
  zobristKey_eq_fullStateKey (.played [threeLeft] lastRemoval_reachable lastRemoval_legal)

end Sanmill
