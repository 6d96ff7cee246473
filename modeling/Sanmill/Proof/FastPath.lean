import Sanmill.Proof.Step

/-!
# The fast paths agree with the general path

Three fast paths rewrite the general branch for the default rule family. Each
reaches the state of `applyGeneral` up to the Zobrist key, with one exception: a
single mill removal that ends the game leaves `millAvailableAtRemoval` cleared,
where the general path leaves it set.
-/

namespace Sanmill

open Bits

/-- The default rule family, as `standardFastPathEnabled` tests it. -/
structure StandardRules (options : MillVariantOptions) : Prop where
  formation : options.millFormationActionInPlacingPhase = .removeOpponentsPieceFromBoard
  noDiagonals : options.hasDiagonalLines = false
  noEarlyMoves : options.mayMoveInPlacingPhase = false
  oneRemoval : options.mayRemoveMultiple = false
  noRestriction : options.restrictRepeatedMillsFormation = false
  reusableMills : options.oneTimeUseMill = false
  noEarlyStop : options.stopPlacingWhenTwoEmptySquares = false
  noCustodian : options.custodianCapture.enabled = false
  noIntervention : options.interventionCapture.enabled = false
  noLeap : options.leapCapture.enabled = false

theorem standardRules_of_enabled {options : MillVariantOptions}
    (h : standardFastPathEnabled options = true) : StandardRules options := by
  simp only [standardFastPathEnabled, Bool.and_eq_true, Bool.not_eq_true', beq_iff_eq] at h
  obtain ⟨⟨⟨⟨⟨⟨⟨⟨⟨h1, h2⟩, h3⟩, h4⟩, h5⟩, h6⟩, h7⟩, h8⟩, h9⟩, h10⟩ := h
  exact ⟨h1, h2, h3, h4, h5, h6, h7, h8, h9, h10⟩

variable {options : MillVariantOptions} {s p t : MillState} {c : Side} {n : Node}

/-- The default rules never mark a piece. -/
theorem StandardRules.no_marks (hstd : StandardRules options) (h : StateInv options s) :
    s.delayedMarkedPieces = 0 := by
  by_contra hne
  have := h.marksDelayed hne
  rw [hstd.formation] at this
  cases this

/-! ## The two mill probes -/

/-- What the probes rely on at a node: two lines, each with two other nodes. -/
structure StandardLines (n : Node) (i j : Nat) (a b : Bitboard) : Prop where
  indices : buildMillLineIndicesByNode standardMillLines n = [i, j]
  peers : buildMillLinePeerMasksByNode standardMillLines n = [a, b]
  index_lt : i < 16 ∧ j < 16
  not_self : testBit a n = false ∧ testBit b n = false
  two : countOnes a = 2 ∧ countOnes b = 2

/-- Every node of the standard board is on exactly two lines. -/
theorem standard_lines (n : Node) : ∃ i j a b, StandardLines n i j a b := by
  have hindices : ∀ m : Node, (buildMillLineIndicesByNode standardMillLines m).length = 2 := by
    decide +kernel
  have hpeers : ∀ m : Node, (buildMillLinePeerMasksByNode standardMillLines m).length = 2 := by
    decide +kernel
  have hlt : ∀ m : Node,
      (buildMillLineIndicesByNode standardMillLines m).all (fun k => decide (k < 16)) = true := by
    decide +kernel
  have hself : ∀ m : Node, (buildMillLinePeerMasksByNode standardMillLines m).all
      (fun mask => !testBit mask m && decide (countOnes mask = 2)) = true := by
    decide +kernel
  obtain ⟨i, j, hij⟩ := List.length_eq_two.1 (hindices n)
  obtain ⟨a, b, hab⟩ := List.length_eq_two.1 (hpeers n)
  have hlt' := hlt n
  have hself' := hself n
  rw [hij] at hlt'
  rw [hab] at hself'
  simp only [List.all_cons, List.all_nil, Bool.and_true, Bool.and_eq_true, decide_eq_true_eq,
    Bool.not_eq_true'] at hlt' hself'
  exact ⟨i, j, a, b, hij, hab, hlt', ⟨hself'.1.1, hself'.2.1⟩, ⟨hself'.1.2, hself'.2.2⟩⟩

theorem StandardRules.millLines_eq (hstd : StandardRules options) :
    millLines options = standardMillLines := by
  unfold millLines
  rw [hstd.noDiagonals]
  rfl

/-- Without marks, the general probe on the standard board is the fixed-width one. -/
theorem formedMillBitsAt_standard (hstd : StandardRules options)
    (hmarks : p.delayedMarkedPieces = 0) (hlive : testBit (p.byColorBb c) n = true) :
    formedMillBitsAt p options n c.toI8 = formedMillBitsStandardOccupied (p.byColorBb c) n := by
  obtain ⟨i, j, a, b, hlines⟩ := standard_lines n
  unfold formedMillBitsAt formedMillBitsStandardOccupied
  rw [if_pos hmarks, Side.colorIndexForPiece_toI8]
  simp only [hlive, if_true, millLineIndicesForNode, millLinePeerMasksForNode,
    hstd.millLines_eq, hlines.indices, hlines.peers, List.zip_cons_cons, List.zip_nil_right,
    List.getD_cons_zero, List.getD_cons_succ]
  by_cases ha : p.byColorBb c &&& a = a <;> by_cases hb : p.byColorBb c &&& b = b <;>
    simp [ha, hb, lineBits]

/-- Putting a piece on `n` does not complete a peer pair of `n`. -/
theorem covers_or_nodeBit {bb m : Bitboard} (hm : testBit m n = false) :
    (bb ||| nodeBit n) &&& m = m ↔ bb &&& m = m := by
  rw [and_eq_right_iff_testBit, and_eq_right_iff_testBit]
  refine forall_congr' fun i => ?_
  rw [testBit_or, Bool.or_eq_true]
  refine imp_congr_right fun hi => ⟨?_, Or.inl⟩
  rintro (h | h)
  · exact h
  · rw [eq_of_testBit_nodeBit h, hm] at hi
    exact absurd hi Bool.false_ne_true

theorem lineBit_ne_zero {i : Nat} (hi : i < 16) : lineBit i ≠ 0 := by
  have h : ∀ i < 16, lineBit i ≠ 0 := by decide
  exact h i hi

theorem or_eq_zero_iff (x y : Bitboard) : x ||| y = 0 ↔ x = 0 ∧ y = 0 := by
  rw [show (0 : Bitboard) = 0#32 from rfl, eq_zero_iff_testBit, eq_zero_iff_testBit,
    eq_zero_iff_testBit]
  simp only [testBit_or, Bool.or_eq_false_iff, forall_and]

/-- A line is completed by the piece on `n` when it was one piece short before. -/
theorem formedMillBits_eq_zero_iff (bb : Bitboard) (n : Node) :
    formedMillBitsStandardOccupied (bb ||| nodeBit n) n = 0
      ↔ potentialMillsCountStandardUnrestricted bb n none = 0 := by
  obtain ⟨i, j, a, b, hlines⟩ := standard_lines n
  have hi : lineBit i ≠ 0#32 := lineBit_ne_zero hlines.index_lt.1
  have hj : lineBit j ≠ 0#32 := lineBit_ne_zero hlines.index_lt.2
  unfold formedMillBitsStandardOccupied potentialMillsCountStandardUnrestricted
  simp only [hlines.indices, hlines.peers, List.getD_cons_zero, List.getD_cons_succ,
    covers_or_nodeBit hlines.not_self.1, covers_or_nodeBit hlines.not_self.2]
  rw [or_eq_zero_iff]
  by_cases h1 : bb &&& a = a <;> by_cases h2 : bb &&& b = b <;>
    simp [h1, h2, hi, hj]

/-- Two pieces are needed for the third to complete a line. -/
theorem formedMillBits_of_few {bb : Bitboard} (hfew : countOnes bb < 2) (n : Node) :
    formedMillBitsStandardOccupied (bb ||| nodeBit n) n = 0 := by
  obtain ⟨i, j, a, b, hlines⟩ := standard_lines n
  have hnot : ∀ m : Bitboard, countOnes m = 2 → ¬bb &&& m = m := by
    intro m hm hcover
    have := countOnes_le_of_subset m bb ((and_eq_right_iff_testBit bb m).1 hcover)
    omega
  rw [formedMillBits_eq_zero_iff]
  unfold potentialMillsCountStandardUnrestricted
  simp [hlines.peers, hnot a hlines.two.1, hnot b hlines.two.2]

/-! ## Up to the key -/

/-- `t` is `u` with another key. -/
def SameButKey (t u : MillState) : Prop := ∃ key, t = { u with zobristKey := key }

variable (r : MillRules) {a : Action}

theorem finishFastPath_sameButKey (old st : MillState) (oldFromPiece oldToPiece : Int)
    (action : Action) :
    SameButKey (MillRules.finishFastPath old st oldFromPiece oldToPiece action)
      { st with keyHistoryLen := st.keyHistory.length } :=
  ⟨_, rfl⟩

/-- A fast path agrees with the general path when its branch does. -/
theorem SameButKey.of_branch {old st : MillState} {oldFromPiece oldToPiece : Int}
    {adjudicate : Bool}
    (h : st = (maybeHandleStalemate
      (r.applyBranch s (.capture r s a) a adjudicate).1 r.options).1) :
    SameButKey (MillRules.finishFastPath old st oldFromPiece oldToPiece a)
      (r.applyGeneral s a adjudicate) := by
  obtain ⟨key, heq⟩ := applyGeneral_eq r s a adjudicate
  obtain ⟨key', heq'⟩ := finishFastPath_sameButKey old st oldFromPiece oldToPiece a
  refine ⟨key', ?_⟩
  rw [heq', heq, h]

theorem SameButKey.stateInv {u : MillState} (h : SameButKey t u) (hu : StateInv options u) :
    StateInv options t := by
  obtain ⟨key, rfl⟩ := h
  exact
    { position := hu.position
      sane := { hu.sane with }
      marksDelayed := hu.marksDelayed
      turn := fun hrun => (hu.turn hrun).imp fun _ ht => { ht with record := { ht.record with } } }

/-- Nobody is stalemated outside the moving phase. -/
theorem stalemate_of_not_moving (s : MillState) (options : MillVariantOptions) :
    (if s.phase = .moving then (maybeHandleStalemate s options).1 else s)
      = (maybeHandleStalemate s options).1 := by
  split
  · rfl
  · rename_i hphase
    have hnot : isStalemated s options = false := by
      unfold isStalemated
      rw [if_pos (Or.inl hphase)]
    unfold maybeHandleStalemate
    rw [hnot]
    rfl

/-- Clearing captures that are not there, and a mill flag that is not set, does nothing. -/
theorem Acting.clearCaptureState_eq (h : Acting p c) : p.clearCaptureState = p := by
  have hcaptures : ({} : MillCaptures) = p.toMillCaptures := by
    obtain ⟨h1, h2, h3, h4, h5, h6⟩ := h.noCaptures 0
    obtain ⟨k1, k2, k3, k4, k5, k6⟩ := h.noCaptures 1
    have hzero : ∀ {α : Type} (f : Side → α) (v : α), f 0 = v → f 1 = v → (fun _ => v) = f := by
      intro α f v h0 h1
      funext x
      rcases Side.eq_or_eq_opponent 0 x with rfl | rfl
      · exact h0.symm
      · exact h1.symm
    generalize p.toMillCaptures = k at *
    cases k
    simp only [MillCaptures.mk.injEq]
    exact ⟨hzero _ _ h1 k1, hzero _ _ h3 k3, hzero _ _ h5 k5, hzero _ _ h2 k2, hzero _ _ h4 k4,
      hzero _ _ h6 k6⟩
  have hflags : { p.flags with millAvailableAtRemoval := false } = p.flags := by
    rw [← h.noMill]
  have hclear : p.clearCaptureState
      = { p with
          toMillCaptures := {}
          flags := { p.flags with millAvailableAtRemoval := false } } := rfl
  rw [hclear, hcaptures, hflags]

/-- Nothing is detected while the capture rules are off. -/
theorem StandardRules.usableMillBits_eq (hstd : StandardRules options) (bits : Bitboard) :
    usableMillBits p options bits = bits := by
  unfold usableMillBits
  rw [hstd.reusableMills]
  rfl

theorem StandardRules.removalCount_eq (hstd : StandardRules options) (bits : Bitboard) :
    removalCountForBits bits options = 1 := by
  unfold removalCountForBits
  rw [hstd.oneRemoval]
  rfl

/-! ## Placing -/

/-- The general placing branch under the default rules. -/
theorem applyPlace_standard (hstd : StandardRules r.options) (hturn : TurnInv s c)
    (hmarks : s.delayedMarkedPieces = 0) (hnone : s.pendingRemovals c = 0) :
    r.applyPlace s n
      = if formedMillBitsStandardOccupied ((r.placePiece s n c).byColorBb c) n ≠ 0 then
          noteMillFormation
            (MillRules.armRemovals (r.placePiece s n c) c 1 true).syncActionState c (-1) n.toI8
            (formedMillBitsStandardOccupied ((r.placePiece s n c).byColorBb c) n) r.options
        else r.endPlacingTurn { r.placePiece s n c with
          sideToMove := xorOne (r.placePiece s n c).sideToMove } := by
  have hact : Acting (r.placePiece s n c) c := { hturn.acting hnone with }
  have hlive : testBit ((r.placePiece s n c).byColorBb c) n = true := by
    change testBit (setAt s.byColorBb c (s.byColorBb c ||| nodeBit n) c) n = true
    rw [setAt_self]
    simp
  have hbits : formedMillBitsAt (r.placePiece s n c) r.options n (r.placePiece s n c).sideToMove
      = formedMillBitsStandardOccupied ((r.placePiece s n c).byColorBb c) n := by
    rw [hact.active]
    exact formedMillBitsAt_standard hstd hmarks hlive
  unfold MillRules.applyPlace
  simp only [hturn.active, Side.sideIndex_toI8, hstd.noCustodian, hstd.noIntervention,
    Bool.false_and, Bool.false_eq_true, if_false, hbits, hstd.usableMillBits_eq]
  split
  · -- a mill: the capture record stays as it is
    have harm : (MillRules.armRemovals (r.placePiece s n c) c 1 true).activateCaptureState 0 0 0
        = MillRules.armRemovals (r.placePiece s n c) c 1 true := by
      have hactive : (MillRules.armRemovals (r.placePiece s n c) c 1 true).sideToMove = c.toI8 :=
        hact.active
      rw [activateCaptureState_eq hactive]
      change ({ MillRules.armRemovals (r.placePiece s n c) c 1 true with
        toMillCaptures := publishedCaptures (r.placePiece s n c).toMillCaptures c 0 0 0 } :
          MillState) = _
      rw [publishedCaptures_zero (hact.noCaptures c)]
      rfl
    unfold MillRules.placeMill MillRules.placeBoardRemoval
    simp only [hstd.formation, hstd.removalCount_eq, hstd.oneRemoval, Bool.false_eq_true,
      if_false, harm]
  · unfold MillRules.placeQuiet maybeStopPlacingWhenTwoEmpty
    simp only [hact.clearCaptureState_eq, hstd.noEarlyStop, hstd.formation, Bool.false_eq_true,
      false_and, and_false, if_false, reduceCtorEq, decide_false, ne_eq, not_true_eq_false,
      or_self]

/-- **The placing fast path is the general path.** -/
theorem standardPlace_sameButKey (hstd : StandardRules r.options) (h : StateInv r.options s)
    (hturn : TurnInv s c) (hnone : s.pendingRemovals c = 0) (adjudicate : Bool) :
    SameButKey (r.standardPlace s n (placeAction n))
      (r.applyGeneral s (placeAction n) adjudicate) := by
  have hmasks : (r.placePiece s n c).byColorBb c = s.byColorBb c ||| nodeBit n := by
    change setAt s.byColorBb c _ c = _
    rw [setAt_self]
  -- the piece count is a shortcut: below two pieces no line can be complete
  have hshortcut : (if s.piecesOnBoard c ≥ 2 then
      formedMillBitsStandardOccupied ((r.placePiece s n c).byColorBb c) n else 0)
      = formedMillBitsStandardOccupied ((r.placePiece s n c).byColorBb c) n := by
    split
    · rfl
    · rename_i hfew
      rw [h.position.counts] at hfew
      rw [hmasks, formedMillBits_of_few (by omega)]
  unfold MillRules.standardPlace
  simp only [hturn.active, Side.sideIndex_toI8, hshortcut, hstd.removalCount_eq]
  rw [stalemate_of_not_moving]
  refine SameButKey.of_branch r ?_
  rw [applyBranch_place]
  simp only
  rw [applyPlace_standard r hstd hturn (hstd.no_marks h) hnone]

/-! ## Moving -/

/-- **The moving fast path is the general path of the search.** -/
theorem standardMove_sameButKey {source target : Node} (hstd : StandardRules r.options)
    (h : StateInv r.options s) (hturn : TurnInv s c) (hnone : s.pendingRemovals c = 0)
    (hquiet : potentialMillsCountStandardUnrestricted (s.byColorBb c) target (some source) = 0) :
    SameButKey (r.standardMove s source target (moveAction source target))
      (r.applyGeneral s (moveAction source target) false) := by
  have hact : Acting (r.movePiece s source target c) c := { hturn.acting hnone with }
  have hmasks : (r.movePiece s source target c).byColorBb c
      = (s.byColorBb c &&& ~~~nodeBit source) ||| nodeBit target := by
    change setAt s.byColorBb c _ c = _
    rw [setAt_self]
    rfl
  have hmarks : (r.movePiece s source target c).delayedMarkedPieces = 0 := by
    change s.delayedMarkedPieces = 0
    exact hstd.no_marks h
  have hlive : testBit ((r.movePiece s source target c).byColorBb c) target = true := by
    rw [hmasks]
    simp
  -- no mill stands through the target, so the branch of the quiet move is taken
  have hbits : formedMillBitsAt (r.movePiece s source target c) r.options target
      (r.movePiece s source target c).sideToMove = 0 := by
    rw [hact.active, formedMillBitsAt_standard hstd hmarks hlive, hmasks,
      formedMillBits_eq_zero_iff]
    exact hquiet
  have hbranch : ∀ ctx : MillRules.KeyContext,
      (r.applyMove s source target ctx (moveAction source target) false).1
        = (syncPhaseWithActiveHand
          { r.movePiece s source target c with
            lastMillFrom := setAt (r.movePiece s source target c).lastMillFrom c (-1)
            lastMillTo := setAt (r.movePiece s source target c).lastMillTo c (-1)
            sideToMove := xorOne (r.movePiece s source target c).sideToMove }).syncActionState := by
    intro ctx
    unfold MillRules.applyMove MillRules.moveQuiet
    simp only [hturn.active, Side.sideIndex_toI8, hstd.noCustodian, hstd.noIntervention,
      hstd.noLeap, Bool.false_and, Bool.false_eq_true, if_false, hbits, hstd.usableMillBits_eq,
      ne_eq, not_true_eq_false, or_self, hact.clearCaptureState_eq]
    rfl
  unfold MillRules.standardMove
  simp only [hturn.active, Side.sideIndex_toI8]
  refine SameButKey.of_branch r ?_
  rw [applyBranch_move, hbranch]

/-! ## Removing -/

/-- The writes of the removal fast path. -/
def standardRemoved (s : MillState) (n : Node) (c : Side) : MillState :=
  let state := (updateMobilityRemove s r.options n).clearLivePiece n c.opponent
  let state := { state with
    piecesOnBoard := setAt state.piecesOnBoard c.opponent (state.piecesOnBoard c.opponent - 1) }
  MillState.clearKeyHistory { MillRules.armRemovals state c 0 false with plySinceCapture := 0 }

/-- What the removal fast path has checked. -/
structure OwesStandardRemoval (s : MillState) (c : Side) : Prop where
  rules : StandardRules r.options
  unmarked : s.delayedMarkedPieces = 0
  mill : s.flags.millAvailableAtRemoval = true
  notStalemate : s.flags.stalemateRemoving = false
  notBoth : s.flags.bothStalemateRemoving = false
  notFull : s.flags.boardFullRemoving = false
  one : s.pendingRemovals c = 1
  notOwn : s.flags.removeOwnPiece c = false
  noCaptures : ∀ x, CapturesEmpty s.toMillCaptures x

theorem owesStandardRemoval_iff (hactive : s.sideToMove = c.toI8) :
    r.owesStandardRemoval s = true ↔ OwesStandardRemoval r s c := by
  unfold MillRules.owesStandardRemoval MillRules.standardFastPath
  rw [hactive, Side.sideIndex_toI8]
  simp only [Bool.and_eq_true, Bool.not_eq_true', decide_eq_true_eq,
    captureStateIsEmpty_iff_empty]
  constructor
  · rintro ⟨⟨⟨⟨⟨⟨⟨⟨h1, h2⟩, h3⟩, h4⟩, h5⟩, h6⟩, h7⟩, h8⟩, h9⟩
    exact ⟨standardRules_of_enabled h1, h2, h3, h4, h5, h6, h7, h8, h9⟩
  · rintro ⟨h1, h2, h3, h4, h5, h6, h7, h8, h9⟩
    refine ⟨⟨⟨⟨⟨⟨⟨⟨?_, h2⟩, h3⟩, h4⟩, h5⟩, h6⟩, h7⟩, h8⟩, h9⟩
    simp [standardFastPathEnabled, h1.formation, h1.noDiagonals, h1.noEarlyMoves, h1.oneRemoval,
      h1.noRestriction, h1.reusableMills, h1.noEarlyStop, h1.noCustodian, h1.noIntervention,
      h1.noLeap]

variable {r}

/-- The general removal writes the same, and keeps the mill flag for the moment. -/
theorem removePiece_standard (howes : OwesStandardRemoval r s c) :
    r.removePiece s n c c.opponent false
      = (standardRemoved r s n c).setMillAvailableAtRemoval true := by
  have hempty := howes.noCaptures c
  have hmode : MillRules.removalMode s c n = .regular := by
    unfold MillRules.removalMode
    simp [hempty.intervention, hempty.custodian, hempty.leap]
  have hcommit : r.commitRemoval s c .regular = s := by
    have htotal : s.captureTotal = 0 := by
      unfold MillState.captureTotal
      split
      · rfl
      · have hzero := howes.noCaptures (sideIndex s.sideToMove)
        simp [hzero.custodianCount, hzero.interventionCount, hzero.leapCount, saturatingAddU8]
    unfold MillRules.commitRemoval
    simp only [htotal, gt_iff_lt, Nat.lt_irrefl, decide_false, Bool.and_false,
      Bool.false_eq_true, if_false]
  have hmark : r.options.millFormationActionInPlacingPhase ≠ .markAndDelayRemovingPieces := by
    rw [howes.rules.formation]
    decide
  unfold MillRules.removePiece
  simp only [hmode, hcommit, hmark, false_and, decide_false, MillRules.dischargeRemoval]
  unfold standardRemoved MillRules.takePiece MillRules.armRemovals
  simp only [Bool.false_eq_true, if_false]
  have hpending : s.pendingRemovals c - 1 = 0 := by rw [howes.one]
  simp only [MillState.setPendingRemovals, MillState.refreshZobristMiscForSide,
    MillState.setZobristMiscCount, MillState.setMillAvailableAtRemoval,
    MillState.clearKeyHistory, MillState.clearLivePiece, updateMobilityRemove,
    MillState.legacyMiscCountForSide, hpending, setAt_self, howes.mill]

/-- The removal takes the last piece the opponent could spare. -/
def EndsByRemoval (options : MillVariantOptions) (s : MillState) (c : Side) : Prop :=
  s.piecesOnBoard c.opponent - 1 + s.piecesInHand c.opponent < options.piecesAtLeastCount

instance (options : MillVariantOptions) (s : MillState) (c : Side) :
    Decidable (EndsByRemoval options s c) :=
  inferInstanceAs (Decidable (_ < _))

/-- Clearing the captures of a side that has none only lowers the mill flag. -/
theorem clearCaptureStateForSide_eq (h : CapturesEmpty s.toMillCaptures c) :
    s.clearCaptureStateForSide c = s.setMillAvailableAtRemoval false := by
  have hset : ∀ {α : Type} (f : Side → α) (v : α), f c = v → setAt f c v = f := by
    intro α f v hv
    rw [← hv]
    exact Function.update_eq_self c f
  unfold MillState.clearCaptureStateForSide MillState.setMillAvailableAtRemoval
  rw [hset _ _ h.custodian, hset _ _ h.intervention, hset _ _ h.leap, hset _ _ h.custodianCount,
    hset _ _ h.interventionCount, hset _ _ h.leapCount]

/-- Without a stalemate or full-board obligation, the turn simply passes. -/
theorem finishRemovals_plain (r : MillRules) (hempty : CapturesEmpty s.toMillCaptures c)
    (hstalemate : s.flags.stalemateRemoving = false)
    (hboth : s.flags.bothStalemateRemoving = false)
    (hfull : s.flags.boardFullRemoving = false) :
    r.finishRemovals s c false
      = r.endPlacingTurn { s.setMillAvailableAtRemoval false with
          sideToMove := xorOne s.sideToMove } := by
  unfold MillRules.finishRemovals
  rw [clearCaptureStateForSide_eq hempty]
  simp only [MillState.setMillAvailableAtRemoval, hstalemate, hboth, hfull, Bool.false_eq_true,
    if_false, false_and]

/-- The general removing branch, when one standard removal is owed. -/
theorem applyRemove_standard (hactive : s.sideToMove = c.toI8)
    (howes : OwesStandardRemoval r s c) :
    r.applyRemove s n
      = if EndsByRemoval r.options s c then
          (finishGame (standardRemoved r s n c) c.toI8
            .loseFewerThanThree).setMillAvailableAtRemoval true
        else
          r.endPlacingTurn { standardRemoved r s n c with sideToMove := xorOne s.sideToMove } := by
  have hpending : ((standardRemoved r s n c).setMillAvailableAtRemoval true).pendingRemovals c
      = 0 := by
    change setAt s.pendingRemovals c 0 c = 0
    rw [setAt_self]
  have hmaterial : ((standardRemoved r s n c).setMillAvailableAtRemoval true).piecesOnBoard
        c.opponent
      + ((standardRemoved r s n c).setMillAvailableAtRemoval true).piecesInHand c.opponent
      = s.piecesOnBoard c.opponent - 1 + s.piecesInHand c.opponent := by
    change setAt s.piecesOnBoard c.opponent _ c.opponent + s.piecesInHand c.opponent = _
    rw [setAt_self]
    rfl
  have hfinish : r.finishRemovals ((standardRemoved r s n c).setMillAvailableAtRemoval true) c false
      = r.endPlacingTurn { standardRemoved r s n c with sideToMove := xorOne s.sideToMove } :=
    finishRemovals_plain r (howes.noCaptures c) howes.notStalemate howes.notBoth howes.notFull
  unfold MillRules.applyRemove
  simp only [hactive, Side.sideIndex_toI8, howes.notOwn, Side.xorOne_toI8, Bool.false_eq_true,
    if_false, removePiece_standard howes, hmaterial, hpending, if_true]
  -- both bodies ask first whether the opponent is left with too few pieces
  by_cases hends : EndsByRemoval r.options s c
  · have hfew : s.piecesOnBoard c.opponent - 1 + s.piecesInHand c.opponent
        < r.options.piecesAtLeastCount := hends
    rw [if_pos hfew, if_pos hends]
    change finishGame _ s.sideToMove _ = _
    rw [hactive]
    rfl
  · have henough : ¬s.piecesOnBoard c.opponent - 1 + s.piecesInHand c.opponent
        < r.options.piecesAtLeastCount := hends
    rw [if_neg henough, if_neg hends, hfinish, hactive, Side.xorOne_toI8]

/-- The removing fast path, by whether it ends the game. -/
theorem standardRemove_eq (hactive : s.sideToMove = c.toI8) :
    r.standardRemove s n (removeAction n)
      = MillRules.finishFastPath s
          (maybeHandleStalemate
            (if EndsByRemoval r.options s c then
              finishGame (standardRemoved r s n c) c.toI8 .loseFewerThanThree
            else
              r.endPlacingTurn { standardRemoved r s n c with sideToMove := xorOne s.sideToMove })
            r.options).1 0 (c.opponent.toI8 + 1) (removeAction n) := by
  have hmaterial : (standardRemoved r s n c).piecesOnBoard c.opponent
      + (standardRemoved r s n c).piecesInHand c.opponent
      = s.piecesOnBoard c.opponent - 1 + s.piecesInHand c.opponent := by
    change setAt s.piecesOnBoard c.opponent _ c.opponent + s.piecesInHand c.opponent = _
    rw [setAt_self]
    rfl
  have hif : ∀ x y : MillState, (if EndsByRemoval r.options s c then x else y)
      = if (standardRemoved r s n c).piecesOnBoard c.opponent
            + (standardRemoved r s n c).piecesInHand c.opponent
          < r.options.piecesAtLeastCount then x else y := by
    intro x y
    simp only [hmaterial]
    rfl
  rw [hif]
  unfold MillRules.standardRemove
  simp only [hactive, Side.sideIndex_toI8]
  rw [← hactive]
  rfl

/-- **The removing fast path is the general path** while the opponent has pieces to spare. -/
theorem standardRemove_sameButKey (hactive : s.sideToMove = c.toI8)
    (howes : OwesStandardRemoval r s c) (hgoes : ¬EndsByRemoval r.options s c)
    (adjudicate : Bool) :
    SameButKey (r.standardRemove s n (removeAction n))
      (r.applyGeneral s (removeAction n) adjudicate) := by
  rw [standardRemove_eq hactive, if_neg hgoes]
  refine SameButKey.of_branch r ?_
  rw [applyBranch_remove, applyRemove_standard hactive howes, if_neg hgoes]

/-- A removal that ends the game leaves the two paths one flag apart. -/
theorem standardRemove_ends (hactive : s.sideToMove = c.toI8)
    (howes : OwesStandardRemoval r s c) (hends : EndsByRemoval r.options s c)
    (adjudicate : Bool) :
    SameButKey (r.standardRemove s n (removeAction n))
        ((r.applyGeneral s (removeAction n) adjudicate).setMillAvailableAtRemoval false)
      ∧ (r.applyGeneral s (removeAction n) adjudicate).flags.millAvailableAtRemoval = true
      ∧ (r.applyGeneral s (removeAction n) adjudicate).phase = .gameOver := by
  have hover : ∀ t : MillState, t.phase = .gameOver →
      maybeHandleStalemate t r.options = (t, false) := by
    intro t ht
    unfold maybeHandleStalemate isStalemated
    simp [ht]
  obtain ⟨key, heq⟩ := applyGeneral_eq r s (removeAction n) adjudicate
  rw [applyBranch_remove, applyRemove_standard hactive howes, if_pos hends,
    hover _ (by rfl)] at heq
  refine ⟨?_, by rw [heq]; rfl, by rw [heq]; rfl⟩
  rw [standardRemove_eq hactive, if_pos hends, hover _ (by rfl), heq]
  exact ⟨_, rfl⟩

/-! ## Either path -/

variable (r)

/-- The search took the removal fast path into a finished game. -/
structure EndedFast (s : MillState) (c : Side) (a : Action) : Prop where
  active : s.sideToMove = c.toI8
  isRemove : ∃ n : Node, a = removeAction n
  openPath : MillRules.fastPathOpen s
  owes : OwesStandardRemoval r s c
  ends : EndsByRemoval r.options s c

theorem tryPlace_of_kind {a : Action} (hkind : a.kindTag ≠ MillActionKind.place.toI16) :
    r.tryApplyStandardPlaceFastPath s a = none := by
  unfold MillRules.tryApplyStandardPlaceFastPath
  rw [if_neg fun h => hkind h.1]

theorem tryMove_of_kind {a : Action} (hkind : a.kindTag ≠ MillActionKind.move.toI16) :
    r.tryApplyStandardMoveSearchFastPath s a = none := by
  unfold MillRules.tryApplyStandardMoveSearchFastPath
  rw [if_neg fun h => hkind h.1]

theorem tryRemove_of_kind {a : Action} (hkind : a.kindTag ≠ MillActionKind.remove.toI16) :
    r.tryApplyStandardRemoveSearchFastPath s a = none := by
  unfold MillRules.tryApplyStandardRemoveSearchFastPath
  rw [if_neg fun h => hkind h.1]

theorem tryPlace_cases (s : MillState) (n : Node) :
    r.tryApplyStandardPlaceFastPath s (placeAction n) = none
      ∨ (s.zobristKey ≠ 0 ∧ StandardRules r.options
        ∧ r.tryApplyStandardPlaceFastPath s (placeAction n)
          = some (r.standardPlace s n (placeAction n))) := by
  unfold MillRules.tryApplyStandardPlaceFastPath
  by_cases hcond : (placeAction n).kindTag = MillActionKind.place.toI16 ∧ s.phase = .placing
      ∧ r.standardFastPath = true ∧ MillRules.fastPathOpen s
  · rw [if_pos hcond, show boardNode? (placeAction n).toNode = some n from boardNode?_toI8 n]
    exact Or.inr ⟨hcond.2.2.2.1, standardRules_of_enabled hcond.2.2.1, rfl⟩
  · rw [if_neg hcond]
    exact Or.inl rfl

theorem tryMove_cases (s : MillState) (source target : Node) :
    r.tryApplyStandardMoveSearchFastPath s (moveAction source target) = none
      ∨ (s.zobristKey ≠ 0 ∧ StandardRules r.options
        ∧ r.tryApplyStandardMoveSearchFastPath s (moveAction source target)
          = some (r.standardMove s source target (moveAction source target))) := by
  unfold MillRules.tryApplyStandardMoveSearchFastPath
  by_cases hcond : (moveAction source target).kindTag = MillActionKind.move.toI16
      ∧ s.phase = .moving ∧ r.standardFastPath = true ∧ MillRules.fastPathOpen s
  · rw [if_pos hcond,
      show boardNode? (moveAction source target).fromNode = some source from boardNode?_toI8 source,
      show boardNode? (moveAction source target).toNode = some target from boardNode?_toI8 target]
    simp only
    split
    · exact Or.inl rfl
    · exact Or.inr ⟨hcond.2.2.2.1, standardRules_of_enabled hcond.2.2.1, rfl⟩
  · rw [if_neg hcond]
    exact Or.inl rfl

theorem tryRemove_cases (s : MillState) (n : Node) :
    r.tryApplyStandardRemoveSearchFastPath s (removeAction n) = none
      ∨ (s.zobristKey ≠ 0 ∧ r.owesStandardRemoval s = true
        ∧ r.tryApplyStandardRemoveSearchFastPath s (removeAction n)
          = some (r.standardRemove s n (removeAction n))) := by
  unfold MillRules.tryApplyStandardRemoveSearchFastPath
  by_cases hcond : (removeAction n).kindTag = MillActionKind.remove.toI16
      ∧ (removeAction n).fromNode = -1 ∧ r.owesStandardRemoval s = true
      ∧ MillRules.fastPathOpen s
  · rw [if_pos hcond, show boardNode? (removeAction n).toNode = some n from boardNode?_toI8 n]
    exact Or.inr ⟨hcond.2.2.2.1, hcond.2.2.1, rfl⟩
  · rw [if_neg hcond]
    exact Or.inl rfl

/--
**A step is the general step up to the key**, but for the mill flag of a game the
search ends through the removal fast path.
-/
theorem applyToStateUnchecked_cases (h : StateInv r.options s) (hturn : TurnInv s c)
    (hstep : LegalStep r.options s c a) (adjudicate : Bool) :
    (SameButKey (r.applyToStateUnchecked s a adjudicate) (r.applyGeneral s a adjudicate)
        ∧ ¬(adjudicate = false ∧ EndedFast r s c a))
      ∨ (adjudicate = false ∧ EndedFast r s c a
        ∧ SameButKey (r.applyToStateUnchecked s a adjudicate)
            ((r.applyGeneral s a adjudicate).setMillAvailableAtRemoval false)
        ∧ (r.applyGeneral s a adjudicate).flags.millAvailableAtRemoval = true
        ∧ (r.applyGeneral s a adjudicate).phase = .gameOver) := by
  have hself : ∀ b, SameButKey (r.applyGeneral s a b) (r.applyGeneral s a b) := fun b => ⟨_, rfl⟩
  unfold MillRules.applyToStateUnchecked
  -- one case for each kind of action: the two other fast paths refuse it by its tag
  cases hstep with
  | place n hnone hphase hhand hempty =>
    have hkind : (placeAction n).kindTag = MillActionKind.place.toI16 := rfl
    refine Or.inl ⟨?_, fun hended => ?_⟩
    · rw [tryMove_of_kind r (by rw [hkind]; decide), tryRemove_of_kind r (by rw [hkind]; decide)]
      unfold MillRules.tryApplyStandardPlaceFastPath
      split
      · rename_i t hsome
        split at hsome
        · rename_i hcond
          have hnode : boardNode? (placeAction n).toNode = some n := boardNode?_toI8 n
          rw [hnode, Option.map_some, Option.some.injEq] at hsome
          rw [← hsome]
          exact standardPlace_sameButKey r (standardRules_of_enabled hcond.2.2.1) h hturn hnone
            adjudicate
        · exact absurd hsome (by simp)
      · simp only [ite_self]
        exact hself adjudicate
    · obtain ⟨m, hm⟩ := hended.2.isRemove
      simp [placeAction, removeAction, MillActionKind.toI16] at hm
  | move source target allowFly hnone hphase hlive hempty htarget =>
    have hkind : (moveAction source target).kindTag = MillActionKind.move.toI16 := rfl
    refine Or.inl ⟨?_, fun hended => ?_⟩
    · rw [tryPlace_of_kind r (by rw [hkind]; decide), tryRemove_of_kind r (by rw [hkind]; decide)]
      simp only
      cases adjudicate with
      | true => exact hself true
      | false =>
        simp only [Bool.false_eq_true, if_false]
        unfold MillRules.tryApplyStandardMoveSearchFastPath
        split
        · rename_i t hsome
          split at hsome
          · rename_i hcond
            have hfrom : boardNode? (moveAction source target).fromNode = some source :=
              boardNode?_toI8 source
            have hto : boardNode? (moveAction source target).toNode = some target :=
              boardNode?_toI8 target
            rw [hfrom, hto] at hsome
            simp only [hturn.active, Side.sideIndex_toI8] at hsome
            split at hsome
            · exact absurd hsome (by simp)
            · rename_i hquiet
              rw [Option.some.injEq] at hsome
              rw [← hsome]
              exact standardMove_sameButKey r (standardRules_of_enabled hcond.2.2.1) h hturn
                hnone (not_not.1 hquiet)
          · exact absurd hsome (by simp)
        · exact hself false
    · obtain ⟨m, hm⟩ := hended.2.isRemove
      simp [moveAction, removeAction, MillActionKind.toI16] at hm
  | remove n howed hlive htarget =>
    have hkind : (removeAction n).kindTag = MillActionKind.remove.toI16 := rfl
    rw [tryPlace_of_kind r (by rw [hkind]; decide), tryMove_of_kind r (by rw [hkind]; decide)]
    simp only
    cases adjudicate with
    | true => exact Or.inl ⟨hself true, fun hended => absurd hended.1 (by decide)⟩
    | false =>
      simp only [Bool.false_eq_true, if_false]
      unfold MillRules.tryApplyStandardRemoveSearchFastPath
      have hnode : boardNode? (removeAction n).toNode = some n := boardNode?_toI8 n
      rw [hnode, Option.map_some]
      have howes_iff := owesStandardRemoval_iff r hturn.active
      by_cases hcond : (removeAction n).kindTag = MillActionKind.remove.toI16
          ∧ (removeAction n).fromNode = -1 ∧ r.owesStandardRemoval s = true
          ∧ MillRules.fastPathOpen s
      · rw [if_pos hcond]
        simp only
        have howes := howes_iff.1 hcond.2.2.1
        have hopen := hcond.2.2.2
        -- only a removal that ends the game differs, in the flag that the general path leaves set
        by_cases hends : EndsByRemoval r.options s c
        · obtain ⟨hsame, hmill, hover⟩ :=
            @standardRemove_ends s c n r hturn.active howes hends false
          exact Or.inr ⟨trivial, ⟨hturn.active, ⟨n, rfl⟩, hopen, howes, hends⟩, hsame, hmill, hover⟩
        · exact Or.inl ⟨standardRemove_sameButKey hturn.active howes hends false,
            fun hended => hends hended.2.ends⟩
      · rw [if_neg hcond]
        simp only
        exact Or.inl ⟨hself false, fun hended =>
          hcond ⟨rfl, rfl, howes_iff.2 hended.2.owes, hended.2.openPath⟩⟩

/-- **A step of real play or of the search keeps the invariant.** -/
theorem applyToStateUnchecked_inv (h : StateInv r.options s) (ha : LegalAction s r.options a)
    (adjudicate : Bool) : StateInv r.options (r.applyToStateUnchecked s a adjudicate) := by
  obtain ⟨c, hturn, hstep⟩ := h.legalStep ha
  have hgeneral := applyGeneral_inv r h ha adjudicate
  rcases applyToStateUnchecked_cases r h hturn hstep adjudicate with
    ⟨hsame, -⟩ | ⟨-, -, hsame, -, hover⟩
  · exact hsame.stateInv hgeneral
  · refine hsame.stateInv ?_
    exact
      { position := hgeneral.position
        sane := { hgeneral.sane with }
        marksDelayed := hgeneral.marksDelayed
        turn := fun hrun => absurd hover hrun }

end Sanmill
