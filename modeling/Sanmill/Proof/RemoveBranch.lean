import Sanmill.Proof.MoveBranch

/-!
# The removing branch

A removal discharges one obligation. `removePiece` is the longest run of writes in
the source; `removePiece_spec` says what it amounts to: the piece is gone, one
removal less is owed, and the capture records have shrunk.
-/

namespace Sanmill

open Bits

variable (r : MillRules) {options : MillVariantOptions} {s p t : MillState} {c : Side} {n : Node}
  {mode : MillRules.RemovalMode}

/-! ## The capture records after a removal -/

/-- `k` is what is left of the capture records of `s` once `c` has taken the piece on `n`. -/
structure Struck (s : MillState) (k : MillCaptures) (c : Side) (n : Node) : Prop where
  custodian : ∀ i, testBit (k.custodianTargets c) i = true →
    testBit (s.custodianTargets c) i = true ∧ i ≠ n
  intervention : ∀ i, testBit (k.interventionTargets c) i = true →
    testBit (s.interventionTargets c) i = true ∧ i ≠ n
  leap : ∀ i, testBit (k.leapTargets c) i = true → testBit (s.leapTargets c) i = true ∧ i ≠ n
  custodianCounted : k.custodianTargets c ≠ 0 → 0 < k.custodianCount c
  interventionCounted : k.interventionTargets c ≠ 0 → 0 < k.interventionCount c
  leapCounted : k.leapTargets c ≠ 0 → 0 < k.leapCount c
  counts : k.custodianCount c ≤ s.custodianCount c ∧ k.interventionCount c ≤ s.interventionCount c
    ∧ k.leapCount c ≤ s.leapCount c
  /-- The other side's records are untouched. -/
  others : ∀ x, x ≠ c →
    k.custodianTargets x = s.custodianTargets x ∧ k.interventionTargets x = s.interventionTargets x
      ∧ k.leapTargets x = s.leapTargets x ∧ k.custodianCount x = s.custodianCount x
      ∧ k.interventionCount x = s.interventionCount x ∧ k.leapCount x = s.leapCount x

namespace Struck

variable {k : MillCaptures} (h : Struck s k c n)

include h

/-- The records `c` is left with are those of a sound state without the removed piece. -/
theorem record (hrecord : CaptureRecord s c) (hcaptures : t.toMillCaptures = k)
    (hmasks : ∀ i, testBit (s.byColorBb c.opponent) i = true → i ≠ n →
      testBit (t.byColorBb c.opponent) i = true) : CaptureRecord t c := by
  subst hcaptures
  exact
    { custodianLive := fun i hi => hmasks i (hrecord.custodianLive i (h.custodian i hi).1)
        (h.custodian i hi).2
      interventionLive := fun i hi => hmasks i (hrecord.interventionLive i (h.intervention i hi).1)
        (h.intervention i hi).2
      leapLive := fun i hi => hmasks i (hrecord.leapLive i (h.leap i hi).1) (h.leap i hi).2
      custodianCounted := h.custodianCounted
      interventionCounted := h.interventionCounted
      leapCounted := h.leapCounted }

theorem opponent (hempty : CapturesEmpty s.toMillCaptures c.opponent) :
    CapturesEmpty k c.opponent := by
  obtain ⟨h1, h2, h3, h4, h5, h6⟩ := h.others c.opponent (Side.opponent_ne c)
  exact ⟨h1.trans hempty.custodian, h4.trans hempty.custodianCount, h2.trans hempty.intervention,
    h5.trans hempty.interventionCount, h3.trans hempty.leap, h6.trans hempty.leapCount⟩

/-- Nothing is struck off an empty record. -/
theorem own (hempty : CapturesEmpty s.toMillCaptures c) : CapturesEmpty k c := by
  have hnone : ∀ {a b : Bitboard}, (∀ i, testBit a i = true → testBit b i = true ∧ i ≠ n) →
      b = 0 → a = 0 := by
    intro a b hsub hb
    refine (eq_zero_iff_testBit a).2 fun i => ?_
    rw [Bool.eq_false_iff]
    intro hi
    have := (hsub i hi).1
    rw [hb] at this
    simp at this
  obtain ⟨h1, h2, h3⟩ := h.counts
  rw [hempty.custodianCount] at h1
  rw [hempty.interventionCount] at h2
  rw [hempty.leapCount] at h3
  exact ⟨hnone h.custodian hempty.custodian, Nat.le_zero.1 h1,
    hnone h.intervention hempty.intervention, Nat.le_zero.1 h2, hnone h.leap hempty.leap,
    Nat.le_zero.1 h3⟩

theorem empty (hempty : ∀ x, CapturesEmpty s.toMillCaptures x) (x : Side) : CapturesEmpty k x := by
  rcases Side.eq_or_eq_opponent c x with rfl | rfl
  · exact h.own (hempty _)
  · exact h.opponent (hempty _)

theorem counts_le (x : Side) (hcounts : ∀ x, s.custodianCount x ≤ 255
    ∧ s.interventionCount x ≤ 255 ∧ s.leapCount x ≤ 255) :
    k.custodianCount x ≤ 255 ∧ k.interventionCount x ≤ 255 ∧ k.leapCount x ≤ 255 := by
  obtain ⟨b1, b2, b3⟩ := hcounts x
  by_cases hx : x = c
  · subst hx
    obtain ⟨h1, h2, h3⟩ := h.counts
    exact ⟨h1.trans b1, h2.trans b2, h3.trans b3⟩
  · obtain ⟨-, -, -, h4, h5, h6⟩ := h.others x hx
    rw [h4, h5, h6]
    exact ⟨b1, b2, b3⟩

end Struck

/-- Striking a target out of a mask, with its count. -/
theorem testBit_struck {mask : Bitboard} {count : Nat} {i : Nat}
    (h : testBit (if count = 0 then 0 else mask &&& ~~~nodeBit n) i = true) :
    testBit mask i = true ∧ i ≠ n := by
  split at h
  · simp at h
  · rw [testBit_and_not, Bool.and_eq_true] at h
    refine ⟨h.1, ?_⟩
    rintro rfl
    simp at h

theorem testBit_struck_paired {mask : Bitboard} {count : Nat} {i : Nat}
    (h : testBit (if count = 0 then 0 else findPairedInterventionTarget n
      ((mask &&& ~~~nodeBit n) ||| nodeBit n) options) i = true) :
    testBit mask i = true ∧ i ≠ n := by
  split at h
  · simp at h
  · obtain ⟨hi, hne⟩ := findPairedInterventionTarget_subset h
    rw [testBit_or, testBit_and_not, Bool.or_eq_true, Bool.and_eq_true] at hi
    rcases hi with hi | hi
    · exact ⟨hi.1, hne⟩
    · exact absurd (eq_of_testBit_nodeBit hi) hne

theorem count_pos_of_ne {count : Nat} {mask : Bitboard}
    (h : (if count = 0 then 0 else mask) ≠ 0) : 0 < count := by
  by_contra hz
  exact h (if_pos (by omega))

/-- A record that holds nothing for `c` has been struck clean. -/
theorem struck_cleared {k : MillCaptures} (hempty : CapturesEmpty k c)
    (hothers : ∀ x, x ≠ c →
      k.custodianTargets x = s.custodianTargets x
        ∧ k.interventionTargets x = s.interventionTargets x ∧ k.leapTargets x = s.leapTargets x
        ∧ k.custodianCount x = s.custodianCount x ∧ k.interventionCount x = s.interventionCount x
        ∧ k.leapCount x = s.leapCount x) : Struck s k c n where
  custodian i hi := by
    rw [hempty.custodian] at hi
    simp at hi
  intervention i hi := by
    rw [hempty.intervention] at hi
    simp at hi
  leap i hi := by
    rw [hempty.leap] at hi
    simp at hi
  custodianCounted hne := absurd hempty.custodian hne
  interventionCounted hne := absurd hempty.intervention hne
  leapCounted hne := absurd hempty.leap hne
  counts := by
    rw [hempty.custodianCount, hempty.interventionCount, hempty.leapCount]
    exact ⟨Nat.zero_le _, Nat.zero_le _, Nat.zero_le _⟩
  others := hothers

/-- A regular removal takes a piece that was no capture target. -/
theorem not_target_of_regular (hrecord : CaptureRecord s c)
    (hmode : MillRules.removalMode s c n = .regular) :
    testBit (s.custodianTargets c) n = false ∧ testBit (s.interventionTargets c) n = false
      ∧ testBit (s.leapTargets c) n = false := by
  have hne : ∀ mask : Bitboard, testBit mask n = true → mask ≠ 0 := fun mask h =>
    (ne_zero_iff_testBit mask).2 ⟨n, h⟩
  unfold MillRules.removalMode at hmode
  split_ifs at hmode with h1 h2 h3
  refine ⟨?_, ?_, ?_⟩
  · rw [Bool.eq_false_iff]
    exact fun hc => h2 ⟨hc, hrecord.custodianCounted (hne _ hc)⟩
  · rw [Bool.eq_false_iff]
    exact fun hi => h1 ⟨hi, hrecord.interventionCounted (hne _ hi)⟩
  · rw [Bool.eq_false_iff]
    exact fun hl => h3 ⟨hl, hrecord.leapCounted (hne _ hl)⟩

/-- A regular removal leaves the records alone. -/
theorem struck_self (hrecord : CaptureRecord s c)
    (hmode : MillRules.removalMode s c n = .regular) : Struck s s.toMillCaptures c n := by
  obtain ⟨hc, hi, hl⟩ := not_target_of_regular hrecord hmode
  have hother : ∀ {mask : Bitboard} {i : Nat}, testBit mask n = false → testBit mask i = true →
      i ≠ n := by
    rintro mask i hm hi rfl
    rw [hm] at hi
    exact Bool.false_ne_true hi
  exact
    { custodian := fun i h => ⟨h, hother hc h⟩
      intervention := fun i h => ⟨h, hother hi h⟩
      leap := fun i h => ⟨h, hother hl h⟩
      custodianCounted := hrecord.custodianCounted
      interventionCounted := hrecord.interventionCounted
      leapCounted := hrecord.leapCounted
      counts := ⟨Nat.le_refl _, Nat.le_refl _, Nat.le_refl _⟩
      others := fun x _ => ⟨rfl, rfl, rfl, rfl, rfl, rfl⟩ }

/-! ## The writes of a removal -/

/-- The records once the removed piece has been struck off the obligation of `mode`. -/
def dischargedCaptures (options : MillVariantOptions) (k : MillCaptures) (c : Side) (n : Node) :
    MillRules.RemovalMode → MillCaptures
  | .custodian =>
    { k with
      custodianCount := setAt k.custodianCount c (k.custodianCount c - 1)
      custodianTargets := setAt k.custodianTargets c
        (if k.custodianCount c - 1 = 0 then 0 else k.custodianTargets c &&& ~~~nodeBit n) }
  | .intervention =>
    { k with
      interventionCount := setAt k.interventionCount c (k.interventionCount c - 1)
      interventionTargets := setAt k.interventionTargets c
        (if k.interventionCount c - 1 = 0 then 0
        else findPairedInterventionTarget n
          ((k.interventionTargets c &&& ~~~nodeBit n) ||| nodeBit n) options) }
  | .leap =>
    { k with
      leapCount := setAt k.leapCount c (k.leapCount c - 1)
      leapTargets := setAt k.leapTargets c
        (if k.leapCount c - 1 = 0 then 0 else k.leapTargets c &&& ~~~nodeBit n) }
  | .regular => k

theorem dischargeRemoval_eq (s : MillState) (mode : MillRules.RemovalMode) :
    r.dischargeRemoval s c n mode
      = { s with toMillCaptures := dischargedCaptures r.options s.toMillCaptures c n mode } := by
  cases mode <;> rfl

/-- Committing to a mode writes the records, the obligation and the flags of `c` only. -/
theorem commitRemoval_eq (hrecord : CaptureRecord s c) (hsane : Sane options s)
    (hmode : MillRules.removalMode s c n = mode) :
    ∃ (k : MillCaptures) (owed : Nat) (flags : MillStateFlags),
      r.commitRemoval s c mode
        = { s with
            toMillCaptures := k, pendingRemovals := setAt s.pendingRemovals c owed,
            flags := flags }
      ∧ Struck s (dischargedCaptures r.options k c n mode) c n ∧ owed ≤ 255
      ∧ flags.removeOwnPiece = s.flags.removeOwnPiece
      ∧ flags.stalemateRemoving = s.flags.stalemateRemoving
      ∧ flags.bothStalemateRemoving = s.flags.bothStalemateRemoving := by
  have hcount := hsane.captureCounts c
  have hpending := hsane.pendingRemovals c
  have hnone : ∀ i : Nat, testBit (0 : Bitboard) i = true → False := fun i h => by simp at h
  -- one case for each mode: the paired targets shrink, the other captures are dropped
  cases mode with
  | intervention =>
    simp only [MillRules.commitRemoval, MillRules.clearLeap, MillRules.clearCustodian,
      MillState.setMillAvailableAtRemoval, MillState.setPendingRemovals,
      MillState.refreshZobristMiscForSide, MillState.setZobristMiscCount]
    refine ⟨_, _, _, rfl, ?_, hcount.2.1, rfl, rfl, rfl⟩
    refine ⟨?_, ?_, ?_, ?_, ?_, ?_, ?_, fun x hx => ?_⟩ <;>
      simp only [dischargedCaptures, setAt_self]
    · exact fun i h => (hnone i h).elim
    · exact fun i h => testBit_struck_paired h
    · exact fun i h => (hnone i h).elim
    · exact fun h => absurd rfl h
    · exact count_pos_of_ne
    · exact fun h => absurd rfl h
    · exact ⟨Nat.zero_le _, Nat.sub_le _ _, Nat.zero_le _⟩
    · simp [setAt_of_ne hx]
  | custodian =>
    simp only [MillRules.commitRemoval, MillRules.clearLeap, MillRules.clearIntervention,
      MillState.setMillAvailableAtRemoval, MillState.setPendingRemovals,
      MillState.refreshZobristMiscForSide, MillState.setZobristMiscCount]
    refine ⟨_, _, _, rfl, ?_, by omega, rfl, rfl, rfl⟩
    refine ⟨?_, ?_, ?_, ?_, ?_, ?_, ?_, fun x hx => ?_⟩ <;>
      simp only [dischargedCaptures, setAt_self]
    · exact fun i h => testBit_struck h
    · exact fun i h => (hnone i h).elim
    · exact fun i h => (hnone i h).elim
    · exact count_pos_of_ne
    · exact fun h => absurd rfl h
    · exact fun h => absurd rfl h
    · exact ⟨Nat.sub_le _ _, Nat.zero_le _, Nat.zero_le _⟩
    · simp [setAt_of_ne hx]
  | leap =>
    simp only [MillRules.commitRemoval, MillRules.clearCustodian, MillRules.clearIntervention,
      MillState.setMillAvailableAtRemoval, MillState.setPendingRemovals,
      MillState.refreshZobristMiscForSide, MillState.setZobristMiscCount]
    refine ⟨_, _, _, rfl, ?_, by omega, rfl, rfl, rfl⟩
    refine ⟨?_, ?_, ?_, ?_, ?_, ?_, ?_, fun x hx => ?_⟩ <;>
      simp only [dischargedCaptures, setAt_self]
    · exact fun i h => (hnone i h).elim
    · exact fun i h => (hnone i h).elim
    · exact fun i h => testBit_struck h
    · exact fun h => absurd rfl h
    · exact fun h => absurd rfl h
    · exact count_pos_of_ne
    · exact ⟨Nat.zero_le _, Nat.zero_le _, Nat.sub_le _ _⟩
    · simp [setAt_of_ne hx]
  | regular =>
    have hsame : setAt s.pendingRemovals c (s.pendingRemovals c) = s.pendingRemovals :=
      Function.update_eq_self c _
    simp only [MillRules.commitRemoval]
    -- a regular removal clears the captures where a mill was open, and uses up one of those owed
    split
    · split
      · simp only [MillState.setPendingRemovals, MillState.refreshZobristMiscForSide,
          MillState.setZobristMiscCount, MillState.clearCaptureStateForSide,
          MillState.setMillAvailableAtRemoval]
        refine ⟨_, _, _, rfl, struck_cleared ?_ fun x hx => ?_, ?_, rfl, rfl, rfl⟩
        · simp only [dischargedCaptures]
          exact ⟨setAt_self _ _ _, setAt_self _ _ _, setAt_self _ _ _, setAt_self _ _ _,
            setAt_self _ _ _, setAt_self _ _ _⟩
        · simp [dischargedCaptures, setAt_of_ne hx]
        · omega
      · simp only [MillState.clearCaptureStateForSide, MillState.setMillAvailableAtRemoval]
        refine ⟨(s.clearCaptureStateForSide c).toMillCaptures, s.pendingRemovals c,
          { s.flags with millAvailableAtRemoval := true }, ?_, struck_cleared ?_ fun x hx => ?_,
          hpending, rfl, rfl, rfl⟩
        · rw [hsame]
          rfl
        · simp only [dischargedCaptures]
          exact ⟨setAt_self _ _ _, setAt_self _ _ _, setAt_self _ _ _, setAt_self _ _ _,
            setAt_self _ _ _, setAt_self _ _ _⟩
        · simp [dischargedCaptures, MillState.clearCaptureStateForSide, setAt_of_ne hx]
    · exact ⟨s.toMillCaptures, s.pendingRemovals c, s.flags, by rw [hsame],
        struck_self hrecord hmode, hpending, rfl, rfl, rfl⟩

/-- The state `removePiece` leaves, given what is left of the records and obligations. -/
def removed (s : MillState) (n : Node) (c targetColor : Side) (mark : Bool) (k : MillCaptures)
    (owed : Nat) (flags : MillStateFlags) : MillState :=
  { s with
    toMillPosition := (takeCounted r s n targetColor mark).toMillPosition
    toMillCaptures := k
    pendingRemovals := setAt s.pendingRemovals c owed
    flags := flags
    plySinceCapture := 0
    keyHistory := []
    keyHistoryLen := 0 }

/-- Taking a piece reads and writes the position only. -/
theorem takeCounted_eq (s t : MillState) (hposition : t.toMillPosition = s.toMillPosition)
    (targetColor : Side) (mark : Bool) :
    takeCounted r t n targetColor mark
      = { t with toMillPosition := (takeCounted r s n targetColor mark).toMillPosition } := by
  cases mark
  · simp only [takeCounted, MillRules.takePiece, updateMobilityRemove, MillState.clearLivePiece,
      Bool.false_eq_true, if_false, hposition]
  · simp only [takeCounted, MillRules.takePiece, updateMobilityRemove,
      MillState.markBoardNodeInactive, if_true, hposition]

/-- **A removal takes the piece, strikes the records and owes one less.** -/
theorem removePiece_spec (hrecord : CaptureRecord s c) (hsane : Sane r.options s)
    (targetColor : Side) (own : Bool) :
    ∃ (k : MillCaptures) (owed : Nat) (flags : MillStateFlags) (mark : Bool),
      r.removePiece s n c targetColor own = removed r s n c targetColor mark k owed flags
      ∧ Struck s k c n ∧ owed ≤ 255
      ∧ flags.removeOwnPiece = s.flags.removeOwnPiece
      ∧ flags.stalemateRemoving = s.flags.stalemateRemoving
      ∧ flags.bothStalemateRemoving = s.flags.bothStalemateRemoving
      ∧ (mark = true → r.options.millFormationActionInPlacingPhase
        = .markAndDelayRemovingPieces) := by
  obtain ⟨k, owed, flags, heq, hstruck, howed, hown, hstalemate, hboth⟩ :=
    commitRemoval_eq r hrecord hsane (n := n) rfl
  -- the writes of `removePiece` around the one that takes the piece, `m`
  obtain ⟨m, mark, hmark, hm, hparts⟩ : ∃ (m : MillState) (mark : Bool),
      mark = decide (r.options.millFormationActionInPlacingPhase = .markAndDelayRemovingPieces
        ∧ (r.commitRemoval s c (MillRules.removalMode s c n)).phase = .placing ∧ (!own) = true)
      ∧ m = takeCounted r (r.commitRemoval s c (MillRules.removalMode s c n)) n targetColor mark
      ∧ r.removePiece s n c targetColor own
        = MillState.clearKeyHistory { r.dischargeRemoval
            ((m.setPendingRemovals c (m.pendingRemovals c - 1)).refreshZobristMiscForSide c)
            c n (MillRules.removalMode s c n) with plySinceCapture := 0 } :=
    ⟨_, _, rfl, rfl, rfl⟩
  rw [takeCounted_eq r s (r.commitRemoval s c (MillRules.removalMode s c n))
    (by rw [heq]), heq] at hm
  rw [hparts, hm, dischargeRemoval_eq]
  have hidem : ∀ v, setAt (setAt s.pendingRemovals c owed) c v = setAt s.pendingRemovals c v :=
    fun v => Function.update_idem _ _ _
  simp only [MillState.setPendingRemovals, MillState.refreshZobristMiscForSide,
    MillState.setZobristMiscCount, MillState.clearKeyHistory, setAt_self, hidem]
  refine ⟨_, owed - 1, _, mark, rfl, hstruck, by omega, hown, hstalemate, hboth, fun ht => ?_⟩
  rw [ht, eq_comm, decide_eq_true_eq] at hmark
  exact hmark.1

/-! ## The branch -/

/-- The color a removal takes from. -/
def removalTarget (s : MillState) (c : Side) : Side :=
  if s.flags.removeOwnPiece c then c else c.opponent

theorem syncedAction_owing (hactive : s.sideToMove = c.toI8) (hrun : s.phase ≠ .gameOver)
    (howed : s.pendingRemovals c ≠ 0) : s.syncedAction = .remove := by
  unfold MillState.syncedAction
  rw [if_neg hrun, hactive, Side.sideIndex_toI8,
    if_pos ⟨Side.toI8_nonneg c, Nat.pos_of_ne_zero howed⟩]

theorem TurnInv.not_over (h : TurnInv s c) : s.phase ≠ .gameOver := by
  rcases h.running with hp | hp <;> rw [hp] <;> decide

/-- Only the mask of the removed piece's color changes. -/
theorem takeCounted_masks (hpos : PositionInv r.options s.toMillPosition) {targetColor : Side}
    (hlive : testBit (s.byColorBb targetColor) n = true) (mark : Bool) :
    (takeCounted r s n targetColor mark).byColorBb
      = setAt s.byColorBb targetColor (s.byColorBb targetColor &&& ~~~nodeBit n) := by
  cases mark
  · rfl
  · exact hpos.clearColorAt_live hlive

section Branch

variable {k : MillCaptures} {owed : Nat} {flags : MillStateFlags} {mark : Bool}

theorem removed_sane (hsane : Sane r.options s) (hstruck : Struck s k c n) (howed : owed ≤ 255)
    (targetColor : Side) : Sane r.options (removed r s n c targetColor mark k owed flags) where
  captureRules h1 h2 h3 := hstruck.empty (hsane.captureRules h1 h2 h3)
  pendingRemovals := setAt_le hsane.pendingRemovals howed c
  captureCounts x := hstruck.counts_le x hsane.captureCounts
  lastMill := hsane.lastMill
  winner := hsane.winner
  preferredRemoveTarget := hsane.preferredRemoveTarget

variable (h : TurnInv s c) (hpos : PositionInv r.options s.toMillPosition)
  (hlive : testBit (s.byColorBb (removalTarget s c)) n = true) (hstruck : Struck s k c n)
  (hown : flags.removeOwnPiece = s.flags.removeOwnPiece)
  (hstalemate : flags.stalemateRemoving = s.flags.stalemateRemoving)

include h hstruck hown hstalemate

include hpos hlive in
/-- More removals are owed: the turn goes on. -/
theorem removed_turn (howed : s.pendingRemovals c ≠ 0) (hleft : owed ≠ 0) :
    TurnInv (removed r s n c (removalTarget s c) mark k owed flags) c := by
  have hself : setAt s.pendingRemovals c owed c = owed := setAt_self _ _ _
  have hother : setAt s.pendingRemovals c owed c.opponent = s.pendingRemovals c.opponent :=
    setAt_of_ne (Side.opponent_ne c) _ _
  have hmasks := takeCounted_masks r hpos hlive mark
  -- more is owed, so the turn stays with the side and only the record has changed
  exact
    { active := h.active
      running := h.running
      synced := by
        have hbefore := h.synced.trans (syncedAction_owing h.active h.not_over howed)
        have hafter := syncedAction_owing
          (s := removed r s n c (removalTarget s c) mark k owed flags) h.active h.not_over
          (fun hz => hleft (hself.symm.trans hz))
        rw [hafter]
        exact hbefore
      undecided := h.undecided
      phase_eq := fun hz => absurd (hself.symm.trans hz) hleft
      quiet := fun hz => absurd (hself.symm.trans hz) hleft
      opponentOwes := fun hne => by
        change setAt s.pendingRemovals c owed c.opponent ≠ 0 at hne
        rw [hother] at hne
        obtain ⟨-, hphase, hst⟩ := h.opponentOwes hne
        exact ⟨fun hz => hleft (hself.symm.trans hz), hphase, hstalemate.trans hst⟩
      opponentCaptures := hstruck.opponent h.opponentCaptures
      record := by
        refine hstruck.record h.record rfl fun i hi hne => ?_
        change testBit ((takeCounted r s n (removalTarget s c) mark).byColorBb c.opponent) i = true
        rw [hmasks]
        by_cases htarget : c.opponent = removalTarget s c
        · have hbit : testBit (nodeBit n) i = false := by
            rw [Bool.eq_false_iff]
            exact fun hb => hne (eq_of_testBit_nodeBit hb)
          rw [← htarget, setAt_self, testBit_and_not, hi, hbit]
          rfl
        · rw [setAt_of_ne htarget]
          exact hi
      ownPieceOwed := fun x hx => by
        change flags.removeOwnPiece x = true at hx
        rw [hown] at hx
        change setAt s.pendingRemovals c owed x ≠ 0
        by_cases hxc : x = c
        · rw [hxc, setAt_self]
          exact hleft
        · rw [setAt_of_ne hxc]
          exact h.ownPieceOwed x hx
      ownPieceAlone := fun hx => by
        change flags.removeOwnPiece c = true at hx
        rw [hown] at hx
        exact hstruck.own (h.ownPieceAlone hx) }

end Branch

/-- The flag of a both-sides stalemate goes once neither side owes a removal. -/
theorem finishBothStalemate_eq (q : MillState) :
    ∃ flags : MillStateFlags,
      (if q.flags.bothStalemateRemoving = true ∧ q.pendingRemovals 0 = 0
          ∧ q.pendingRemovals 1 = 0 then
        q.setBothStalemateRemoving false else q) = { q with flags := flags }
      ∧ flags.millAvailableAtRemoval = q.flags.millAvailableAtRemoval
      ∧ flags.stalemateRemoving = q.flags.stalemateRemoving
      ∧ (flags.bothStalemateRemoving = true → q.flags.bothStalemateRemoving = true
          ∧ ¬(q.pendingRemovals 0 = 0 ∧ q.pendingRemovals 1 = 0))
      ∧ flags.removeOwnPiece = q.flags.removeOwnPiece := by
  split
  · exact ⟨{ q.flags with bothStalemateRemoving := false }, rfl, rfl, rfl,
      fun h => absurd h Bool.false_ne_true, rfl⟩
  · rename_i hkeep
    exact ⟨q.flags, rfl, rfl, rfl, fun h => ⟨h, fun hz => hkeep ⟨h, hz⟩⟩, rfl⟩

theorem finishBoardFull_eq (q : MillState) :
    ∃ flags : MillStateFlags,
      (if q.flags.boardFullRemoving = true ∧ q.pendingRemovals 0 = 0
          ∧ q.pendingRemovals 1 = 0 then
        q.setBoardFullRemoving false else q) = { q with flags := flags }
      ∧ flags.millAvailableAtRemoval = q.flags.millAvailableAtRemoval
      ∧ flags.stalemateRemoving = q.flags.stalemateRemoving
      ∧ flags.bothStalemateRemoving = q.flags.bothStalemateRemoving
      ∧ flags.removeOwnPiece = q.flags.removeOwnPiece := by
  split
  · exact ⟨{ q.flags with boardFullRemoving := false }, rfl, rfl, rfl, rfl, rfl⟩
  · exact ⟨q.flags, rfl, rfl, rfl, rfl, rfl⟩

/-- What `finishRemovals` does before it ends the turn. -/
theorem finishRemovals_eq (hactive : p.sideToMove = c.toI8) (own : Bool) :
    ∃ (flags : MillStateFlags) (e : Side),
      r.finishRemovals p c own
        = r.endPlacingTurn
            { p.clearCaptureStateForSide c with flags := flags, sideToMove := e.toI8 }
      ∧ flags.millAvailableAtRemoval = false ∧ flags.stalemateRemoving = false
      ∧ (flags.bothStalemateRemoving = true → p.flags.bothStalemateRemoving = true
          ∧ ¬(p.pendingRemovals 0 = 0 ∧ p.pendingRemovals 1 = 0))
      ∧ flags.removeOwnPiece
          = (if own then setAt p.flags.removeOwnPiece c false else p.flags.removeOwnPiece)
      ∧ e = (if p.flags.stalemateRemoving then c else c.opponent) := by
  -- the side and the flags once the stalemate removal is settled
  obtain ⟨flags, e, heq, hmill, hstalemate, hboth, hown, he⟩ :
      ∃ (flags : MillStateFlags) (e : Side),
        (let state := p.clearCaptureStateForSide c
          let state := if own then state.setRemoveOwnPiece c false else state
          if state.flags.stalemateRemoving then state.setStalemateRemoving false
          else { state with sideToMove := xorOne state.sideToMove })
          = { p.clearCaptureStateForSide c with flags := flags, sideToMove := e.toI8 }
        ∧ flags.millAvailableAtRemoval = false ∧ flags.stalemateRemoving = false
        ∧ flags.bothStalemateRemoving = p.flags.bothStalemateRemoving
        ∧ flags.removeOwnPiece
          = (if own then setAt p.flags.removeOwnPiece c false else p.flags.removeOwnPiece)
        ∧ e = (if p.flags.stalemateRemoving then c else c.opponent) := by
    have hother : xorOne p.sideToMove = c.opponent.toI8 := by rw [hactive, Side.xorOne_toI8]
    cases own <;> cases hst : p.flags.stalemateRemoving <;>
      simp only [MillState.clearCaptureStateForSide, MillState.setRemoveOwnPiece,
        MillState.setStalemateRemoving, hst, hother, Bool.false_eq_true, if_true, if_false]
    · exact ⟨_, c.opponent, rfl, rfl, rfl, rfl, rfl, rfl⟩
    · exact ⟨{ p.flags with millAvailableAtRemoval := false, stalemateRemoving := false }, c,
        by rw [← hactive], rfl, rfl, rfl, rfl, rfl⟩
    · exact ⟨_, c.opponent, rfl, rfl, rfl, rfl, rfl, rfl⟩
    · exact ⟨{ p.flags with
          millAvailableAtRemoval := false, stalemateRemoving := false
          removeOwnPiece := setAt p.flags.removeOwnPiece c false }, c,
        by rw [← hactive], rfl, rfl, rfl, rfl, rfl⟩
  obtain ⟨flags2, heq2, hmill2, hstalemate2, hboth2, hown2⟩ := finishBothStalemate_eq
    { p.clearCaptureStateForSide c with flags := flags, sideToMove := e.toI8 }
  obtain ⟨flags3, heq3, hmill3, hstalemate3, hboth3, hown3⟩ := finishBoardFull_eq
    { p.clearCaptureStateForSide c with flags := flags2, sideToMove := e.toI8 }
  have hfinish : r.finishRemovals p c own = r.endPlacingTurn
      { p.clearCaptureStateForSide c with flags := flags3, sideToMove := e.toI8 } := by
    unfold MillRules.finishRemovals
    simp only at heq heq2 heq3 ⊢
    rw [heq, heq2, heq3]
  refine ⟨flags3, e, hfinish, hmill3.trans (hmill2.trans hmill),
    hstalemate3.trans (hstalemate2.trans hstalemate), fun hset => ?_,
    hown3.trans (hown2.trans hown), he⟩
  obtain ⟨hold, hleft⟩ := hboth2 (hboth3.symm.trans hset)
  exact ⟨hboth.symm.trans hold, hleft⟩

/-- The side has discharged its obligation, so its turn may end. -/
theorem removed_turnEnd (h : TurnInv s c) (mark : Bool) (flags : MillStateFlags)
    (targetColor : Side) {k : MillCaptures} {flags' : MillStateFlags} {e : Side}
    (hstruck : Struck s k c n)
    (hmill : flags'.millAvailableAtRemoval = false) (hstalemate : flags'.stalemateRemoving = false)
    (hboth : flags'.bothStalemateRemoving = true →
      ¬(setAt s.pendingRemovals c 0 0 = 0 ∧ setAt s.pendingRemovals c 0 1 = 0))
    (hown : flags'.removeOwnPiece = (if s.flags.removeOwnPiece c then
      setAt s.flags.removeOwnPiece c false else s.flags.removeOwnPiece))
    (he : e = (if s.flags.stalemateRemoving then c else c.opponent)) :
    TurnEnd r.options
      { (removed r s n c targetColor mark k 0 flags).clearCaptureStateForSide c with
        flags := flags', sideToMove := e.toI8 } e := by
  have hself : setAt s.pendingRemovals c 0 c = 0 := setAt_self _ _ _
  have hother : setAt s.pendingRemovals c 0 c.opponent = s.pendingRemovals c.opponent :=
    setAt_of_ne (Side.opponent_ne c) _ _
  -- nothing is owed at all once the opponent owes nothing
  have hall : s.pendingRemovals c.opponent = 0 → ∀ x, setAt s.pendingRemovals c 0 x = 0 :=
    fun hz => (Side.forall_iff c _).2 ⟨hself, hother.trans hz⟩
  have hplacing : s.phase = .placing → s.pendingRemovals c.opponent = 0 := by
    intro hp
    by_contra hne
    rw [(h.opponentOwes hne).2.1] at hp
    cases hp
  have hnotBoth : (∀ x, setAt s.pendingRemovals c 0 x = 0) →
      flags'.bothStalemateRemoving = false := by
    intro hz
    rw [Bool.eq_false_iff]
    exact fun hset => hboth hset ⟨hz 0, hz 1⟩
  have hopponent : setAt s.pendingRemovals c 0 e.opponent = 0 ∧
      (setAt s.pendingRemovals c 0 e = 0 → s.pendingRemovals c.opponent = 0) := by
    rw [he]
    cases hst : s.flags.stalemateRemoving
    · simp only [Bool.false_eq_true, if_false, Side.opponent_opponent]
      exact ⟨hself, fun hz => hother.symm.trans hz⟩
    · have hz : s.pendingRemovals c.opponent = 0 := by
        by_contra hne
        rw [(h.opponentOwes hne).2.2] at hst
        exact Bool.false_ne_true hst
      exact ⟨hother.trans hz, fun _ => hz⟩
  refine
    { active := rfl
      running := h.running
      undecided := h.undecided
      noCaptures := fun x => ?_
      notStalemate := hstalemate
      placing := fun hp => hnotBoth (hall (hplacing hp))
      owed := fun _ => ⟨hopponent.1, fun hp => hall (hplacing hp) e,
        fun hz => ⟨hmill, hnotBoth (hall (hopponent.2 hz))⟩, fun x hx => ?_⟩ }
  · rcases Side.eq_or_eq_opponent c x with rfl | rfl
    · exact ⟨setAt_self _ _ _, setAt_self _ _ _, setAt_self _ _ _, setAt_self _ _ _,
        setAt_self _ _ _, setAt_self _ _ _⟩
    · have hne := Side.opponent_ne c
      have hempty := hstruck.opponent h.opponentCaptures
      exact ⟨(setAt_of_ne hne _ _).trans hempty.custodian,
        (setAt_of_ne hne _ _).trans hempty.custodianCount,
        (setAt_of_ne hne _ _).trans hempty.intervention,
        (setAt_of_ne hne _ _).trans hempty.interventionCount,
        (setAt_of_ne hne _ _).trans hempty.leap, (setAt_of_ne hne _ _).trans hempty.leapCount⟩
  · -- the side's own-piece obligation is cleared, the opponent's still stands
    change flags'.removeOwnPiece x = true at hx
    change setAt s.pendingRemovals c 0 x ≠ 0
    rw [hown] at hx
    rcases Side.eq_or_eq_opponent c x with rfl | rfl
    · cases hc : s.flags.removeOwnPiece x
      · simp [hc] at hx
      · simp [hc] at hx
    · have hset : s.flags.removeOwnPiece c.opponent = true := by
        split at hx
        · rw [setAt_of_ne (Side.opponent_ne c)] at hx
          exact hx
        · exact hx
      rw [hother]
      exact h.ownPieceOwed _ hset

/-- **The removing branch**: after the board writes, the turn goes on, passes, or the game ends. -/
theorem applyRemove_done (h : TurnInv s c) (hpos : PositionInv r.options s.toMillPosition)
    (hsane : Sane r.options s) (howed : s.pendingRemovals c ≠ 0)
    (hlive : testBit (s.byColorBb (removalTarget s c)) n = true) :
    ∃ (k : MillCaptures) (owed : Nat) (flags : MillStateFlags) (mark : Bool),
      BranchDone r.options (removed r s n c (removalTarget s c) mark k owed flags)
        (r.applyRemove s n)
      ∧ (mark = true →
        r.options.millFormationActionInPlacingPhase = .markAndDelayRemovingPieces) := by
  obtain ⟨k, owed, flags, mark, heq, hstruck, hle, hown, hstalemate, hboth, hmark⟩ :=
    removePiece_spec r h.record hsane (n := n) (removalTarget s c) (s.flags.removeOwnPiece c)
  refine ⟨k, owed, flags, mark, ?_, hmark⟩
  have hsane' : Sane r.options (removed r s n c (removalTarget s c) mark k owed flags) :=
    removed_sane r hsane hstruck hle (removalTarget s c)
  have hkeeps : Keeps r.options (removed r s n c (removalTarget s c) mark k owed flags)
      (removed r s n c (removalTarget s c) mark k owed flags) := Keeps.refl _
  have hpos' : PositionInv r.options
      (removed r s n c (removalTarget s c) mark k owed flags).toMillPosition :=
    takeCounted_position r hpos hlive mark
  unfold MillRules.applyRemove
  simp only [h.active, Side.sideIndex_toI8, Side.xorOne_toI8]
  rw [show (if s.flags.removeOwnPiece c = true then c else c.opponent) = removalTarget s c from rfl,
    heq]
  -- the game ends, or this was the last removal, or another is owed
  split
  · exact
      { keeps := { hkeeps with }
        sane := { hsane' with
          winner := by
            refine Or.inr (Or.inr ?_)
            change ∃ w : Side, (if s.flags.removeOwnPiece c = true then _
              else s.sideToMove) = w.toI8
            split
            · exact ⟨c.opponent, rfl⟩
            · exact ⟨c, h.active⟩ }
        turn := fun hrun => absurd rfl hrun }
  · split
    · rename_i hdone
      have howed0 : owed = 0 := by
        have : setAt s.pendingRemovals c owed c = 0 := hdone
        rwa [setAt_self] at this
      subst howed0
      -- what follows the last removal starts from the turn of whoever is next
      obtain ⟨flags', e, hfinish, hmill', hstalemate', hboth', hown', he⟩ := finishRemovals_eq r
        (p := removed r s n c (removalTarget s c) mark k 0 flags) h.active
        (s.flags.removeOwnPiece c)
      rw [hfinish]
      have hend := removed_turnEnd r h mark flags (removalTarget s c) hstruck hmill' hstalemate'
        (fun hset => (hboth' hset).2) (hown'.trans (by
          change (if _ then setAt flags.removeOwnPiece c false else flags.removeOwnPiece) = _
          rw [hown]))
        (he.trans (by
          change (if flags.stalemateRemoving = true then c else c.opponent) = _
          rw [hstalemate]))
      refine BranchDone.turnEnd r { hkeeps with } ?_ hpos' hend
      exact
        { hsane' with
          captureRules := fun _ _ _ => hend.noCaptures
          captureCounts := fun x => by
            have hempty := hend.noCaptures x
            rw [hempty.custodianCount, hempty.interventionCount, hempty.leapCount]
            exact ⟨Nat.zero_le _, Nat.zero_le _, Nat.zero_le _⟩ }
    · rename_i hdone
      have hleft : owed ≠ 0 := by
        have : setAt s.pendingRemovals c owed c ≠ 0 := hdone
        rwa [setAt_self] at this
      exact
        { keeps := hkeeps
          sane := hsane'
          turn := fun _ => ⟨c, removed_turn r h hpos hlive hstruck hown hstalemate howed hleft⟩ }

end Sanmill
