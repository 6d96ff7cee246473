import Sanmill.Proof.Turn

/-!
# What a detection may return

Every detector ends in `filterCaptureTargets`, so what it returns are live pieces
of the opponent, and it returns nothing while its rule is off. Publishing the
targets therefore leaves a `CaptureRecord`, and so does striking a removed piece
off it.
-/

namespace Sanmill

open Bits

variable {options : MillVariantOptions} {s t : MillState} {c : Side} {target : Node}

theorem pieceBitboard_opponent (hactive : s.sideToMove = c.toI8) :
    s.pieceBitboard s.opponentPiece = s.byColorBb c.opponent := by
  unfold MillPosition.pieceBitboard MillState.opponentPiece
  rw [hactive, Side.xorOne_toI8, Side.colorIndexForPiece_toI8]

theorem pieceBitboard_own (hactive : s.sideToMove = c.toI8) :
    s.pieceBitboard (s.sideToMove + 1) = s.byColorBb c := by
  unfold MillPosition.pieceBitboard
  rw [hactive, Side.colorIndexForPiece_toI8]

/-! ## Detection -/

theorem testBit_filterCaptureTargets (hactive : s.sideToMove = c.toI8)
    {targets : Bitboard} {i : Nat}
    (h : testBit (filterCaptureTargets s options targets) i = true) :
    testBit targets i = true ∧ testBit (s.byColorBb c.opponent) i = true := by
  have hand : testBit (targets &&& s.pieceBitboard s.opponentPiece) i = true := by
    unfold filterCaptureTargets at h
    simp only at h
    split_ifs at h
    · exact h
    · exact h
    · rw [testBit_and_not, Bool.and_eq_true] at h
      exact h.1
  rw [testBit_and, Bool.and_eq_true, pieceBitboard_opponent hactive] at hand
  exact hand

theorem detectCustodianTargets_live (hactive : s.sideToMove = c.toI8) {i : Nat}
    (h : testBit (detectCustodianTargets s options target) i = true) :
    testBit (s.byColorBb c.opponent) i = true := by
  unfold detectCustodianTargets at h
  simp only at h
  split at h
  · simp at h
  · exact (testBit_filterCaptureTargets hactive h).2

theorem detectLeapTargets_live (hactive : s.sideToMove = c.toI8) {source : Node} {i : Nat}
    (h : testBit (detectLeapTargets s options source target) i = true) :
    testBit (s.byColorBb c.opponent) i = true := by
  unfold detectLeapTargets at h
  simp only at h
  split at h
  · simp at h
  · exact (testBit_filterCaptureTargets hactive h).2

theorem detectInterventionTargets_live (hactive : s.sideToMove = c.toI8) {i : Nat}
    (h : testBit (detectInterventionTargets s options target) i = true) :
    testBit (s.byColorBb c.opponent) i = true := by
  unfold detectInterventionTargets at h
  simp only at h
  split at h
  · simp at h
  · split at h
    · simp at h
    · exact (testBit_filterCaptureTargets hactive h).2

/-! ## Publishing -/

theorem bitCount_pos {mask : Bitboard} (h : mask ≠ 0) : 0 < bitCount mask := by
  have := (countOnes_pos_iff mask).2 h
  unfold bitCount
  omega

theorem bitCount_zero : bitCount 0 = 0 := by
  unfold bitCount
  rw [show (0 : Bitboard) = 0#32 from rfl, countOnes_zero]
  rfl

/-- The records after `c` has been offered these targets. -/
def publishedCaptures (k : MillCaptures) (c : Side) (custodian intervention leap : Bitboard) :
    MillCaptures where
  custodianTargets := setAt k.custodianTargets c custodian
  interventionTargets := setAt k.interventionTargets c intervention
  leapTargets := setAt k.leapTargets c leap
  custodianCount := setAt k.custodianCount c (if custodian = 0 then 0 else 1)
  interventionCount := setAt k.interventionCount c (bitCount intervention)
  leapCount := setAt k.leapCount c (bitCount leap)

/-- `activateCaptureState` writes the record of the side to move and nothing else. -/
theorem activateCaptureState_eq (hactive : s.sideToMove = c.toI8)
    (custodian intervention leap : Bitboard) :
    s.activateCaptureState custodian intervention leap
      = { s with
          toMillCaptures := publishedCaptures s.toMillCaptures c custodian intervention leap } := by
  simp only [MillState.activateCaptureState, publishedCaptures, hactive, Side.toI8_inRange_lt,
    if_true, Side.sideIndex_toI8]

/-- A published record is sound once its targets are live. -/
theorem captureRecord_published {k : MillCaptures} {custodian intervention leap : Bitboard}
    (hcaptures : t.toMillCaptures = publishedCaptures k c custodian intervention leap)
    (hcustodian : ∀ i, testBit custodian i = true → testBit (t.byColorBb c.opponent) i = true)
    (hintervention : ∀ i, testBit intervention i = true →
      testBit (t.byColorBb c.opponent) i = true)
    (hleap : ∀ i, testBit leap i = true → testBit (t.byColorBb c.opponent) i = true) :
    CaptureRecord t c := by
  refine ⟨?_, ?_, ?_, ?_, ?_, ?_⟩
  all_goals
    rw [hcaptures]
    simp only [publishedCaptures, setAt_self]
  · exact hcustodian
  · exact hintervention
  · exact hleap
  · intro hne
    rw [if_neg hne]
    exact Nat.one_pos
  · exact bitCount_pos
  · exact bitCount_pos

/-- Publishing for `c` leaves the opponent's record alone. -/
theorem capturesEmpty_published {k : MillCaptures} {custodian intervention leap : Bitboard}
    (hcaptures : t.toMillCaptures = publishedCaptures k c custodian intervention leap)
    (h : CapturesEmpty k c.opponent) :
    CapturesEmpty t.toMillCaptures c.opponent := by
  rw [hcaptures]
  have hne := Side.opponent_ne c
  exact ⟨(setAt_of_ne hne _ _).trans h.custodian, (setAt_of_ne hne _ _).trans h.custodianCount,
    (setAt_of_ne hne _ _).trans h.intervention, (setAt_of_ne hne _ _).trans h.interventionCount,
    (setAt_of_ne hne _ _).trans h.leap, (setAt_of_ne hne _ _).trans h.leapCount⟩

/-- Publishing nothing empties the record. -/
theorem capturesEmpty_published_zero {k : MillCaptures}
    (hcaptures : t.toMillCaptures = publishedCaptures k c 0 0 0)
    (h : CapturesEmpty k c.opponent) (x : Side) :
    CapturesEmpty t.toMillCaptures x := by
  rcases Side.eq_or_eq_opponent c x with rfl | rfl
  · rw [hcaptures]
    simp only [publishedCaptures, if_true, bitCount_zero]
    exact ⟨setAt_self _ _ _, setAt_self _ _ _, setAt_self _ _ _, setAt_self _ _ _,
      setAt_self _ _ _, setAt_self _ _ _⟩
  · exact capturesEmpty_published hcaptures h

/-! ## The paired intervention target -/

theorem activeCaptureLines_ends (config : CaptureRuleConfig) (options : MillVariantOptions) :
    ∀ line ∈ activeCaptureLines config options, line.a ≠ line.c := by
  have h : ∀ line ∈ captureCrossLines ++ captureSquareEdgeLines ++ captureDiagonalLines,
      line.a ≠ line.c := by decide
  intro line hline
  refine h line ?_
  unfold activeCaptureLines at hline
  simp only [List.mem_append] at hline ⊢
  rcases hline with (hl | hl) | hl
  · split at hl
    · exact Or.inl (Or.inl hl)
    · simp at hl
  · split at hl
    · exact Or.inl (Or.inr hl)
    · simp at hl
  · split at hl
    · exact Or.inr hl
    · simp at hl

/-- The paired target is another one of the targets. -/
theorem findPairedInterventionTarget_subset {removed : Node} {targets : Bitboard} {i : Nat}
    (h : testBit (findPairedInterventionTarget removed targets options) i = true) :
    testBit targets i = true ∧ i ≠ removed := by
  unfold findPairedInterventionTarget at h
  simp only at h
  cases hfound : (activeCaptureLines options.interventionCapture options).findSome? (fun line =>
      if removed = line.a ∧ testBit targets line.c then some (nodeBit line.c)
      else if removed = line.c ∧ testBit targets line.a then some (nodeBit line.a)
      else none) with
  | none =>
    rw [hfound, Option.getD_none, testBit_and_not, Bool.and_eq_true] at h
    refine ⟨h.1, ?_⟩
    rintro rfl
    simp at h
  | some mask =>
    rw [hfound, Option.getD_some] at h
    obtain ⟨line, hline, hmask⟩ := List.exists_of_findSome?_eq_some hfound
    have hends := activeCaptureLines_ends _ _ line hline
    split_ifs at hmask with h1 h2
    · rw [← Option.some.inj hmask] at h
      rw [eq_of_testBit_nodeBit h]
      refine ⟨h1.2, fun e => hends ?_⟩
      rw [← h1.1]
      exact (Fin.ext e).symm
    · rw [← Option.some.inj hmask] at h
      rw [eq_of_testBit_nodeBit h]
      refine ⟨h2.2, fun e => hends ?_⟩
      rw [← h2.1]
      exact Fin.ext e

end Sanmill
