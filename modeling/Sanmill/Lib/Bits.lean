import Sanmill.Lib.Numerals
import Mathlib.Data.Fintype.Card
import Mathlib.Data.Finset.Card

/-!
# Bit masks as sets of indices

A `BitVec w` is read as the set of indices whose bit is one. `testBit` is the
machine's test `(mask & (1 << i)) != 0`, `countOnes` its `count_ones`, and
`bitIndices` the order in which a loop that pops the least significant bit meets
the ones.

The lemmas push each of the three through the bitwise operations, so a proof
about masks never looks at a shift.
-/

namespace Sanmill.Bits

variable {w : Nat}

/-- `1 << i`. -/
def bit (w : Nat) (i : Nat) : BitVec w := 1#w <<< i

/-- `(mask & (1 << i)) != 0`. -/
def testBit (mask : BitVec w) (i : Nat) : Bool := (mask &&& bit w i) != 0#w

/-- The indices of the ones, ascending. -/
def bitIndices (mask : BitVec w) : List Nat := (List.range w).filter (testBit mask)

/-- `count_ones`. -/
def countOnes (mask : BitVec w) : Nat := (bitIndices mask).length

/-! ## One bit -/

theorem getLsbD_bit (i j : Nat) : (bit w i).getLsbD j = decide (i = j ∧ j < w) := by
  simp only [bit, BitVec.getLsbD_shiftLeft, BitVec.getLsbD_one]
  by_cases hj : j < w
  · by_cases h : i = j
    · simp [h, hj]
      omega
    · by_cases hlt : j < i
      · simp [h, hlt]
      · have : j - i ≠ 0 := by omega
        simp [h, this]
  · simp [hj]

/-- The test looks at exactly one bit. -/
theorem testBit_eq_getLsbD (mask : BitVec w) (i : Nat) : testBit mask i = mask.getLsbD i := by
  unfold testBit
  cases h : mask.getLsbD i
  · -- no index carries a one in the conjunction
    have hzero : mask &&& bit w i = 0#w := by
      apply BitVec.eq_of_getLsbD_eq
      intro j hj
      rw [BitVec.getLsbD_and, getLsbD_bit, BitVec.getLsbD_zero]
      by_cases hij : i = j
      · subst hij
        rw [h, Bool.false_and]
      · simp [hij]
    rw [hzero]
    simp
  · have hlt : i < w := BitVec.lt_of_getLsbD h
    have hone : mask &&& bit w i ≠ 0#w := by
      intro e
      have hi : (mask &&& bit w i).getLsbD i = (0#w).getLsbD i := by rw [e]
      rw [BitVec.getLsbD_and, getLsbD_bit, h, BitVec.getLsbD_zero] at hi
      simp [hlt] at hi
    simpa using hone

theorem testBit_lt {mask : BitVec w} {i : Nat} (h : testBit mask i = true) : i < w := by
  rw [testBit_eq_getLsbD] at h
  exact BitVec.lt_of_getLsbD h

theorem testBit_ext {a b : BitVec w} (h : ∀ i < w, testBit a i = testBit b i) : a = b := by
  apply BitVec.eq_of_getLsbD_eq
  intro i hi
  rw [← testBit_eq_getLsbD, ← testBit_eq_getLsbD, h i hi]

@[simp] theorem testBit_zero (i : Nat) : testBit (0#w) i = false := by
  rw [testBit_eq_getLsbD, BitVec.getLsbD_zero]

theorem testBit_bit (i j : Nat) : testBit (bit w i) j = decide (i = j ∧ j < w) := by
  rw [testBit_eq_getLsbD, getLsbD_bit]

@[simp] theorem testBit_or (a b : BitVec w) (i : Nat) :
    testBit (a ||| b) i = (testBit a i || testBit b i) := by
  simp only [testBit_eq_getLsbD, BitVec.getLsbD_or]

@[simp] theorem testBit_and (a b : BitVec w) (i : Nat) :
    testBit (a &&& b) i = (testBit a i && testBit b i) := by
  simp only [testBit_eq_getLsbD, BitVec.getLsbD_and]

@[simp] theorem testBit_xor (a b : BitVec w) (i : Nat) :
    testBit (a ^^^ b) i = (testBit a i ^^ testBit b i) := by
  simp only [testBit_eq_getLsbD, BitVec.getLsbD_xor]

theorem testBit_not (a : BitVec w) {i : Nat} (hi : i < w) :
    testBit (~~~a) i = !testBit a i := by
  simp only [testBit_eq_getLsbD, BitVec.getLsbD_not, hi, decide_true, Bool.true_and]

/-- Clearing `b` in `a`; no bound on the index, as the ones of `a` supply it. -/
@[simp] theorem testBit_and_not (a b : BitVec w) (i : Nat) :
    testBit (a &&& ~~~b) i = (testBit a i && !testBit b i) := by
  by_cases hi : i < w
  · rw [testBit_and, testBit_not b hi]
  · have ha : testBit a i = false := by
      rw [Bool.eq_false_iff]
      exact fun h => hi (testBit_lt h)
    rw [testBit_and, ha, Bool.false_and, Bool.false_and]

/-- A mask is zero exactly when no bit is set. -/
theorem eq_zero_iff_testBit (mask : BitVec w) : mask = 0#w ↔ ∀ i, testBit mask i = false := by
  constructor
  · rintro rfl i
    exact testBit_zero i
  · intro h
    refine testBit_ext fun i _ => ?_
    rw [h i, testBit_zero]

theorem ne_zero_iff_testBit (mask : BitVec w) : mask ≠ 0#w ↔ ∃ i, testBit mask i = true := by
  rw [ne_eq, eq_zero_iff_testBit, not_forall]
  simp only [Bool.not_eq_false]

/-- `(a & peer) == peer` says that `a` covers `peer`. -/
theorem and_eq_right_iff_testBit (a peer : BitVec w) :
    a &&& peer = peer ↔ ∀ i, testBit peer i = true → testBit a i = true := by
  constructor
  · intro h i hi
    have hi' := congrArg (fun v => testBit v i) h
    simpa [hi] using hi'
  · intro h
    refine testBit_ext fun i _ => ?_
    rw [testBit_and]
    cases hi : testBit peer i
    · rw [Bool.and_false]
    · rw [h i hi, Bool.true_and]

/-! ## The set of ones -/

/-- The indices of the ones, as a set. -/
def ones (mask : BitVec w) : Finset Nat := (Finset.range w).filter fun i => testBit mask i = true

@[simp] theorem mem_ones (mask : BitVec w) (i : Nat) : i ∈ ones mask ↔ testBit mask i = true := by
  simp only [ones, Finset.mem_filter, Finset.mem_range, and_iff_right_iff_imp]
  exact testBit_lt

@[simp] theorem mem_bitIndices (mask : BitVec w) (i : Nat) :
    i ∈ bitIndices mask ↔ testBit mask i = true := by
  simp only [bitIndices, List.mem_filter, List.mem_range, and_iff_right_iff_imp]
  exact testBit_lt

theorem nodup_bitIndices (mask : BitVec w) : (bitIndices mask).Nodup :=
  List.nodup_range.filter _

theorem toFinset_bitIndices (mask : BitVec w) : (bitIndices mask).toFinset = ones mask := by
  ext i
  rw [List.mem_toFinset, mem_bitIndices, mem_ones]

/-- `count_ones` is the size of the set of ones. -/
theorem countOnes_eq_card (mask : BitVec w) : countOnes mask = (ones mask).card := by
  rw [countOnes, ← toFinset_bitIndices, List.toFinset_card_of_nodup (nodup_bitIndices mask)]

theorem ones_bit {i : Nat} (hi : i < w) : ones (bit w i) = {i} := by
  ext j
  rw [mem_ones, testBit_bit, Finset.mem_singleton]
  simp only [decide_eq_true_eq]
  omega

theorem ones_or (a b : BitVec w) : ones (a ||| b) = ones a ∪ ones b := by
  ext i
  simp only [mem_ones, testBit_or, Bool.or_eq_true, Finset.mem_union]

theorem ones_and_not (a b : BitVec w) : ones (a &&& ~~~b) = ones a \ ones b := by
  ext i
  simp only [mem_ones, testBit_and_not, Bool.and_eq_true, Bool.not_eq_true', Finset.mem_sdiff,
    Bool.not_eq_true]

@[simp] theorem countOnes_zero : countOnes (0#w) = 0 := by
  rw [countOnes_eq_card, Finset.card_eq_zero, Finset.eq_empty_iff_forall_notMem]
  intro i
  rw [mem_ones, testBit_zero]
  exact Bool.false_ne_true

theorem countOnes_eq_zero_iff (mask : BitVec w) : countOnes mask = 0 ↔ mask = 0#w := by
  rw [countOnes_eq_card, Finset.card_eq_zero, eq_zero_iff_testBit,
    Finset.eq_empty_iff_forall_notMem]
  simp only [mem_ones, Bool.not_eq_true]

theorem countOnes_pos_iff (mask : BitVec w) : 0 < countOnes mask ↔ mask ≠ 0#w := by
  rw [Nat.pos_iff_ne_zero]
  exact not_congr (countOnes_eq_zero_iff mask)

/-- Setting a bit that was clear adds one. -/
theorem countOnes_or_bit (mask : BitVec w) {i : Nat} (hi : i < w)
    (h : testBit mask i = false) : countOnes (mask ||| bit w i) = countOnes mask + 1 := by
  rw [countOnes_eq_card, countOnes_eq_card, ones_or, ones_bit hi, Finset.union_comm,
    ← Finset.insert_eq, Finset.card_insert_of_notMem]
  rw [mem_ones, h]
  exact Bool.false_ne_true

/-- Clearing a bit that was set takes one away. -/
theorem countOnes_and_not_bit (mask : BitVec w) {i : Nat} (h : testBit mask i = true) :
    countOnes (mask &&& ~~~bit w i) + 1 = countOnes mask := by
  rw [countOnes_eq_card, countOnes_eq_card, ones_and_not, ones_bit (testBit_lt h),
    Finset.sdiff_singleton_eq_erase, Finset.card_erase_add_one]
  rwa [mem_ones]

theorem countOnes_le_of_subset (a b : BitVec w)
    (h : ∀ i, testBit a i = true → testBit b i = true) : countOnes a ≤ countOnes b := by
  rw [countOnes_eq_card, countOnes_eq_card]
  refine Finset.card_le_card fun i hi => ?_
  rw [mem_ones] at hi ⊢
  exact h i hi

/-- A mask with no one at or above `n` counts at most `n`. -/
theorem countOnes_le_of_below (mask : BitVec w) (n : Nat)
    (h : ∀ i, testBit mask i = true → i < n) : countOnes mask ≤ n := by
  rw [countOnes_eq_card]
  have hsub : ones mask ⊆ Finset.range n := by
    intro i hi
    rw [mem_ones] at hi
    exact Finset.mem_range.2 (h i hi)
  simpa using Finset.card_le_card hsub

/-- A mask with no one at or above `n`, counted over `Fin n`. -/
theorem countOnes_eq_card_fin (mask : BitVec w) (n : Nat)
    (h : ∀ i, testBit mask i = true → i < n) :
    countOnes mask = (Finset.univ.filter fun i : Fin n => testBit mask i = true).card := by
  rw [countOnes_eq_card]
  symm
  refine Finset.card_bij (fun i _ => i.val) ?_ ?_ ?_
  · intro i hi
    rw [mem_ones]
    exact (Finset.mem_filter.1 hi).2
  · intro i _ j _ hij
    exact Fin.ext hij
  · intro i hi
    rw [mem_ones] at hi
    exact ⟨⟨i, h i hi⟩, by simpa using hi, rfl⟩

end Sanmill.Bits
