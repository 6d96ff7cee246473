import Mathlib.Data.Nat.BitIndices
import Mathlib.Data.Nat.Bitwise
import Mathlib.Data.Fintype.Card
import Mathlib.Data.Finset.Image
import Sanmill.PerfectDb.Hash
import Sanmill.Lib.Gosper

/-!
# The sixteen transforms permute the board

A bitboard below `2^24` is the set of its points, a transform the image of that set
under a permutation of the points. The permutations are closed under composition and
`inverse_op` is their inverse, so the transforms of a board form one orbit, whichever
board of it one starts from.
-/

namespace Sanmill.PerfectDb

/-! ## The tables -/

theorem transformIndex_inverse (op : SymmetryOp) (i : Fin 24) :
    transformIndex (inverseOp op) (transformIndex op i) = i := by
  revert op i
  decide +kernel

theorem inverseOp_inverseOp (op : SymmetryOp) : inverseOp (inverseOp op) = op := by
  revert op
  decide

theorem transformIndex_identity (i : Fin 24) : transformIndex identityOp i = i := by
  revert i
  decide

/-- Composing two rows of the table gives a row of the table. -/
theorem maps_closed :
    (maps.all fun a => maps.all fun b =>
      maps.any fun c => (b.map fun i => a.getD i.val 0) == c) = true := by
  decide +kernel

theorem row_mem (op : SymmetryOp) :
    maps.getD op.val [] ∈ maps ∧ (maps.getD op.val []).length = 24 := by
  revert op
  decide

theorem exists_composite (a b : SymmetryOp) :
    ∃ c : SymmetryOp, ∀ i, transformIndex c i = transformIndex a (transformIndex b i) := by
  have hclosed := maps_closed
  simp only [List.all_eq_true, List.any_eq_true, beq_iff_eq] at hclosed
  obtain ⟨row, hrow, heq⟩ := hclosed _ (row_mem a).1 _ (row_mem b).1
  obtain ⟨k, hk, rfl⟩ := List.mem_iff_getElem.1 hrow
  refine ⟨⟨k, hk⟩, fun i => ?_⟩
  have hi : i.val < (maps.getD b.val []).length := by
    rw [(row_mem b).2]
    exact i.isLt
  rw [transformIndex, transformIndex, transformIndex, List.getD_eq_getElem _ [] hk, ← heq,
    List.getD_eq_getElem _ _ (by rwa [List.length_map]), List.getElem_map,
    List.getD_eq_getElem _ _ hi]

/-- A transform as a permutation of the points. -/
def indexPerm (op : SymmetryOp) : Equiv.Perm (Fin 24) where
  toFun := transformIndex op
  invFun := transformIndex (inverseOp op)
  left_inv := transformIndex_inverse op
  right_inv := by
    intro i
    have h := transformIndex_inverse (inverseOp op) i
    rwa [inverseOp_inverseOp] at h

@[simp] theorem indexPerm_apply (op : SymmetryOp) (i : Fin 24) :
    indexPerm op i = transformIndex op i := rfl

/-! ## One colour -/

theorem and_shift_ne_zero (bits i : Nat) : bits &&& (1 <<< i) ≠ 0 ↔ bits.testBit i = true := by
  rw [Nat.one_shiftLeft, Nat.and_two_pow]
  cases h : bits.testBit i
  · simp
  · simp

theorem and_shift_eq_zero (bits i : Nat) : bits &&& (1 <<< i) = 0 ↔ bits.testBit i = false := by
  rw [← not_iff_not, ← ne_eq, and_shift_ne_zero, Bool.not_eq_false]

theorem testBit_transform24_foldl (op : SymmetryOp) (bits : Nat) (l : List (Fin 24)) (j : Nat) :
    ∀ acc, (l.foldl (transform24Step op bits) acc).testBit j = true ↔
      acc.testBit j = true ∨
        ∃ i ∈ l, bits.testBit i.val = true ∧ (transformIndex op i).val = j := by
  induction l with
  | nil => simp
  | cons i l ih =>
    intro acc
    rw [List.foldl_cons, ih, transform24Step]
    by_cases hi : bits.testBit i.val = true
    · rw [if_pos ((and_shift_ne_zero _ _).2 hi), Nat.testBit_or, Nat.one_shiftLeft,
        Nat.testBit_two_pow]
      simp only [Bool.or_eq_true, decide_eq_true_eq, List.mem_cons, exists_eq_or_imp, hi, true_and]
      tauto
    · rw [if_neg fun h => hi ((and_shift_ne_zero _ _).1 h)]
      simp only [List.mem_cons, exists_eq_or_imp, hi, Bool.false_eq_true, false_and, false_or]

/-- A point of the image is the image of a point. -/
theorem testBit_transform24_iff (op : SymmetryOp) (bits j : Nat) :
    (transform24 op bits).testBit j = true ↔
      ∃ i : Fin 24, bits.testBit i.val = true ∧ (transformIndex op i).val = j := by
  rw [transform24, testBit_transform24_foldl]
  simp

theorem testBit_transform24 (op : SymmetryOp) (bits : Nat) (i : Fin 24) :
    (transform24 op bits).testBit (transformIndex op i).val = bits.testBit i.val := by
  rw [Bool.eq_iff_iff, testBit_transform24_iff]
  constructor
  · rintro ⟨k, hk, hki⟩
    have heq : k = i := (indexPerm op).injective (Fin.ext hki)
    rwa [← heq]
  · intro h
    exact ⟨i, h, rfl⟩

theorem transform24_lt (op : SymmetryOp) (bits : Nat) : transform24 op bits < 2 ^ 24 := by
  apply Nat.lt_pow_two_of_testBit
  intro j hj
  rw [← Bool.not_eq_true, testBit_transform24_iff]
  rintro ⟨i, _, hi⟩
  have hlt := (transformIndex op i).isLt
  omega

/-- Bitboards are equal when they have the same points. -/
theorem eq_of_testBit_fin {a b : Nat} (ha : a < 2 ^ 24) (hb : b < 2 ^ 24)
    (h : ∀ i : Fin 24, a.testBit i.val = b.testBit i.val) : a = b := by
  apply Nat.eq_of_testBit_eq
  intro i
  by_cases hi : i < 24
  · exact h ⟨i, hi⟩
  · have hpow : 2 ^ 24 ≤ 2 ^ i := Nat.pow_le_pow_right (by decide) (by omega)
    rw [Nat.testBit_lt_two_pow (by omega), Nat.testBit_lt_two_pow (by omega)]

/-- ... or when they have the same images. -/
theorem eq_of_testBit_image (op : SymmetryOp) {a b : Nat} (ha : a < 2 ^ 24) (hb : b < 2 ^ 24)
    (h : ∀ i, a.testBit (transformIndex op i).val = b.testBit (transformIndex op i).val) :
    a = b := by
  refine eq_of_testBit_fin ha hb fun j => ?_
  have hj := h ((indexPerm op).symm j)
  rwa [← indexPerm_apply, Equiv.apply_symm_apply] at hj

theorem transform24_inverse (op : SymmetryOp) {bits : Nat} (hbits : bits < 2 ^ 24) :
    transform24 (inverseOp op) (transform24 op bits) = bits := by
  refine eq_of_testBit_fin (transform24_lt _ _) hbits fun i => ?_
  have h := testBit_transform24 (inverseOp op) (transform24 op bits) (transformIndex op i)
  rwa [transformIndex_inverse, testBit_transform24] at h

theorem transform24_identity {bits : Nat} (hbits : bits < 2 ^ 24) :
    transform24 identityOp bits = bits := by
  refine eq_of_testBit_fin (transform24_lt _ _) hbits fun i => ?_
  have h := testBit_transform24 identityOp bits i
  rwa [transformIndex_identity] at h

theorem transform24_composite {a b c : SymmetryOp}
    (hc : ∀ i, transformIndex c i = transformIndex a (transformIndex b i)) (bits : Nat) :
    transform24 a (transform24 b bits) = transform24 c bits := by
  refine eq_of_testBit_image c (transform24_lt _ _) (transform24_lt _ _) fun i => ?_
  rw [testBit_transform24, hc, testBit_transform24, testBit_transform24]

theorem transform24_disjoint (op : SymmetryOp) {a b : Nat} (h : a &&& b = 0) :
    transform24 op a &&& transform24 op b = 0 := by
  have hlt : transform24 op a &&& transform24 op b < 2 ^ 24 :=
    Nat.and_lt_two_pow _ (transform24_lt op b)
  refine eq_of_testBit_image op hlt (Nat.two_pow_pos 24) fun i => ?_
  rw [Nat.testBit_and, testBit_transform24, testBit_transform24, ← Nat.testBit_and, h,
    Nat.zero_testBit, Nat.zero_testBit]

/-! ## The points of a bitboard -/

def points (bits : Nat) : Finset (Fin 24) := Finset.univ.filter fun i => bits.testBit i.val = true

@[simp] theorem mem_points (bits : Nat) (i : Fin 24) :
    i ∈ points bits ↔ bits.testBit i.val = true := by
  simp [points]

theorem points_injective {a b : Nat} (ha : a < 2 ^ 24) (hb : b < 2 ^ 24)
    (h : points a = points b) : a = b := by
  refine eq_of_testBit_fin ha hb fun i => ?_
  rw [Bool.eq_iff_iff, ← mem_points, ← mem_points, h]

theorem points_transform24 (op : SymmetryOp) (bits : Nat) :
    points (transform24 op bits) = (points bits).map (indexPerm op).toEmbedding := by
  ext j
  rw [mem_points, testBit_transform24_iff, Finset.mem_map]
  constructor
  · rintro ⟨i, hi, hij⟩
    exact ⟨i, (mem_points _ _).2 hi, Fin.ext hij⟩
  · rintro ⟨i, hi, hij⟩
    exact ⟨i, (mem_points _ _).1 hi, by rw [← hij]; rfl⟩

theorem countOnes_eq_popcount {bits : Nat} (hbits : bits < 2 ^ 32) :
    countOnes bits = Gosper.popcount bits := by
  rw [countOnes, Gosper.popcount]
  apply List.Perm.length_eq
  rw [List.perm_ext_iff_of_nodup (List.nodup_range.filter _) Nat.bitIndices_nodup]
  intro i
  rw [List.mem_filter, List.mem_range, Nat.mem_bitIndices]
  constructor
  · rintro ⟨_, h⟩
    exact h
  · intro h
    refine ⟨?_, h⟩
    by_contra hi
    have hpow : 2 ^ 32 ≤ 2 ^ i := Nat.pow_le_pow_right (by decide) (by omega)
    rw [Nat.testBit_lt_two_pow (by omega)] at h
    exact Bool.false_ne_true h

theorem countOnes_eq_card {bits : Nat} (hbits : bits < 2 ^ 24) :
    countOnes bits = (points bits).card := by
  rw [countOnes, ← List.toFinset_card_of_nodup (List.nodup_range.filter _)]
  symm
  refine Finset.card_bij (fun i _ => i.val) ?_ ?_ ?_
  · intro i hi
    rw [List.mem_toFinset, List.mem_filter, List.mem_range]
    exact ⟨by omega, (mem_points _ _).1 hi⟩
  · intro i _ j _ hij
    exact Fin.ext hij
  · intro i hi
    rw [List.mem_toFinset, List.mem_filter] at hi
    have hlt : i < 24 := by
      by_contra hge
      have hpow : 2 ^ 24 ≤ 2 ^ i := Nat.pow_le_pow_right (by decide) (by omega)
      rw [Nat.testBit_lt_two_pow (by omega)] at hi
      exact Bool.false_ne_true hi.2
    exact ⟨⟨i, hlt⟩, (mem_points _ _).2 hi.2, rfl⟩

theorem countOnes_transform24 (op : SymmetryOp) {bits : Nat} (hbits : bits < 2 ^ 24) :
    countOnes (transform24 op bits) = countOnes bits := by
  rw [countOnes_eq_card (transform24_lt _ _), countOnes_eq_card hbits, points_transform24,
    Finset.card_map]

/-! ## Both colours -/

/-- The white half of a board. -/
def whiteHalf (board : Nat) : Nat := board &&& mask24

/-- The black half of a board. -/
def blackHalf (board : Nat) : Nat := (board >>> 24) &&& mask24

theorem whiteHalf_eq_mod (board : Nat) : whiteHalf board = board % 2 ^ 24 :=
  Nat.and_two_pow_sub_one_eq_mod board 24

theorem blackHalf_eq_mod (board : Nat) : blackHalf board = board / 2 ^ 24 % 2 ^ 24 := by
  rw [← Nat.shiftRight_eq_div_pow]
  exact Nat.and_two_pow_sub_one_eq_mod (board >>> 24) 24

theorem whiteHalf_lt (board : Nat) : whiteHalf board < 2 ^ 24 := by
  rw [whiteHalf_eq_mod]
  exact Nat.mod_lt _ (Nat.two_pow_pos 24)

theorem blackHalf_lt (board : Nat) : blackHalf board < 2 ^ 24 := by
  rw [blackHalf_eq_mod]
  exact Nat.mod_lt _ (Nat.two_pow_pos 24)

/-- `white | (black << 24)` is a sum: the halves do not meet. -/
theorem or_shift_eq_add {white : Nat} (hwhite : white < 2 ^ 24) (black : Nat) :
    white ||| (black <<< 24) = 2 ^ 24 * black + white := by
  rw [Nat.or_comm, Nat.shiftLeft_eq, Nat.mul_comm black, Nat.two_pow_add_eq_or_of_lt hwhite]

theorem whiteHalf_or_shift {white : Nat} (hwhite : white < 2 ^ 24) (black : Nat) :
    whiteHalf (white ||| (black <<< 24)) = white := by
  rw [or_shift_eq_add hwhite, whiteHalf_eq_mod]
  omega

theorem blackHalf_or_shift {white black : Nat} (hwhite : white < 2 ^ 24)
    (hblack : black < 2 ^ 24) : blackHalf (white ||| (black <<< 24)) = black := by
  rw [or_shift_eq_add hwhite, blackHalf_eq_mod]
  omega

theorem or_shift_lt {white black : Nat} (hwhite : white < 2 ^ 24) (hblack : black < 2 ^ 24) :
    white ||| (black <<< 24) < 2 ^ 48 := by
  rw [or_shift_eq_add hwhite]
  omega

theorem board_ext {a b : Nat} (ha : a < 2 ^ 48) (hb : b < 2 ^ 48)
    (hwhite : whiteHalf a = whiteHalf b) (hblack : blackHalf a = blackHalf b) : a = b := by
  rw [whiteHalf_eq_mod, whiteHalf_eq_mod] at hwhite
  rw [blackHalf_eq_mod, blackHalf_eq_mod] at hblack
  omega

@[simp] theorem whiteHalf_transform48 (op : SymmetryOp) (board : Nat) :
    whiteHalf (transform48 op board) = transform24 op (whiteHalf board) :=
  whiteHalf_or_shift (transform24_lt _ _) _

@[simp] theorem blackHalf_transform48 (op : SymmetryOp) (board : Nat) :
    blackHalf (transform48 op board) = transform24 op (blackHalf board) :=
  blackHalf_or_shift (transform24_lt _ _) (transform24_lt _ _)

theorem transform48_lt (op : SymmetryOp) (board : Nat) : transform48 op board < 2 ^ 48 :=
  or_shift_lt (transform24_lt _ _) (transform24_lt _ _)

theorem transform48_inverse (op : SymmetryOp) {board : Nat} (hboard : board < 2 ^ 48) :
    transform48 (inverseOp op) (transform48 op board) = board := by
  refine board_ext (transform48_lt _ _) hboard ?_ ?_
  · simp [transform24_inverse op (whiteHalf_lt board)]
  · simp [transform24_inverse op (blackHalf_lt board)]

theorem transform48_composite {a b c : SymmetryOp}
    (hc : ∀ i, transformIndex c i = transformIndex a (transformIndex b i)) (board : Nat) :
    transform48 a (transform48 b board) = transform48 c board := by
  refine board_ext (transform48_lt _ _) (transform48_lt _ _) ?_ ?_
  · simp [transform24_composite hc]
  · simp [transform24_composite hc]

end Sanmill.PerfectDb
