import Mathlib.Data.Finset.Powerset
import Mathlib.Combinatorics.Colex
import Mathlib.Data.Nat.Choose.Basic
import Sanmill.Proof.PerfectDb.Symmetry

/-!
# Enumerating and ranking bitboards of one count

`combination_masks` lists every bitboard of a count once, ascending; there are
`binom` many, and the rank table is the inverse of the list. `collapse` sends the
black bitboards that avoid the white one injectively into the compact universe.
-/

namespace Sanmill.PerfectDb

open Gosper (popcount)

/-! ## `next_choose` -/

theorem nextChoose_form {s t h : Nat} (ht : 1 ≤ t) (hx : Gosper.form s t h < 2 ^ 31)
    (hne : Gosper.form s t h ≠ 0) : nextChoose (Gosper.form s t h) = Gosper.succForm s t h := by
  have hneg : (2 ^ 32 - Gosper.form s t h) % 2 ^ 32 = 2 ^ 32 - Gosper.form s t h :=
    Nat.mod_eq_of_lt (by omega)
  have hlow : Gosper.form s t h &&& (2 ^ 32 - Gosper.form s t h) = 2 ^ s :=
    Gosper.and_neg_form ht (by omega)
  have hle : 2 ^ s ≤ Gosper.form s t h := by
    rw [← hlow]
    exact Nat.and_le_left
  have hsum : (Gosper.form s t h + 2 ^ s) % 2 ^ 32 = Gosper.form s t h + 2 ^ s :=
    Nat.mod_eq_of_lt (by omega)
  simp only [nextChoose, if_neg hne, hneg, hlow, hsum]
  exact Gosper.word_succ_form ht

theorem nextChoose_stepsThrough {universeSize : Nat} (huniverse : universeSize ≤ 24)
    (count : Nat) :
    Gosper.StepsThrough nextChoose (2 ^ universeSize) (fun x => popcount x = count) := by
  have hlimit : 2 ^ universeSize ≤ 2 ^ 24 := Nat.pow_le_pow_right (by decide) huniverse
  have hzero : nextChoose 0 = 2 ^ 24 := by decide
  refine ⟨?_, ?_, ?_⟩
  · intro x _ hlt
    by_cases hx : x = 0
    · subst hx
      rw [hzero]
      exact Nat.two_pow_pos 24
    · obtain ⟨s, t, h, ht, rfl⟩ := Gosper.exists_form hx
      rw [nextChoose_form ht (by omega) hx]
      exact Gosper.form_lt_succForm s t h
  · intro x hcount hlt hnext
    by_cases hx : x = 0
    · subst hx
      rw [hzero] at hnext
      omega
    · obtain ⟨s, t, h, ht, rfl⟩ := Gosper.exists_form hx
      rw [nextChoose_form ht (by omega) hx, Gosper.popcount_succForm s h ht, ← hcount,
        Gosper.popcount_form]
  · intro x z hcount hxz hz hzlt
    by_cases hx : x = 0
    · -- a count of zero ones has no second member
      subst hx
      exfalso
      have hpow := Gosper.add_two_pow_sub_popcount_le universeSize z hzlt
      rw [hz, ← hcount, Gosper.popcount_zero, Nat.sub_zero] at hpow
      omega
    · obtain ⟨s, t, h, ht, rfl⟩ := Gosper.exists_form hx
      rw [nextChoose_form ht (by omega) hx]
      refine Gosper.succForm_le ht hxz ?_
      rw [hz, ← hcount, Gosper.popcount_form]

theorem combinationMasksFrom_eq (limit : Nat) : ∀ fuel mask,
    combinationMasksFrom limit fuel mask = Gosper.iterateBelow nextChoose limit fuel mask := by
  intro fuel
  induction fuel with
  | zero =>
    intro mask
    rfl
  | succ fuel ih =>
    intro mask
    rw [combinationMasksFrom, Gosper.iterateBelow, ih]

theorem combinationMasks_eq (universeSize count : Nat) :
    combinationMasks universeSize count =
      Gosper.iterateBelow nextChoose (2 ^ universeSize) (2 ^ universeSize) (2 ^ count - 1) := by
  rw [combinationMasks, combinationMasksFrom_eq, Nat.one_shiftLeft, Nat.one_shiftLeft]
  by_cases h : count = 0
  · subst h
    rfl
  · rw [if_neg h]

section Masks

variable {universeSize : Nat} (huniverse : universeSize ≤ 24) (count : Nat)
include huniverse

theorem mem_combinationMasks (mask : Nat) :
    mask ∈ combinationMasks universeSize count
      ↔ popcount mask = count ∧ mask < 2 ^ universeSize := by
  rw [combinationMasks_eq, (nextChoose_stepsThrough huniverse count).mem_iterateBelow _ _
    (fun _ => Gosper.popcount_two_pow_sub_one count) (by omega)]
  constructor
  · rintro ⟨hcount, _, hlt⟩
    exact ⟨hcount, hlt⟩
  · rintro ⟨hcount, hlt⟩
    have hle := Gosper.two_pow_popcount_le mask
    rw [hcount] at hle
    exact ⟨hcount, by omega, hlt⟩

theorem nodup_combinationMasks : (combinationMasks universeSize count).Nodup := by
  rw [combinationMasks_eq]
  refine List.Pairwise.imp (fun hlt => Nat.ne_of_lt hlt) ?_
  exact (nextChoose_stepsThrough huniverse count).pairwise_iterateBelow _ _
    (fun _ => Gosper.popcount_two_pow_sub_one count) (by omega)

/-- A mask is the set of its ones: there are as many as subsets of that size. -/
theorem length_combinationMasks :
    (combinationMasks universeSize count).length = universeSize.choose count := by
  rw [← List.toFinset_card_of_nodup (nodup_combinationMasks huniverse count),
    ← Finset.card_range universeSize, ← Finset.card_powersetCard, Finset.card_range]
  -- a mask is the set of its bits
  refine Finset.card_bij (fun mask _ => Finset.equivBitIndices mask) ?_ ?_ ?_
  · intro mask hmask
    rw [List.mem_toFinset, mem_combinationMasks huniverse] at hmask
    rw [Finset.mem_powersetCard]
    refine ⟨?_, ?_⟩
    · intro i hi
      rw [Finset.equivBitIndices_apply, List.mem_toFinset] at hi
      have hle := Nat.two_pow_le_of_mem_bitIndices hi
      rw [Finset.mem_range]
      exact (Nat.pow_lt_pow_iff_right (a := 2) (by decide)).1 (by omega)
    · rw [Finset.equivBitIndices_apply, List.toFinset_card_of_nodup Nat.bitIndices_nodup]
      exact hmask.1
  · intro a _ b _ hab
    exact Finset.equivBitIndices.injective hab
  · intro set hset
    rw [Finset.mem_powersetCard] at hset
    have hround := Finset.equivBitIndices.apply_symm_apply set
    refine ⟨Finset.equivBitIndices.symm set, ?_, hround⟩
    rw [List.mem_toFinset, mem_combinationMasks huniverse]
    rw [Finset.equivBitIndices_apply] at hround
    refine ⟨?_, ?_⟩
    · rw [popcount, ← List.toFinset_card_of_nodup Nat.bitIndices_nodup, hround]
      exact hset.2
    · apply Nat.lt_pow_two_of_testBit
      intro i hi
      rw [← Bool.not_eq_true, ← Nat.mem_bitIndices, ← List.mem_toFinset, hround]
      intro hmem
      have hlt := Finset.mem_range.1 (hset.1 hmem)
      omega

end Masks

/-! ## `binom` -/

theorem binom_foldl (n k : Nat) (hk : k ≤ n) :
    (List.range k).foldl (fun result i => result * (n - i) / (i + 1)) 1 = n.choose k := by
  induction k with
  | zero => simp
  | succ k ih =>
    rw [List.range_succ, List.foldl_append, ih (by omega), List.foldl_cons, List.foldl_nil,
      ← Nat.choose_succ_right_eq, Nat.mul_div_cancel _ (Nat.succ_pos k)]

theorem binom_eq_choose {n k : Nat} (hk : k ≤ n) : binom n k = n.choose k := by
  rw [binom, binom_foldl _ _ (by omega)]
  rcases Nat.le_total k (n - k) with h | h
  · rw [Nat.min_eq_left h]
  · rw [Nat.min_eq_right h, Nat.choose_symm hk]

/-! ## Ranks -/

theorem collectRanks_foldl (masks : List Nat) : ∀ (start : Nat) (map : BitboardMap Nat),
    masks.Nodup → ∀ key value,
      (masks.zipIdx start).foldl (fun map entry => map.insert entry.1 entry.2) map key =
          some value ↔
        (∃ i, masks[i]? = some key ∧ value = start + i) ∨ (key ∉ masks ∧ map key = some value) := by
  -- the first masks are in the table already, at the places before `start`
  induction masks with
  | nil => simp
  | cons mask masks ih =>
    intro start map hnodup key value
    rw [List.nodup_cons] at hnodup
    rw [List.zipIdx_cons, List.foldl_cons, ih _ _ hnodup.2]
    constructor
    · rintro (⟨i, hi, rfl⟩ | ⟨hkey, hmap⟩)
      · exact .inl ⟨i + 1, by simpa using hi, by omega⟩
      · rw [BitboardMap.insert] at hmap
        by_cases heq : key = mask
        · rw [if_pos heq] at hmap
          exact .inl ⟨0, by simp [heq], by simpa using hmap.symm⟩
        · rw [if_neg heq] at hmap
          exact .inr ⟨by simp [heq, hkey], hmap⟩
    · rintro (⟨i, hi, rfl⟩ | ⟨hkey, hmap⟩)
      · rcases i with _ | i
        · have heq : mask = key := by simpa using hi
          subst heq
          exact .inr ⟨hnodup.1, by simp [BitboardMap.insert]⟩
        · exact .inl ⟨i, by simpa using hi, by omega⟩
      · rw [List.mem_cons, not_or] at hkey
        refine .inr ⟨hkey.2, ?_⟩
        rw [BitboardMap.insert, if_neg hkey.1]
        exact hmap

/-- The rank of a mask is its place in the list. -/
theorem collectRanks_eq_some {masks : List Nat} (hnodup : masks.Nodup) (key value : Nat) :
    collectRanks masks key = some value ↔ masks[value]? = some key := by
  rw [collectRanks, collectRanks_foldl masks 0 _ hnodup]
  simp only [BitboardMap.empty, reduceCtorEq, and_false, or_false, Nat.zero_add]
  constructor
  · rintro ⟨i, hi, rfl⟩
    exact hi
  · intro h
    exact ⟨value, h, rfl⟩

/-! ## `collapse` -/

/-- The points below `n` that white leaves free. -/
def freeBelow (white n : Nat) : Nat := ((List.range n).filter fun i => !white.testBit i).length

theorem freeBelow_succ (white n : Nat) :
    freeBelow white (n + 1) = freeBelow white n + if white.testBit n then 0 else 1 := by
  rw [freeBelow, freeBelow, List.range_succ, List.filter_append, List.length_append]
  cases h : white.testBit n <;> simp [h]

theorem freeBelow_le (white n : Nat) : freeBelow white n ≤ n := by
  rw [freeBelow]
  exact (List.length_filter_le _ _).trans (by simp)

theorem freeBelow_mono (white : Nat) {m n : Nat} (h : m ≤ n) :
    freeBelow white m ≤ freeBelow white n := by
  induction n, h using Nat.le_induction with
  | base => exact Nat.le_refl _
  | succ n _ ih =>
    rw [freeBelow_succ]
    omega

/-- What the loop of `collapse` has done after the points below `n`. -/
structure Collapsed (white black n : Nat) (s : CollapseState) : Prop where
  compactBit : s.compactBit = 2 ^ freeBelow white n
  shifted : s.black = black >>> (n - freeBelow white n)
  lt : s.result < 2 ^ freeBelow white n
  /-- A free point's bit has moved down by the white points below it. -/
  bits : ∀ i < n, white.testBit i = false →
    s.result.testBit (freeBelow white i) = black.testBit i
  count : popcount s.result =
    ((List.range n).filter fun i => !white.testBit i && black.testBit i).length

theorem Collapsed.step {white black n : Nat} {s : CollapseState}
    (h : Collapsed white black n s) : Collapsed white black (n + 1) (collapseStep white s n) := by
  have hle := freeBelow_le white n
  rw [collapseStep]
  by_cases hwhite : white.testBit n = true
  · rw [if_neg fun h0 => by simp [(and_shift_eq_zero _ _).1 h0] at hwhite]
    have hfree : freeBelow white (n + 1) = freeBelow white n := by
      rw [freeBelow_succ, if_pos hwhite, Nat.add_zero]
    refine ⟨?_, ?_, ?_, ?_, ?_⟩
    · rw [hfree, h.compactBit]
    · have hindex : n + 1 - freeBelow white n = n - freeBelow white n + 1 := by omega
      show s.black >>> 1 = _
      rw [hfree, h.shifted, ← Nat.shiftRight_add, hindex]
    · rw [hfree]
      exact h.lt
    · intro i hi hi'
      rcases Nat.lt_or_eq_of_le (Nat.le_of_lt_succ hi) with hlt | heq
      · exact h.bits i hlt hi'
      · rw [heq, hwhite] at hi'
        cases hi'
    · rw [h.count, List.range_succ, List.filter_append]
      simp [hwhite]
  · rw [Bool.not_eq_true] at hwhite
    rw [if_pos ((and_shift_eq_zero _ _).2 hwhite)]
    have hfree : freeBelow white (n + 1) = freeBelow white n + 1 := by
      rw [freeBelow_succ, hwhite]
      rfl
    -- the bit at hand is the next black one
    have hbit : s.black &&& s.compactBit =
        2 ^ freeBelow white n * (black.testBit n).toNat := by
      have hindex : n - freeBelow white n + freeBelow white n = n := by omega
      rw [h.shifted, h.compactBit, Nat.and_two_pow, Nat.testBit_shiftRight, hindex, Nat.mul_comm]
    have hresult : s.result ||| (s.black &&& s.compactBit) =
        2 ^ freeBelow white n * (black.testBit n).toNat + s.result := by
      rw [hbit, Nat.or_comm, Nat.two_pow_add_eq_or_of_lt h.lt]
    have hpop : popcount (black.testBit n).toNat = (black.testBit n).toNat := by
      cases black.testBit n <;> simp [popcount]
    refine ⟨?_, ?_, ?_, ?_, ?_⟩
    · show s.compactBit <<< 1 = _
      rw [hfree, h.compactBit, Nat.shiftLeft_eq, Nat.pow_one, Nat.pow_succ]
    · show s.black = _
      rw [hfree, h.shifted]
      congr 1
      omega
    · show s.result ||| (s.black &&& s.compactBit) < _
      have hlt := h.lt
      rw [hresult, hfree, Nat.pow_succ]
      cases black.testBit n
      · simp only [Bool.toNat_false]
        omega
      · simp only [Bool.toNat_true]
        omega
    · intro i hi hi'
      show (s.result ||| (s.black &&& s.compactBit)).testBit _ = _
      rw [hresult, Nat.testBit_two_pow_mul_add _ h.lt]
      rcases Nat.lt_or_eq_of_le (Nat.le_of_lt_succ hi) with hlt | heq
      · have hmono := freeBelow_mono white (Nat.succ_le_of_lt hlt)
        rw [freeBelow_succ, hi'] at hmono
        have hless : freeBelow white i < freeBelow white n := by
          simp only [Bool.false_eq_true, if_false] at hmono
          omega
        rw [if_pos hless]
        exact h.bits i hlt hi'
      · subst heq
        rw [if_neg (Nat.lt_irrefl _), Nat.sub_self]
        cases black.testBit i <;> rfl
    · show popcount (s.result ||| (s.black &&& s.compactBit)) = _
      rw [hresult, Gosper.popcount_two_pow_mul_add _ _ _ h.lt, hpop, h.count, List.range_succ,
        List.filter_append, List.length_append, Nat.add_comm]
      cases hb : black.testBit n <;> simp [hwhite, hb]

theorem collapsed_foldl (white black : Nat) : ∀ n, Collapsed white black n
    ((List.range n).foldl (collapseStep white)
      { black := black, result := 0, compactBit := 1 }) := by
  intro n
  induction n with
  | zero =>
    refine ⟨rfl, rfl, by simp [freeBelow], ?_, by simp⟩
    intro i hi
    omega
  | succ n ih =>
    rw [List.range_succ, List.foldl_append, List.foldl_cons, List.foldl_nil]
    exact ih.step

theorem collapsed_collapse (board : Nat) :
    ∃ s, Collapsed (whiteHalf board) (blackHalf board) 24 s ∧ s.result = collapse board :=
  ⟨_, collapsed_foldl (whiteHalf board) (blackHalf board) 24, rfl⟩

/-- On boards of one white bitboard `collapse` loses nothing. -/
theorem collapse_injective {a b : Nat} (ha : a < 2 ^ 48) (hb : b < 2 ^ 48)
    (hwhite : whiteHalf a = whiteHalf b) (hda : whiteHalf a &&& blackHalf a = 0)
    (hdb : whiteHalf b &&& blackHalf b = 0) (h : collapse a = collapse b) : a = b := by
  obtain ⟨s, hs, hsa⟩ := collapsed_collapse a
  obtain ⟨s', hs', hsb⟩ := collapsed_collapse b
  refine board_ext ha hb hwhite ?_
  refine eq_of_testBit_fin (blackHalf_lt a) (blackHalf_lt b) fun i => ?_
  cases hi : (whiteHalf a).testBit i.val
  · rw [← hs.bits i.val i.isLt hi, ← hs'.bits i.val i.isLt (by rw [← hwhite, hi]), hsa, hsb, h,
      hwhite]
  · -- black avoids the white points
    have hbit : ∀ c, whiteHalf c = whiteHalf a → whiteHalf c &&& blackHalf c = 0 →
        (blackHalf c).testBit i.val = false := by
      intro c hc hd
      have hz : (whiteHalf c &&& blackHalf c).testBit i.val = false := by
        rw [hd, Nat.zero_testBit]
      rwa [Nat.testBit_and, hc, hi, Bool.true_and] at hz
    rw [hbit a rfl hda, hbit b hwhite.symm hdb]

theorem freeBelow_eq_sub (white : Nat) :
    freeBelow white 24 = 24 - ((List.range 24).filter white.testBit).length := by
  have hsplit := List.length_eq_length_filter_add (l := List.range 24) white.testBit
  rw [List.length_range] at hsplit
  rw [freeBelow]
  omega

/-- The ones of a bitboard, looked for below 24 only. -/
theorem length_filter_testBit {bits : Nat} (hbits : bits < 2 ^ 24) :
    ((List.range 24).filter bits.testBit).length = countOnes bits := by
  have hsplit : List.range 32 = List.range 24 ++ (List.range 8).map (· + 24) := by decide
  rw [countOnes, hsplit, List.filter_append, List.length_append]
  have hhigh : ((List.range 8).map (· + 24)).filter bits.testBit = [] := by
    rw [List.filter_eq_nil_iff]
    intro i hi
    rw [List.mem_map] at hi
    obtain ⟨j, _, rfl⟩ := hi
    have hpow : 2 ^ 24 ≤ 2 ^ (j + 24) := Nat.pow_le_pow_right (by decide) (by omega)
    rw [Nat.testBit_lt_two_pow (by omega)]
    exact Bool.false_ne_true
  rw [hhigh, List.length_nil, Nat.add_zero]

theorem collapse_lt (board : Nat) :
    collapse board < 2 ^ (24 - countOnes (whiteHalf board)) := by
  obtain ⟨s, hs, hsb⟩ := collapsed_collapse board
  have hlt := hs.lt
  rwa [hsb, freeBelow_eq_sub, length_filter_testBit (whiteHalf_lt board)] at hlt

theorem popcount_collapse {board : Nat} (hd : whiteHalf board &&& blackHalf board = 0) :
    popcount (collapse board) = countOnes (blackHalf board) := by
  obtain ⟨s, hs, hsb⟩ := collapsed_collapse board
  rw [← hsb, hs.count, ← length_filter_testBit (blackHalf_lt board)]
  congr 1
  apply List.filter_congr
  intro i _
  have hz : (whiteHalf board &&& blackHalf board).testBit i = false := by
    rw [hd, Nat.zero_testBit]
  rw [Nat.testBit_and] at hz
  cases hw : (whiteHalf board).testBit i
  · rfl
  · rw [hw, Bool.true_and] at hz
    rw [hz]
    rfl

end Sanmill.PerfectDb
