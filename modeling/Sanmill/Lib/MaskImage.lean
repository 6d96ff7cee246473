import Mathlib.Logic.Equiv.Fin.Basic
import Sanmill.Lib.Bits

/-!
# Images of masks

A permutation of the bit positions carries a mask to another one. `MaskImage σ a b`
says that `b` is the image of `a`; it is kept by the bitwise operations and it
preserves and reflects every question a program asks of masks: whether a bit is set,
whether a mask is zero or covers another one, how many bits are set.
-/

namespace Sanmill.Bits

variable {w : Nat}

/-- `b` is the image of `a`. -/
def MaskImage (σ : Equiv.Perm (Fin w)) (a b : BitVec w) : Prop :=
  ∀ i : Fin w, testBit b (σ i).val = testBit a i.val

namespace MaskImage

variable {σ : Equiv.Perm (Fin w)} {a a' b b' : BitVec w}

theorem zero (σ : Equiv.Perm (Fin w)) : MaskImage σ 0#w 0#w := fun i => by
  rw [testBit_zero, testBit_zero]

theorem and (h : MaskImage σ a b) (h' : MaskImage σ a' b') : MaskImage σ (a &&& a') (b &&& b') :=
  fun i => by rw [testBit_and, testBit_and, h i, h' i]

theorem or (h : MaskImage σ a b) (h' : MaskImage σ a' b') : MaskImage σ (a ||| a') (b ||| b') :=
  fun i => by rw [testBit_or, testBit_or, h i, h' i]

theorem not (h : MaskImage σ a b) : MaskImage σ (~~~a) (~~~b) := fun i => by
  rw [testBit_not b (σ i).isLt, testBit_not a i.isLt, h i]

theorem andNot (h : MaskImage σ a b) (h' : MaskImage σ a' b') :
    MaskImage σ (a &&& ~~~a') (b &&& ~~~b') := h.and h'.not

/-- The image is determined by the mask, and the mask by the image. -/
theorem eq_iff (h : MaskImage σ a b) (h' : MaskImage σ a' b') : a = a' ↔ b = b' := by
  constructor
  · rintro rfl
    refine testBit_ext fun i hi => ?_
    have hsurj := h (σ.symm ⟨i, hi⟩)
    have hsurj' := h' (σ.symm ⟨i, hi⟩)
    rw [Equiv.apply_symm_apply] at hsurj hsurj'
    rw [hsurj, hsurj']
  · rintro rfl
    refine testBit_ext fun i hi => ?_
    rw [← h ⟨i, hi⟩, ← h' ⟨i, hi⟩]

theorem unique (h : MaskImage σ a b) (h' : MaskImage σ a b') : b = b' := (h.eq_iff h').1 rfl

theorem eq_zero_iff (h : MaskImage σ a b) : a = 0#w ↔ b = 0#w := h.eq_iff (zero σ)

/-- Covering is kept. -/
theorem covers_iff (h : MaskImage σ a b) (h' : MaskImage σ a' b') :
    a &&& a' = a' ↔ b &&& b' = b' := (h.and h').eq_iff h'

theorem countOnes_eq (h : MaskImage σ a b) : countOnes b = countOnes a := by
  have hbelow : ∀ (m : BitVec w), ∀ i, testBit m i = true → i < w := fun _ _ => testBit_lt
  rw [countOnes_eq_card_fin b w (hbelow b), countOnes_eq_card_fin a w (hbelow a)]
  symm
  refine Finset.card_bij (fun i _ => σ i) (fun i hi => ?_) (fun i _ j _ hij => σ.injective hij)
    (fun j hj => ?_)
  · have := (Finset.mem_filter.1 hi).2
    exact Finset.mem_filter.2 ⟨Finset.mem_univ _, (h i).trans this⟩
  · have := (Finset.mem_filter.1 hj).2
    refine ⟨σ.symm j, Finset.mem_filter.2 ⟨Finset.mem_univ _, ?_⟩, σ.apply_symm_apply j⟩
    rw [← h (σ.symm j), Equiv.apply_symm_apply]
    exact this

end MaskImage

/-! ## Unions -/

/-- The union of a list of masks. -/
def union (masks : List (BitVec w)) : BitVec w := masks.foldl (· ||| ·) 0#w

theorem testBit_union (masks : List (BitVec w)) (i : Nat) :
    testBit (union masks) i = true ↔ ∃ m ∈ masks, testBit m i = true := by
  have hfold : ∀ (masks : List (BitVec w)) (acc : BitVec w),
      testBit (masks.foldl (· ||| ·) acc) i = true
        ↔ testBit acc i = true ∨ ∃ m ∈ masks, testBit m i = true := by
    intro masks
    induction masks with
    | nil => simp
    | cons m masks ih =>
      intro acc
      rw [List.foldl_cons, ih, testBit_or, Bool.or_eq_true, or_assoc]
      simp
  rw [union, hfold, testBit_zero]
  simp

/-- Lists whose members are each other's images have a union each, and one is the other's image. -/
theorem MaskImage.union {σ : Equiv.Perm (Fin w)} {l l' : List (BitVec w)}
    (h : ∀ m ∈ l, ∃ m' ∈ l', MaskImage σ m m') (h' : ∀ m' ∈ l', ∃ m ∈ l, MaskImage σ m m') :
    MaskImage σ (Bits.union l) (Bits.union l') := by
  intro i
  rw [Bool.eq_iff_iff, testBit_union, testBit_union]
  constructor
  · rintro ⟨m', hm', hbit⟩
    obtain ⟨m, hm, himage⟩ := h' m' hm'
    exact ⟨m, hm, by rw [← himage i, hbit]⟩
  · rintro ⟨m, hm, hbit⟩
    obtain ⟨m', hm', himage⟩ := h m hm
    exact ⟨m', hm', by rw [himage i, hbit]⟩

/-! ## Permutations of the low bits -/

/-- The permutation of `n + k` positions that leaves the last `k` where they are. -/
def widen {n : Nat} (k : Nat) (σ : Equiv.Perm (Fin n)) : Equiv.Perm (Fin (n + k)) :=
  finSumFinEquiv.permCongr (Equiv.sumCongr σ (Equiv.refl (Fin k)))

variable {n k : Nat} (σ : Equiv.Perm (Fin n))

theorem widen_low (i : Fin n) : widen k σ (Fin.castAdd k i) = Fin.castAdd k (σ i) := by
  simp [widen, Equiv.permCongr_apply]

theorem widen_high (j : Fin k) : widen k σ (Fin.natAdd n j) = Fin.natAdd n j := by
  simp [widen, Equiv.permCongr_apply]

/-- Masks of the low bits are images when their low bits are. -/
theorem maskImage_widen {σ : Equiv.Perm (Fin n)} {a b : BitVec (n + k)}
    (hlow : ∀ i : Fin n, testBit b (σ i).val = testBit a i.val)
    (ha : ∀ i, testBit a i = true → i < n) (hb : ∀ i, testBit b i = true → i < n) :
    MaskImage (widen k σ) a b := by
  have hnone : ∀ {m : BitVec (n + k)}, (∀ i, testBit m i = true → i < n) →
      ∀ j : Fin k, testBit m (n + j.val) = false := by
    intro m hm j
    rw [Bool.eq_false_iff]
    intro hj
    have := hm _ hj
    omega
  intro i
  refine Fin.addCases (fun j => ?_) (fun j => ?_) i
  · rw [widen_low]
    exact hlow j
  · rw [widen_high]
    exact (hnone hb j).trans (hnone ha j).symm

end Sanmill.Bits
