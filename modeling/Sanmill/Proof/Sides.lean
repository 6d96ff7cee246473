import Mathlib.Data.Fintype.Basic
import Mathlib.Data.Fin.Basic
import Sanmill.Mill.State

/-!
# Sides and nodes as integers

The source carries sides and nodes as `i8` and turns them into indices where it
needs one. These lemmas evaluate the conversions, so a proof may name the active
side once and for all.
-/

namespace Sanmill

open Bits

namespace Side

@[simp] theorem opponent_opponent (c : Side) : c.opponent.opponent = c := by
  revert c; decide

@[simp] theorem opponent_ne (c : Side) : c.opponent ≠ c := by
  revert c; decide

@[simp] theorem ne_opponent (c : Side) : c ≠ c.opponent := by
  revert c; decide

theorem eq_or_eq_opponent (c x : Side) : x = c ∨ x = c.opponent := by
  revert c x; decide

/-- A statement about both sides, by the active one and its opponent. -/
theorem forall_iff (c : Side) (P : Side → Prop) : (∀ x, P x) ↔ P c ∧ P c.opponent := by
  constructor
  · exact fun h => ⟨h c, h c.opponent⟩
  · rintro ⟨h1, h2⟩ x
    rcases eq_or_eq_opponent c x with rfl | rfl
    · exact h1
    · exact h2

@[simp] theorem sideIndex_toI8 (c : Side) : sideIndex c.toI8 = c := by
  revert c; decide

@[simp] theorem xorOne_toI8 (c : Side) : xorOne c.toI8 = c.opponent.toI8 := by
  revert c; decide

@[simp] theorem colorIndexForPiece_toI8 (c : Side) : colorIndexForPiece (c.toI8 + 1) = some c := by
  revert c; decide

theorem toI8_nonneg (c : Side) : 0 ≤ c.toI8 := by
  revert c; decide

theorem toI8_le_one (c : Side) : c.toI8 ≤ 1 := by
  revert c; decide

@[simp] theorem toI8_lt_two (c : Side) : c.toI8 < 2 := by
  revert c; decide

/-- The range test the source makes on the side to move. -/
@[simp] theorem toI8_inRange (c : Side) : (0 ≤ c.toI8 ∧ c.toI8 ≤ 1) = True :=
  eq_true ⟨toI8_nonneg c, toI8_le_one c⟩

@[simp] theorem toI8_inRange_lt (c : Side) : (0 ≤ c.toI8 ∧ c.toI8 < 2) = True :=
  eq_true ⟨toI8_nonneg c, toI8_lt_two c⟩

@[simp] theorem not_toI8_neg (c : Side) : ¬c.toI8 < 0 := by
  have := toI8_nonneg c
  omega

/-- The two numbers that stand for a side. -/
theorem exists_toI8 {side : Int} (h : side = 0 ∨ side = 1) : ∃ c : Side, side = c.toI8 := by
  rcases h with hzero | hone
  · exact ⟨0, hzero⟩
  · exact ⟨1, hone⟩

theorem toI8_injective {c d : Side} (h : c.toI8 = d.toI8) : c = d := by
  revert c d; decide

@[simp] theorem toI8_inj (c d : Side) : c.toI8 = d.toI8 ↔ c = d :=
  ⟨toI8_injective, fun h => h ▸ rfl⟩

@[simp] theorem piece_ne_zero (c : Side) : c.toI8 + 1 ≠ 0 := by
  have := toI8_nonneg c
  omega

end Side

/-! ## Array writes -/

theorem setAt_self {α : Type} {n : Nat} (array : Fin n → α) (index : Fin n) (value : α) :
    setAt array index value index = value :=
  Function.update_self index value array

theorem setAt_of_ne {α : Type} {n : Nat} {index i : Fin n} (h : i ≠ index) (array : Fin n → α)
    (value : α) : setAt array index value i = array i :=
  Function.update_of_ne h value array

theorem colorIndexForPiece_eq_some_iff (piece : Int) (c : Side) :
    colorIndexForPiece piece = some c ↔ piece = c.toI8 + 1 := by
  constructor
  · intro h
    unfold colorIndexForPiece at h
    split at h
    · rename_i hp
      rw [← Option.some.inj h, hp]
      rfl
    · split at h
      · rename_i hp
        rw [← Option.some.inj h, hp]
        rfl
      · exact absurd h (by simp)
  · rintro rfl
    exact Side.colorIndexForPiece_toI8 c

@[simp] theorem colorIndexForPiece_zero : colorIndexForPiece 0 = none := rfl

/-! ## Nodes -/

@[simp] theorem boardNode?_toI8 (n : Node) : boardNode? n.toI8 = some n := by
  unfold boardNode? Node.toI8
  have := n.isLt
  rw [dif_pos ⟨by omega, by omega⟩]
  congr 1

theorem boardNode?_eq_some_iff (value : Int) (n : Node) :
    boardNode? value = some n ↔ value = n.toI8 := by
  constructor
  · intro h
    unfold boardNode? at h
    split at h
    · rename_i hv
      rw [← Option.some.inj h]
      unfold Node.toI8
      simp only
      omega
    · exact absurd h (by simp)
  · rintro rfl
    exact boardNode?_toI8 n

@[simp] theorem Node.toI8_inj (m n : Node) : m.toI8 = n.toI8 ↔ m = n := by
  unfold Node.toI8
  rw [Fin.ext_iff]
  omega

theorem Node.toI8_bounds (n : Node) : 0 ≤ n.toI8 ∧ n.toI8 < 24 := by
  unfold Node.toI8
  omega

@[simp] theorem Node.toI8_ne_neg_one (n : Node) : n.toI8 ≠ -1 := by
  have h := n.toI8_bounds
  intro e
  omega

@[simp] theorem testBit_nodeBit (m n : Node) : testBit (nodeBit m) n = decide (m = n) := by
  unfold nodeBit
  rw [testBit_bit]
  have := n.isLt
  simp only [decide_eq_decide, Fin.ext_iff]
  omega

/-- Which bit of a node's mask is set. -/
theorem eq_of_testBit_nodeBit {m : Node} {i : Nat} (h : testBit (nodeBit m) i = true) : i = m := by
  unfold nodeBit at h
  rw [testBit_bit] at h
  simp only [decide_eq_true_eq] at h
  exact h.1.symm

theorem nodeBit_below {m : Node} {i : Nat} (h : testBit (nodeBit m) i = true) : i < 24 := by
  rw [eq_of_testBit_nodeBit h]
  exact m.isLt

/-- Clearing a bit that is not set changes nothing. -/
theorem and_not_nodeBit_of_not {mask : Bitboard} {m : Node} (h : testBit mask m = false) :
    mask &&& ~~~nodeBit m = mask := by
  refine testBit_ext fun i _ => ?_
  rw [testBit_and_not]
  cases hi : testBit (nodeBit m) i
  · simp
  · rw [eq_of_testBit_nodeBit hi, h]
    rfl

/-- Setting a bit that was cleared gives the mask back. -/
theorem and_not_or_nodeBit {mask : Bitboard} {m : Node} (h : testBit mask m = true) :
    (mask &&& ~~~nodeBit m) ||| nodeBit m = mask := by
  refine testBit_ext fun i _ => ?_
  rw [testBit_or, testBit_and_not]
  cases hi : testBit (nodeBit m) i
  · simp
  · rw [eq_of_testBit_nodeBit hi, h]
    rfl

@[simp] theorem mem_maskNodes (mask : Bitboard) (n : Node) :
    n ∈ maskNodes mask ↔ testBit mask n = true := by
  simp [maskNodes, List.mem_finRange]

/-- Two masks below bit 24 are equal when they agree on the nodes. -/
theorem mask_ext {a b : Bitboard} (ha : ∀ i, testBit a i = true → i < 24)
    (hb : ∀ i, testBit b i = true → i < 24) (h : ∀ n : Node, testBit a n = testBit b n) :
    a = b := by
  refine testBit_ext fun i _ => ?_
  by_cases hi : i < 24
  · exact h ⟨i, hi⟩
  · have hfa : testBit a i = false := by
      rw [Bool.eq_false_iff]
      exact fun e => hi (ha i e)
    have hfb : testBit b i = false := by
      rw [Bool.eq_false_iff]
      exact fun e => hi (hb i e)
    rw [hfa, hfb]

end Sanmill
