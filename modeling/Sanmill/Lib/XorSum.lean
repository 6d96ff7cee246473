import Sanmill.Lib.Numerals
import Mathlib.Data.List.Nodup

/-!
# XOR sums

A hash that is the XOR of one table entry per component can be updated by XORing
in the difference of the components that changed. `xorSum` is the XOR of a family
over a list; the lemmas below are what such an update needs: a sum of differences
is the difference of the sums, and terms that vanish may be dropped.
-/

namespace Sanmill

variable {α : Type} {w : Nat}

/-- The XOR of `f` over `l`, in the order of an accumulating loop. -/
def xorSum (l : List α) (f : α → BitVec w) : BitVec w := l.foldl (fun key a => key ^^^ f a) 0#w

theorem foldl_xor (l : List α) (f : α → BitVec w) (key : BitVec w) :
    l.foldl (fun key a => key ^^^ f a) key = key ^^^ xorSum l f := by
  unfold xorSum
  induction l generalizing key with
  | nil => simp
  | cons a l ih =>
    rw [List.foldl_cons, List.foldl_cons, ih, ih (0#w ^^^ f a), BitVec.zero_xor, BitVec.xor_assoc]

@[simp] theorem xorSum_nil (f : α → BitVec w) : xorSum [] f = 0#w := rfl

theorem xorSum_cons (a : α) (l : List α) (f : α → BitVec w) :
    xorSum (a :: l) f = f a ^^^ xorSum l f := by
  unfold xorSum
  rw [List.foldl_cons, foldl_xor, BitVec.zero_xor]
  rfl

theorem xorSum_congr {l : List α} {f g : α → BitVec w} (h : ∀ a ∈ l, f a = g a) :
    xorSum l f = xorSum l g := by
  induction l with
  | nil => rfl
  | cons a l ih =>
    rw [xorSum_cons, xorSum_cons, h a List.mem_cons_self,
      ih fun b hb => h b (List.mem_cons_of_mem a hb)]

/-- **The sum of differences is the difference of the sums.** -/
theorem xorSum_xor (l : List α) (f g : α → BitVec w) :
    xorSum l (fun a => f a ^^^ g a) = xorSum l f ^^^ xorSum l g := by
  induction l with
  | nil => simp
  | cons a l ih =>
    rw [xorSum_cons, xorSum_cons, xorSum_cons, ih, BitVec.xor_assoc, BitVec.xor_assoc,
      ← BitVec.xor_assoc (xorSum l f), BitVec.xor_comm (xorSum l f) (g a), BitVec.xor_assoc]

theorem xorSum_eq_zero {l : List α} {f : α → BitVec w} (h : ∀ a ∈ l, f a = 0#w) :
    xorSum l f = 0#w := by
  induction l with
  | nil => rfl
  | cons a l ih =>
    rw [xorSum_cons, h a List.mem_cons_self, ih fun b hb => h b (List.mem_cons_of_mem a hb),
      BitVec.xor_zero]

/-- Summing over a sublist is summing with the other terms zeroed. -/
theorem xorSum_filter (l : List α) (p : α → Bool) (f : α → BitVec w) :
    xorSum (l.filter p) f = xorSum l fun a => if p a then f a else 0#w := by
  induction l with
  | nil => rfl
  | cons a l ih =>
    rw [List.filter_cons, xorSum_cons]
    cases p a
    · simp [ih]
    · simp [xorSum_cons, ih]

/-- A sum whose terms vanish outside `p` may be taken over `p` alone. -/
theorem xorSum_filter_of_support (l : List α) (p : α → Bool) (f : α → BitVec w)
    (h : ∀ a ∈ l, p a = false → f a = 0#w) : xorSum (l.filter p) f = xorSum l f := by
  rw [xorSum_filter]
  refine xorSum_congr fun a ha => ?_
  cases hp : p a
  · rw [h a ha hp]
    rfl
  · rfl

variable [DecidableEq α]

/-- A sum whose terms vanish except at one index. -/
theorem xorSum_eq_single {l : List α} (hnd : l.Nodup) {a : α} (ha : a ∈ l) (f : α → BitVec w)
    (h : ∀ b ∈ l, b ≠ a → f b = 0#w) : xorSum l f = f a := by
  induction l with
  | nil => exact absurd ha List.not_mem_nil
  | cons b l ih =>
    rw [xorSum_cons]
    have hb := List.nodup_cons.1 hnd
    by_cases hab : a = b
    · subst hab
      have hrest : xorSum l f = 0#w :=
        xorSum_eq_zero fun c hc =>
          h c (List.mem_cons_of_mem a hc) fun e => hb.1 (e ▸ hc)
      rw [hrest, BitVec.xor_zero]
    · have hmem : a ∈ l := (List.mem_cons.1 ha).resolve_left hab
      rw [h b List.mem_cons_self (Ne.symm hab), BitVec.zero_xor]
      exact ih hb.2 hmem fun c hc => h c (List.mem_cons_of_mem b hc)

/-- A sum whose terms vanish except at two indices. -/
theorem xorSum_eq_pair {l : List α} (hnd : l.Nodup) {a b : α} (ha : a ∈ l) (hb : b ∈ l)
    (hab : a ≠ b) (f : α → BitVec w) (h : ∀ c ∈ l, c ≠ a → c ≠ b → f c = 0#w) :
    xorSum l f = f a ^^^ f b := by
  have hsplit : xorSum l f = xorSum l (fun c =>
      (if c = a then f c else 0#w) ^^^ (if c = b then f c else 0#w)) := by
    refine xorSum_congr fun c hc => ?_
    by_cases hca : c = a
    · subst hca
      simp [hab]
    · by_cases hcb : c = b
      · simp [hcb, Ne.symm hab]
      · simp [hca, hcb, h c hc hca hcb]
  rw [hsplit, xorSum_xor,
    xorSum_eq_single hnd ha _ fun c _ hc => by simp [hc],
    xorSum_eq_single hnd hb _ fun c _ hc => by simp [hc]]
  simp

end Sanmill
