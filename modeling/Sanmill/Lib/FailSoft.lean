import Mathlib.Order.Lattice
import Mathlib.Order.Defs.LinearOrder
import Mathlib.Algebra.Order.Group.Int

/-!
# Fail-soft bounds

A search with window `(alpha, beta)` reports a value `v` for a position worth
`m`. `FailSoft alpha beta v m` says what the report is good for: at or below
`alpha` it is an upper bound, at or above `beta` a lower bound, and inside the
window it is exact. Nothing here mentions a game.

`FailSoftFold` is what a left-to-right scan of children maintains, and
`FailSoftFold.step` is the one induction step every alpha-beta variant needs.
-/

namespace Sanmill

/-- What the answer `v` of a fail-soft search says of the value `m`. -/
structure FailSoft (alpha beta v m : Int) : Prop where
  low : v ≤ alpha → m ≤ v
  high : beta ≤ v → v ≤ m
  exact : alpha < v → v < beta → v = m

namespace FailSoft

variable {alpha beta v m : Int}

theorem of_eq (h : v = m) : FailSoft alpha beta v m where
  low _ := by omega
  high _ := by omega
  exact _ _ := h

/-- The same report, seen by the other player. -/
theorem neg (h : FailSoft (-beta) (-alpha) v m) : FailSoft alpha beta (-v) (-m) where
  low hv := by
    have := h.high (by omega)
    omega
  high hv := by
    have := h.low (by omega)
    omega
  exact hlo hhi := by
    have := h.exact (by omega) (by omega)
    omega

/-- With the value strictly inside the window, the report is the value. -/
theorem eq_of_inside (h : FailSoft alpha beta v m) (hlo : alpha < m) (hhi : m ≤ beta) :
    v = m := by
  by_cases ha : v ≤ alpha
  · have := h.low ha
    omega
  · by_cases hb : beta ≤ v
    · have := h.high hb
      omega
    · exact h.exact (by omega) (by omega)

end FailSoft

/-- A scan that started from `alpha` has seen children worth at most `m`, with the best report
`best` still below `beta`. -/
structure FailSoftFold (alpha beta best m : Int) : Prop where
  below : best < beta
  low : best ≤ alpha → m ≤ best
  exact : alpha < best → best = m

namespace FailSoftFold

variable {alpha beta best m v w : Int}

/-- One more child, searched with the raised `alpha`. -/
theorem step (h : FailSoftFold alpha beta best m) (hv : FailSoft (max alpha best) beta v w)
    (hlt : v < beta) : FailSoftFold alpha beta (max best v) (max m w) where
  below := max_lt h.below hlt
  low hle := by
    have hm := h.low (le_trans (le_max_left _ _) hle)
    have hw := hv.low (by omega)
    omega
  exact hgt := by
    by_cases hbest : alpha < best
    · have hm := h.exact hbest
      by_cases hraise : v ≤ best
      · have hw := hv.low (by omega)
        omega
      · have hw := hv.exact (by omega) hlt
        omega
    · have hm := h.low (by omega)
      have hw := hv.exact (by omega) hlt
      omega

theorem failSoft (h : FailSoftFold alpha beta best m) : FailSoft alpha beta best m where
  low := h.low
  high hb := absurd h.below (by omega)
  exact hlo _ := h.exact hlo

end FailSoftFold

/-! ## Maxima of lists -/

theorem max?_perm {l l' : List Int} (h : l.Perm l') : l.max? = l'.max? := by
  cases hl : l.max? with
  | none =>
    have hnil := List.max?_eq_none_iff.1 hl
    subst hnil
    rw [List.nil_perm.1 h]
    rfl
  | some m =>
    have hm := List.max?_eq_some_iff.1 hl
    exact (List.max?_eq_some_iff.2 ⟨h.mem_iff.1 hm.1, fun b hb => hm.2 b (h.mem_iff.2 hb)⟩).symm

theorem le_foldl_max (l : List Int) (m : Int) : m ≤ l.foldl max m := by
  induction l generalizing m with
  | nil => exact le_refl m
  | cons x rest ih => exact le_trans (le_max_left m x) (ih (max m x))

/-- A scan that starts from a lower bound of the list ends at its maximum. -/
theorem foldl_max_eq {l : List Int} {m : Int} (hne : l ≠ []) (hm : ∀ x ∈ l, m ≤ x) :
    l.max? = some (l.foldl max m) := by
  cases l with
  | nil => exact absurd rfl hne
  | cons x rest =>
    have hx : max m x = x := max_eq_right (hm x (List.mem_cons_self ..))
    rw [List.max?_cons', List.foldl_cons, hx]

/-! ## The first best element -/

section Scan

variable {α : Type} {value : α → Int} {floor best v : Int} {seen l : List α} {a act : α}

/-- `a` is the first element of `l` that no other exceeds. -/
def FirstBest (value : α → Int) (l : List α) (a : α) : Prop :=
  ∃ pre post, l = pre ++ a :: post ∧ (∀ b ∈ l, value b ≤ value a) ∧ ∀ b ∈ pre, value b < value a

/-- A scan that keeps the first strict improvement over `floor` holds `best` and `act`. -/
def BestScan (value : α → Int) (floor : Int) (seen : List α) (best : Int) (act : α) : Prop :=
  (seen = [] ∧ best = floor) ∨ (best = value act ∧ FirstBest value seen act)

/-- One more element, reported as `v`: exactly when that is an improvement. -/
theorem BestScan.step (h : BestScan value floor seen best act) (hfloor : floor < value a)
    (hexact : best < v → v = value a) (hlow : v ≤ best → value a ≤ best) :
    (best < v → BestScan value floor (seen ++ [a]) v a)
      ∧ (v ≤ best → BestScan value floor (seen ++ [a]) best act) := by
  constructor
  · intro hgt
    have hv := hexact hgt
    have hbelow : ∀ b ∈ seen, value b < value a := by
      intro b hb
      rcases h with ⟨rfl, -⟩ | ⟨hbest, pre, post, -, hmax, -⟩
      · exact absurd hb List.not_mem_nil
      · have := hmax b hb
        omega
    refine Or.inr ⟨hv, seen, [], rfl, ?_, hbelow⟩
    intro b hb
    rcases List.mem_append.1 hb with hb | hb
    · exact le_of_lt (hbelow b hb)
    · rw [List.mem_singleton.1 hb]
  · intro hle
    have ha := hlow hle
    rcases h with ⟨-, hbest⟩ | ⟨hbest, pre, post, hsplit, hmax, hpre⟩
    · omega
    · refine Or.inr ⟨hbest, pre, post ++ [a], by rw [hsplit]; simp, ?_, hpre⟩
      intro b hb
      rcases List.mem_append.1 hb with hb | hb
      · exact hmax b hb
      · rw [List.mem_singleton.1 hb]
        omega

/-- The first best element attains the maximum. -/
theorem FirstBest.max? (h : FirstBest value l a) : (l.map value).max? = some (value a) := by
  obtain ⟨pre, post, hsplit, hmax, -⟩ := h
  refine List.max?_eq_some_iff.2 ⟨List.mem_map_of_mem (by rw [hsplit]; simp), ?_⟩
  intro x hx
  obtain ⟨b, hb, rfl⟩ := List.mem_map.1 hx
  exact hmax b hb

end Scan

end Sanmill
