import Mathlib.Algebra.Group.Subgroup.Actions
import Sanmill.Lib.Numerals
import Mathlib.Algebra.Order.BigOperators.Group.Finset
import Mathlib.GroupTheory.GroupAction.Quotient
import Mathlib.Order.Bounds.Basic
import Mathlib.Order.Defs.LinearOrder
import Mathlib.SetTheory.Cardinal.Finite

/-!
# Canonical representatives of orbits

A family of maps closed under composition and inverse moves the elements of a type
within orbits. Where a part of each element has a representative of its own (its
`seed`), the least image whose part is the seed represents the whole element: two
elements share it exactly when they share an orbit. Elements whose part is fixed by
several maps are why the least image is taken and not just any.
-/

namespace Sanmill.Orbit

variable {ι α β : Type}

/-- Maps that may be composed and undone within the family, on the valid elements. -/
structure ClosedFamily (act : ι → β → β) (valid : β → Prop) : Prop where
  valid_act : ∀ i b, valid b → valid (act i b)
  comp : ∀ i j, ∃ k, ∀ b, valid b → act k b = act i (act j b)
  inv : ∀ i, ∃ j, ∀ b, valid b → act j (act i b) = b

/-- One element is an image of the other. -/
def SameOrbit (act : ι → β → β) (a b : β) : Prop := ∃ i, act i a = b

section Orbits

variable {act : ι → β → β} {valid : β → Prop} (hact : ClosedFamily act valid)
include hact

theorem ClosedFamily.symm {a b : β} (ha : valid a) (h : SameOrbit act a b) : SameOrbit act b a := by
  obtain ⟨i, rfl⟩ := h
  obtain ⟨j, hj⟩ := hact.inv i
  exact ⟨j, hj a ha⟩

theorem ClosedFamily.trans {a b c : β} (ha : valid a) (hab : SameOrbit act a b)
    (hbc : SameOrbit act b c) : SameOrbit act a c := by
  obtain ⟨i, rfl⟩ := hab
  obtain ⟨j, rfl⟩ := hbc
  obtain ⟨k, hk⟩ := hact.comp j i
  exact ⟨k, hk a ha⟩

/-- Elements that meet in an image share an orbit. -/
theorem ClosedFamily.of_common {a b c : β} (ha : valid a) (hb : valid b)
    (hac : SameOrbit act a c) (hbc : SameOrbit act b c) : SameOrbit act a b :=
  hact.trans ha hac (hact.symm hb hbc)

end Orbits

/-! ## The least image over a seed -/

/-- The images of `b` whose part is `seed`. -/
def candidates (act : ι → β → β) (part : β → α) (seed : α) (b : β) : Set β :=
  {c | (∃ i, act i b = c) ∧ part c = seed}

section Canonical

variable {act : ι → β → β} {valid : β → Prop} {part : β → α}
variable (hact : ClosedFamily act valid)
include hact

/-- The candidates do not depend on the element the orbit is entered from. -/
theorem ClosedFamily.candidates_eq {a b : β} (ha : valid a) (h : SameOrbit act a b) (seed : α) :
    candidates act part seed a = candidates act part seed b := by
  have hb : valid b := by
    obtain ⟨i, rfl⟩ := h
    exact hact.valid_act i a ha
  ext c
  constructor
  · rintro ⟨hc, hpart⟩
    exact ⟨hact.trans hb (hact.symm ha h) hc, hpart⟩
  · rintro ⟨hc, hpart⟩
    exact ⟨hact.trans ha h hc, hpart⟩

theorem ClosedFamily.least_eq_iff [PartialOrder β] {a b ca cb : β} {sa sb : α} (ha : valid a)
    (hb : valid b)
    (hca : IsLeast (candidates act part sa a) ca) (hcb : IsLeast (candidates act part sb b) cb)
    (hseed : SameOrbit act a b → sa = sb) : ca = cb ↔ SameOrbit act a b := by
  constructor
  · intro heq
    have hac : SameOrbit act a ca := hca.1.1
    have hbc : SameOrbit act b cb := hcb.1.1
    rw [← heq] at hbc
    exact hact.of_common ha hb hac hbc
  · intro h
    rw [hact.candidates_eq ha h, hseed h] at hca
    exact hca.unique hcb

end Canonical

/-! ## Searching for the least image -/

section Search

variable [LinearOrder β]

/-- One round of a search that keeps the first least value and where it was found. -/
def leastStep (f : ι → β) (best : β × ι) (i : ι) : β × ι := if f i < best.1 then (f i, i) else best

/-- The search returns a value it has seen, and none it has seen is less. -/
theorem leastStep_foldl (f : ι → β) (l : List ι) (first : ι) :
    let found := l.foldl (leastStep f) (f first, first)
    found.1 = f found.2 ∧ found.2 ∈ first :: l ∧ ∀ i ∈ first :: l, found.1 ≤ f i := by
  -- the invariant of the fold: `best` is the least value over the indices seen so far
  have hfold : ∀ (l : List ι) (seen : List ι) (best : β × ι),
      best.1 = f best.2 → best.2 ∈ seen → (∀ i ∈ seen, best.1 ≤ f i) →
      let found := l.foldl (leastStep f) best
      found.1 = f found.2 ∧ found.2 ∈ seen ++ l ∧ ∀ i ∈ seen ++ l, found.1 ≤ f i := by
    intro l
    induction l with
    | nil =>
      intro seen best hvalue hmem hle
      rw [List.append_nil]
      exact ⟨hvalue, hmem, hle⟩
    | cons i l ih =>
      intro seen best hvalue hmem hle
      have key : (leastStep f best i).1 = f (leastStep f best i).2
          ∧ (leastStep f best i).2 ∈ seen ++ [i]
          ∧ ∀ j ∈ seen ++ [i], (leastStep f best i).1 ≤ f j := by
        unfold leastStep
        split
        · rename_i hless
          refine ⟨rfl, by simp, fun j hj => ?_⟩
          rcases List.mem_append.1 hj with hj | hj
          · exact hless.le.trans (hle j hj)
          · rw [List.mem_singleton.1 hj]
        · rename_i hless
          refine ⟨hvalue, List.mem_append_left _ hmem, fun j hj => ?_⟩
          rcases List.mem_append.1 hj with hj | hj
          · exact hle j hj
          · rw [List.mem_singleton.1 hj]
            exact not_lt.1 hless
      have := ih (seen ++ [i]) (leastStep f best i) key.1 key.2.1 key.2.2
      rwa [List.append_assoc, List.singleton_append] at this
  exact hfold l [first] (f first, first) rfl List.mem_cons_self fun i hi => by
    rw [List.mem_singleton.1 hi]

end Search

end Sanmill.Orbit

/-!
## How many orbits there can be

Burnside's count with a bound on the fixed points: when no element of a finite group
but the unit fixes more than `m` points, there are hardly more orbits than points
divided by the order of the group.
-/

namespace Sanmill.OrbitCount

open MulAction

variable {G X : Type} [Group G] [MulAction G X] [Finite X]

theorem card_orbits_mul_le [Finite G] (m : Nat)
    (hfix : ∀ g : G, g ≠ 1 → Nat.card (fixedBy X g) ≤ m) :
    Nat.card (orbitRel.Quotient G X) * Nat.card G ≤ Nat.card X + (Nat.card G - 1) * m := by
  classical
  have : Fintype G := Fintype.ofFinite G
  have : Fintype X := Fintype.ofFinite X
  have hburnside := sum_card_fixedBy_eq_card_orbits_mul_card_group G X
  have hone : Fintype.card (fixedBy X (1 : G)) = Fintype.card X := by
    have hall : fixedBy X (1 : G) = Set.univ := Set.eq_univ_of_forall fun x => one_smul G x
    rw [← Nat.card_eq_fintype_card, ← Nat.card_eq_fintype_card, hall, Nat.card_univ]
  have hrest : ∑ g ∈ Finset.univ.erase (1 : G), Fintype.card (fixedBy X g) ≤
      (Finset.univ.erase (1 : G)).card * m := by
    refine Finset.sum_le_card_nsmul _ _ m ?_
    intro g hg
    rw [← Nat.card_eq_fintype_card]
    exact hfix g (Finset.ne_of_mem_erase hg)
  rw [Finset.card_erase_of_mem (Finset.mem_univ _), Finset.card_univ] at hrest
  rw [Nat.card_eq_fintype_card, Nat.card_eq_fintype_card, Nat.card_eq_fintype_card, ← hburnside,
    ← Finset.add_sum_erase _ _ (Finset.mem_univ (1 : G)), hone]
  omega

/-- Points of pairwise different orbits are no more than the orbits. -/
theorem length_le_card_orbits (points : List X)
    (h : points.Pairwise fun x y => ¬ orbitRel G X x y) :
    points.length ≤ Nat.card (orbitRel.Quotient G X) := by
  classical
  have : Fintype (orbitRel.Quotient G X) := Fintype.ofFinite _
  have hnodup : (points.map fun x =>
      (Quotient.mk (orbitRel G X) x : orbitRel.Quotient G X)).Nodup := by
    rw [List.Nodup, List.pairwise_map]
    refine h.imp ?_
    intro x y hxy heq
    exact hxy (Quotient.exact heq)
  rw [Nat.card_eq_fintype_card, ← List.length_map]
  exact hnodup.length_le_card

end Sanmill.OrbitCount
