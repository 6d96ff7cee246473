import Mathlib
import Sanmill.Lib.Orbit
import Sanmill.Proof.PerfectDb.Hash

/-!
# The largest sector

A canonical key leaves 32 bits for the slot. The seeds of a count are representatives
of the orbits of its bitboards; the group of transforms has sixteen elements, and all
but the identity fix at most `2^16` bitboards, so there are few orbits beyond a
sixteenth of the bitboards. With that every sector of at most twelve stones a side
fits.
-/

namespace Sanmill.PerfectDb

open Orbit MulAction
open scoped Pointwise

/-! ## The group of transforms -/

theorem exists_indexPerm_mul (a b : SymmetryOp) : ∃ c, indexPerm c = indexPerm a * indexPerm b := by
  obtain ⟨c, hc⟩ := exists_composite a b
  exact ⟨c, Equiv.ext hc⟩

theorem indexPerm_inv (op : SymmetryOp) : (indexPerm op)⁻¹ = indexPerm (inverseOp op) := by
  ext i
  rfl

theorem indexPerm_identity : indexPerm identityOp = 1 :=
  Equiv.ext transformIndex_identity

def boardGroup : Subgroup (Equiv.Perm (Fin 24)) where
  carrier := Set.range indexPerm
  mul_mem' := by
    rintro _ _ ⟨a, rfl⟩ ⟨b, rfl⟩
    exact exists_indexPerm_mul a b
  one_mem' := ⟨identityOp, indexPerm_identity⟩
  inv_mem' := by
    rintro _ ⟨op, rfl⟩
    exact ⟨inverseOp op, (indexPerm_inv op).symm⟩

/-- A transform is told apart by where two neighbouring points go. -/
theorem transformIndex_determines (a b : SymmetryOp) (h0 : transformIndex a 0 = transformIndex b 0)
    (h1 : transformIndex a 1 = transformIndex b 1) : a = b := by
  revert a b
  decide +kernel

theorem indexPerm_injective : Function.Injective indexPerm := by
  intro a b hab
  refine transformIndex_determines a b ?_ ?_
  · rw [← indexPerm_apply, hab, indexPerm_apply]
  · rw [← indexPerm_apply, hab, indexPerm_apply]

theorem card_boardGroup : Nat.card boardGroup = 16 := by
  calc Nat.card boardGroup = Nat.card (Set.range indexPerm) := rfl
    _ = Nat.card SymmetryOp := Nat.card_range_of_injective indexPerm_injective
    _ = 16 := Nat.card_fin 16

/-! ## Fixed bitboards -/

/-- The least point of a cycle; the transforms have order at most four. -/
def cycleLeast (op : SymmetryOp) (i : Fin 24) : Fin 24 :=
  let next := transformIndex op
  min (min i (next i)) (min (next (next i)) (next (next (next i))))

theorem card_cycles (op : SymmetryOp) (h : op ≠ identityOp) :
    (Finset.univ.image (cycleLeast op)).card ≤ 16 := by
  revert op
  decide +kernel

/-- A set that a transform maps to itself holds a point with its whole cycle. -/
theorem cycleLeast_mem_iff {op : SymmetryOp} {set : Finset (Fin 24)}
    (h : ∀ i, transformIndex op i ∈ set ↔ i ∈ set) (i : Fin 24) :
    cycleLeast op i ∈ set ↔ i ∈ set := by
  have hmin : ∀ a b : Fin 24, (a ∈ set ↔ i ∈ set) → (b ∈ set ↔ i ∈ set) →
      (min a b ∈ set ↔ i ∈ set) := by
    intro a b ha hb
    rcases min_choice a b with hm | hm
    · rwa [hm]
    · rwa [hm]
  refine hmin _ _ (hmin _ _ Iff.rfl (h i)) (hmin _ _ ?_ ?_)
  · rw [h, h]
  · rw [h, h, h]

/-- A fixed set is known from the least points of its cycles. -/
theorem card_fixedBy_le (count : Nat) (g : boardGroup) (hg : g ≠ 1) :
    Nat.card (fixedBy (Set.powersetCard (Fin 24) count) g) ≤ 2 ^ 16 := by
  classical
  obtain ⟨_, op, rfl⟩ := g
  have hop : op ≠ identityOp := by
    rintro rfl
    exact hg (Subtype.ext indexPerm_identity)
  have hfixed : ∀ set : fixedBy (Set.powersetCard (Fin 24) count)
      (⟨indexPerm op, op, rfl⟩ : boardGroup), ∀ i,
      transformIndex op i ∈ set.val.val ↔ i ∈ set.val.val := by
    rintro ⟨set, hset⟩ i
    have hset' : indexPerm op • set.val = set.val := congrArg Subtype.val hset
    constructor
    · intro hi
      rw [← hset'] at hi
      obtain ⟨j, hj, hji⟩ := Finset.mem_smul_finset.1 hi
      rwa [← (indexPerm op).injective hji]
    · intro hi
      rw [← hset']
      exact Finset.mem_smul_finset.2 ⟨i, hi, rfl⟩
  -- each fixed set goes to its part among the least points
  let least := Finset.univ.image (cycleLeast op)
  let part := fun set : fixedBy (Set.powersetCard (Fin 24) count)
    (⟨indexPerm op, op, rfl⟩ : boardGroup) =>
      (⟨set.val.val ∩ least, Finset.mem_powerset.2 Finset.inter_subset_right⟩ : least.powerset)
  have hinjective : Function.Injective part := by
    intro a b hab
    have hparts : a.val.val ∩ least = b.val.val ∩ least := congrArg Subtype.val hab
    refine Subtype.ext (Subtype.ext (Finset.ext fun i => ?_))
    have hi : cycleLeast op i ∈ least := Finset.mem_image_of_mem _ (Finset.mem_univ i)
    have hiff := Finset.ext_iff.1 hparts (cycleLeast op i)
    rw [Finset.mem_inter, Finset.mem_inter] at hiff
    simp only [hi, and_true] at hiff
    rw [← cycleLeast_mem_iff (hfixed a), hiff, cycleLeast_mem_iff (hfixed b)]
  calc Nat.card (fixedBy (Set.powersetCard (Fin 24) count) (⟨indexPerm op, op, rfl⟩ : boardGroup))
      ≤ Nat.card least.powerset := Nat.card_le_card_of_injective part hinjective
    _ = 2 ^ least.card := by
        rw [Nat.card_eq_fintype_card, Fintype.card_coe, Finset.card_powerset]
    _ ≤ 2 ^ 16 := Nat.pow_le_pow_right (by decide) (card_cycles op hop)

/-! ## Counting the seeds -/

theorem card_powersetCard (count : Nat) :
    Nat.card (Set.powersetCard (Fin 24) count) = Nat.choose 24 count := by
  rw [Set.powersetCard.card, Nat.card_fin]

namespace TablesOk

variable {whiteCount : Nat} {tables : WhiteTables} (h : TablesOk whiteCount tables)
include h

/-- Different seeds lie in different orbits. -/
theorem seeds_pairwise :
    tables.inverse.Pairwise fun a b => ¬ SameOrbit transform24 a b := by
  rw [List.pairwise_iff_getElem]
  intro i j hi hj hij horbit
  obtain ⟨op, hop⟩ := horbit
  obtain ⟨entry, hentry, hindex⟩ := h.image i _ (List.getElem?_eq_getElem hi) op
  obtain ⟨entry', hentry', hindex'⟩ := h.image j _ (List.getElem?_eq_getElem hj) identityOp
  have hlt := (h.seeds _ (List.getElem_mem hj)).1
  rw [transform24_identity hlt, ← hop, hentry, Option.some_inj] at hentry'
  rw [← hentry', hindex] at hindex'
  omega

/-- The seeds as sets of points. -/
theorem length_le_card_orbits : tables.inverse.length ≤
    Nat.card (orbitRel.Quotient boardGroup (Set.powersetCard (Fin 24) whiteCount)) := by
  have hseed : ∀ seed ∈ tables.inverse, (points seed).card = whiteCount := by
    intro seed hmem
    obtain ⟨hlt, hcount⟩ := h.seeds seed hmem
    rw [← countOnes_eq_card hlt, hcount]
  let sets := tables.inverse.attach.map fun seed =>
    Set.powersetCard.ofCard (hseed seed.val seed.property)
  have hlength : sets.length = tables.inverse.length := by
    rw [List.length_map, List.length_attach]
  rw [← hlength]
  refine OrbitCount.length_le_card_orbits sets ?_
  rw [List.pairwise_map]
  have hpairs := h.seeds_pairwise
  rw [← List.attach_map_subtype_val tables.inverse, List.pairwise_map] at hpairs
  refine hpairs.imp_of_mem ?_
  rintro ⟨a, ha⟩ ⟨b, hb⟩ _ _ hab horbit
  apply hab
  obtain ⟨⟨_, op, rfl⟩, hg⟩ := horbit
  have hpoints : indexPerm op • points b = points a := congrArg Subtype.val hg
  obtain ⟨hlta, _⟩ := h.seeds a ha
  obtain ⟨hltb, _⟩ := h.seeds b hb
  have himage : transform24 op b = a := by
    refine points_injective (transform24_lt op b) hlta ?_
    rw [points_transform24, ← hpoints, Finset.map_eq_image]
    rfl
  exact transform24_closed.symm hltb ⟨op, himage⟩

theorem length_mul_le :
    tables.inverse.length * 16 ≤ Nat.choose 24 whiteCount + 15 * 2 ^ 16 := by
  have hcount := OrbitCount.card_orbits_mul_le (2 ^ 16) (card_fixedBy_le whiteCount)
  rw [card_boardGroup, card_powersetCard] at hcount
  exact (Nat.mul_le_mul_right 16 h.length_le_card_orbits).trans hcount

theorem length_le_choose : tables.inverse.length ≤ Nat.choose 24 whiteCount := by
  rw [← length_combinationMasks (Nat.le_refl 24)]
  have hnodup : tables.inverse.Nodup := by
    refine h.seeds_pairwise.imp_of_mem ?_
    intro a b ha _ hab heq
    refine hab ⟨identityOp, ?_⟩
    rw [← heq, transform24_identity (h.seeds a ha).1]
  refine (List.subperm_of_subset hnodup ?_).length_le
  intro seed hseed
  exact (mem_combinationMasks_board whiteCount seed).2 (h.seeds seed hseed)

end TablesOk

theorem sector_bound : ∀ whiteCount ∈ List.range 13, ∀ blackCount ∈ List.range 13,
    min (binom 24 whiteCount) ((binom 24 whiteCount + 15 * 2 ^ 16) / 16) *
      binom (24 - whiteCount) blackCount < 2 ^ 32 := by
  decide +kernel

/-- A slot of a supported sector fits in the 32 bits of a canonical key. -/
theorem hashCount_lt {whiteCount blackCount : Nat} {hasher : PerfectHasher}
    (h : HasherOk whiteCount blackCount hasher) (hwhite : whiteCount ≤ 12)
    (hblack : blackCount ≤ 12) : hasher.hashCount < 2 ^ 32 := by
  obtain ⟨orbitIndex, htables⟩ := h.tables
  have hmul := htables.length_mul_le
  have hchoose := htables.length_le_choose
  have hbound := sector_bound whiteCount (List.mem_range.2 (by omega)) blackCount
    (List.mem_range.2 (by omega))
  rw [← binom_eq_choose (by omega)] at hmul hchoose
  have hpositions : hasher.positionsPerWhite = binom (24 - whiteCount) blackCount := by
    rw [h.positions, h.blackInverse, length_combinationMasks (by omega), binom_eq_choose (by omega)]
  have hlength : hasher.whiteInverse.length ≤
      min (binom 24 whiteCount) ((binom 24 whiteCount + 15 * 2 ^ 16) / 16) := by
    refine Nat.le_min.2 ⟨hchoose, ?_⟩
    rw [Nat.le_div_iff_mul_le (by decide)]
    exact hmul
  rw [PerfectHasher.hashCount, hpositions]
  exact (Nat.mul_le_mul_right _ hlength).trans_lt hbound

end Sanmill.PerfectDb
