import Mathlib.Algebra.Order.BigOperators.Group.Finset
import Mathlib.Data.Fintype.Prod
import Sanmill.Proof.Generators
import Sanmill.Proof.Reach

/-!
# How many actions there are

The runtime list holds 256 actions and the search list 72; pushing past either
panics. Placements, removals, steps and leaps never come near, so the count is
decided by flights: every live piece reaches every empty square. The options
bound the piece count at which flying starts from below only, so a side may fly
with many pieces, and then the search list can overflow.
-/

namespace Sanmill

open Bits

/-! ## Counting a list -/

/-- A list without duplicates is as long as the set of arguments its actions come from. -/
theorem length_eq_card {α : Type} [Fintype α] {l : List Action} {f : α → Action}
    (hf : Function.Injective f) (P : α → Prop) [DecidablePred P] (hnodup : l.Nodup)
    (hmem : ∀ a, a ∈ l ↔ ∃ x, a = f x ∧ P x) : l.length = (Finset.univ.filter P).card := by
  have himage : l.toFinset = (Finset.univ.filter P).image f := by
    ext a
    rw [List.mem_toFinset, hmem, Finset.mem_image]
    constructor
    · rintro ⟨x, rfl, hx⟩
      exact ⟨x, Finset.mem_filter.2 ⟨Finset.mem_univ x, hx⟩, rfl⟩
    · rintro ⟨x, hx, rfl⟩
      exact ⟨x, rfl, (Finset.mem_filter.1 hx).2⟩
  rw [← List.toFinset_card_of_nodup hnodup, himage, Finset.card_image_of_injective _ hf]

variable {s : MillState} {options : MillVariantOptions} {priority : List Node} {c : Side}

/-! ## The squares of a position -/

/-- The nodes that hold a live piece of `c`. -/
def ownNodes (s : MillState) (c : Side) : Finset Node :=
  Finset.univ.filter fun n : Node => testBit (s.byColorBb c) n = true

/-- The nodes that hold nothing. -/
def emptyNodes (s : MillState) : Finset Node :=
  Finset.univ.filter fun n : Node => testBit s.boardOccupiedBitboard n = false

theorem card_ownNodes (h : PositionInv options s.toMillPosition) (c : Side) :
    (ownNodes s c).card = s.piecesOnBoard c := by
  rw [h.counts, countOnes_eq_card_fin _ 24 (h.byColorBb_below c)]
  rfl

theorem occupied_below (h : PositionInv options s.toMillPosition) :
    ∀ i, testBit s.boardOccupiedBitboard i = true → i < 24 := by
  intro i hi
  unfold MillPosition.boardOccupiedBitboard MillPosition.liveOccupiedBitboard at hi
  rw [testBit_or, testBit_or, Bool.or_eq_true, Bool.or_eq_true] at hi
  rcases hi with (hi | hi) | hi
  · exact h.byColorBb_below 0 i hi
  · exact h.byColorBb_below 1 i hi
  · exact h.marks i hi

theorem card_emptyNodes (h : PositionInv options s.toMillPosition) :
    (emptyNodes s).card = s.emptySquareCount := by
  have hocc := countOnes_eq_card_fin _ 24 (occupied_below h)
  have hsplit := Finset.card_filter_add_card_filter_not
    (s := (Finset.univ : Finset Node)) (fun n : Node => testBit s.boardOccupiedBitboard n = true)
  have hempty : emptyNodes s = Finset.univ.filter fun n : Node =>
      ¬testBit s.boardOccupiedBitboard n = true := by
    unfold emptyNodes
    refine Finset.filter_congr fun n _ => ?_
    rw [Bool.not_eq_true]
  unfold MillPosition.emptySquareCount
  rw [hempty, hocc]
  rw [Finset.card_univ, Fintype.card_fin] at hsplit
  exact (Nat.sub_eq_of_eq_add' hsplit.symm).symm

/-- A live piece occupies its square. -/
theorem occupied_of_live {n : Node} (h : testBit (s.byColorBb c) n = true) :
    testBit s.boardOccupiedBitboard n = true := by
  unfold MillPosition.boardOccupiedBitboard MillPosition.liveOccupiedBitboard
  rw [testBit_or, testBit_or]
  rcases Side.eq_or_eq_opponent 0 c with rfl | rfl
  · rw [h]
    rfl
  · have h1 : testBit (s.byColorBb 1) n = true := h
    rw [h1, Bool.or_true, Bool.true_or]

theorem own_disjoint_empty : Disjoint (ownNodes s c) (emptyNodes s) := by
  rw [Finset.disjoint_left]
  intro n hown hempty
  have hocc := occupied_of_live (Finset.mem_filter.1 hown).2
  rw [(Finset.mem_filter.1 hempty).2] at hocc
  exact Bool.false_ne_true hocc

theorem own_add_empty_le : (ownNodes s c).card + (emptyNodes s).card ≤ 24 := by
  rw [← Finset.card_union_of_disjoint own_disjoint_empty]
  have := Finset.card_le_univ (ownNodes s c ∪ emptyNodes s)
  rwa [Fintype.card_fin] at this

/-! ## Steps, leaps and flights -/

/-- From a live piece of `c` to an empty square. -/
def OwnToEmpty (s : MillState) (c : Side) (p : Node × Node) : Prop :=
  testBit (s.byColorBb c) p.1 = true ∧ testBit s.boardOccupiedBitboard p.2 = false

instance (s : MillState) (c : Side) : DecidablePred (OwnToEmpty s c) :=
  fun _ => inferInstanceAs (Decidable (_ ∧ _))

/-- No square is both left and entered. -/
theorem OwnToEmpty.not_back {p q : Node × Node} (hp : OwnToEmpty s c p) (hq : OwnToEmpty s c q) :
    p.1 ≠ q.2 := by
  intro heq
  have hocc := occupied_of_live hp.1
  rw [heq, hq.2] at hocc
  exact Bool.false_ne_true hocc

/-- An edge is used in one direction at most, and there are forty. -/
theorem card_steps_le (diagonal : Bool) :
    (Finset.univ.filter fun p : Node × Node =>
      OwnToEmpty s c p ∧ Adjacent diagonal p.1 p.2).card ≤ 40 := by
  have htable : ∀ d : Bool,
      (Finset.univ.filter fun p : Node × Node => Adjacent d p.1 p.2).card ≤ 80 := by
    decide +kernel
  -- a step and its reverse are never both available, so at most half of the table is
  generalize hsteps : (Finset.univ.filter fun p : Node × Node =>
    OwnToEmpty s c p ∧ Adjacent diagonal p.1 p.2) = steps
  have hmem : ∀ {p : Node × Node}, p ∈ steps → OwnToEmpty s c p ∧ Adjacent diagonal p.1 p.2 := by
    intro p hp
    rw [← hsteps] at hp
    exact (Finset.mem_filter.1 hp).2
  have hdisjoint : Disjoint steps (steps.image Prod.swap) := by
    rw [Finset.disjoint_left]
    intro p hp hback
    obtain ⟨q, hq, rfl⟩ := Finset.mem_image.1 hback
    exact (hmem hp).1.not_back (hmem hq).1 rfl |>.elim
  have hsub : steps ∪ steps.image Prod.swap
      ⊆ Finset.univ.filter fun p : Node × Node => Adjacent diagonal p.1 p.2 := by
    intro p hp
    refine Finset.mem_filter.2 ⟨Finset.mem_univ p, ?_⟩
    rcases Finset.mem_union.1 hp with hp | hp
    · exact (hmem hp).2
    · obtain ⟨q, hq, rfl⟩ := Finset.mem_image.1 hp
      exact (adjacent_comm _ _ _).1 (hmem hq).2
  have hcard := Finset.card_le_card hsub
  rw [Finset.card_union_of_disjoint hdisjoint,
    Finset.card_image_of_injective _ Prod.swap_injective] at hcard
  have := htable diagonal
  omega

/-- A leap that could be generated for `c`. -/
def Leaps (s : MillState) (options : MillVariantOptions) (c : Side) (p : Node × Node) : Prop :=
  testBit (s.byColorBb c) p.1 = true
    ∧ ∃ line ∈ activeCaptureLines options.leapCapture options,
        leapTarget? s options p.1 line = some p.2

open Classical in
/-- A line is leapt along in one direction at most, and there are twenty. -/
theorem card_leaps_le : (Finset.univ.filter (Leaps s options c)).card ≤ 20 := by
  have hlines : (activeCaptureLines options.leapCapture options).toFinset.card ≤ 20 := by
    have hlen := (activeCaptureLines_sublist options.leapCapture options).length_le
    have hall : allCaptureLines.length = 20 := rfl
    have := List.toFinset_card_le (activeCaptureLines options.leapCapture options)
    omega
  -- along one line only one leap starts from an own piece: the other end would have to be empty
  have hone : ∀ line ∈ (activeCaptureLines options.leapCapture options).toFinset,
      (Finset.univ.filter fun p : Node × Node => testBit (s.byColorBb c) p.1 = true
        ∧ leapTarget? s options p.1 line = some p.2).card ≤ 1 := by
    intro line _
    rw [Finset.card_le_one]
    intro p hp q hq
    obtain ⟨hpown, hpleap⟩ := (Finset.mem_filter.1 hp).2
    obtain ⟨hqown, hqleap⟩ := (Finset.mem_filter.1 hq).2
    have hpempty : OwnToEmpty s c p := ⟨hpown, leapTarget?_empty hpleap⟩
    have hqempty : OwnToEmpty s c q := ⟨hqown, leapTarget?_empty hqleap⟩
    rcases leapTarget?_ends hpleap with ⟨h1, h2⟩ | ⟨h1, h2⟩ <;>
      rcases leapTarget?_ends hqleap with ⟨h3, h4⟩ | ⟨h3, h4⟩
    · exact Prod.ext (h1.trans h3.symm) (h2.trans h4.symm)
    · exact absurd (h1.trans h4.symm) (hpempty.not_back hqempty)
    · exact absurd (h1.trans h4.symm) (hpempty.not_back hqempty)
    · exact Prod.ext (h1.trans h3.symm) (h2.trans h4.symm)
  have hsub : Finset.univ.filter (Leaps s options c)
      ⊆ (activeCaptureLines options.leapCapture options).toFinset.biUnion fun line =>
          Finset.univ.filter fun p : Node × Node => testBit (s.byColorBb c) p.1 = true
            ∧ leapTarget? s options p.1 line = some p.2 := by
    intro p hp
    obtain ⟨hown, line, hline, hleap⟩ := (Finset.mem_filter.1 hp).2
    exact Finset.mem_biUnion.2 ⟨line, List.mem_toFinset.2 hline,
      Finset.mem_filter.2 ⟨Finset.mem_univ p, hown, hleap⟩⟩
  calc (Finset.univ.filter (Leaps s options c)).card
      ≤ _ := Finset.card_le_card hsub
    _ ≤ (activeCaptureLines options.leapCapture options).toFinset.card * 1 :=
        Finset.card_biUnion_le_card_mul _ _ 1 hone
    _ ≤ 20 := by omega

/-- Every live piece to every empty square. -/
theorem card_flights : (Finset.univ.filter (OwnToEmpty s c)).card
    = (ownNodes s c).card * (emptyNodes s).card := by
  have hproduct : Finset.univ.filter (OwnToEmpty s c) = ownNodes s c ×ˢ emptyNodes s := by
    ext p
    simp [OwnToEmpty, ownNodes, emptyNodes]
  rw [hproduct, Finset.card_product]

/-- The repeated-mill rule forbids one move at most. -/
theorem card_restricted_le :
    (Finset.univ.filter fun p : Node × Node =>
      isRestrictedRepeatedMill s options p.1 p.2 = true).card ≤ 1 := by
  have hlast : ∀ {source target : Node}, isRestrictedRepeatedMill s options source target = true →
      source.toI8 = s.lastMillTo (sideIndex s.sideToMove)
        ∧ target.toI8 = s.lastMillFrom (sideIndex s.sideToMove) := by
    intro source target h
    unfold isRestrictedRepeatedMill at h
    simp only at h
    split_ifs at h with h1 h2 h3 h4 h5
    push Not at h4
    exact h4
  rw [Finset.card_le_one]
  intro p hp q hq
  obtain ⟨hp1, hp2⟩ := hlast (Finset.mem_filter.1 hp).2
  obtain ⟨hq1, hq2⟩ := hlast (Finset.mem_filter.1 hq).2
  exact Prod.ext ((Node.toI8_inj _ _).1 (hp1.trans hq1.symm))
    ((Node.toI8_inj _ _).1 (hp2.trans hq2.symm))

/-! ## The generators -/

open Classical in
theorem length_generateMoveActions (hp : priority.Perm (List.finRange 24)) (allowFly : Bool) :
    (generateMoveActionsWithPriority s options allowFly priority).length
      = (Finset.univ.filter fun p : Node × Node => MoveTarget s options allowFly p.1 p.2).card := by
  have hinjective : Function.Injective fun p : Node × Node => moveAction p.1 p.2 := by
    intro p q heq
    obtain ⟨h1, h2⟩ := moveAction_inj.1 heq
    exact Prod.ext h1 h2
  refine length_eq_card hinjective _
    (nodup_generateMoveActionsWithPriority (hp.nodup_iff.2 (List.nodup_finRange 24)) allowFly)
    fun a => ?_
  rw [mem_generateMoveActionsWithPriority (fun n => hp.mem_iff.2 (List.mem_finRange n))]
  constructor
  · rintro ⟨source, target, ha, ht⟩
    exact ⟨(source, target), ha, ht⟩
  · rintro ⟨p, ha, ht⟩
    exact ⟨p.1, p.2, ha, ht⟩

/-- Without flying, moves are steps and leaps. -/
theorem length_walks (hp : priority.Perm (List.finRange 24)) {allowFly : Bool}
    (hfly : canFly s options allowFly = false) :
    (generateMoveActionsWithPriority s options allowFly priority).length
      ≤ 40 + if leapEnabled s options allowFly then 20 else 0 := by
  classical
  rw [length_generateMoveActions hp]
  have hsteps := @card_steps_le s (sideIndex s.sideToMove) options.hasDiagonalLines
  have hleaps := @card_leaps_le s options (sideIndex s.sideToMove)
  -- without flying every target is a neighbour or the end of a leap
  have hcases : ∀ {p : Node × Node}, MoveTarget s options allowFly p.1 p.2 →
      (OwnToEmpty s (sideIndex s.sideToMove) p ∧ Adjacent options.hasDiagonalLines p.1 p.2)
        ∨ (leapEnabled s options allowFly = true
          ∧ Leaps s options (sideIndex s.sideToMove) p) := by
    rintro p ⟨hown, ⟨hempty, -, hreach⟩ | ⟨-, hleap, hline⟩⟩
    · rw [hfly] at hreach
      exact Or.inl ⟨⟨hown, hempty⟩, hreach.resolve_left Bool.false_ne_true⟩
    · exact Or.inr ⟨hleap, hown, hline⟩
  cases hleap : leapEnabled s options allowFly with
  | false =>
    refine le_trans (Finset.card_le_card fun p hp => ?_) hsteps
    refine Finset.mem_filter.2 ⟨Finset.mem_univ p, ?_⟩
    rcases hcases (Finset.mem_filter.1 hp).2 with h | ⟨h, -⟩
    · exact h
    · rw [hleap] at h
      exact absurd h Bool.false_ne_true
  | true =>
    have hsub : (Finset.univ.filter fun p : Node × Node => MoveTarget s options allowFly p.1 p.2)
        ⊆ (Finset.univ.filter fun p : Node × Node => OwnToEmpty s (sideIndex s.sideToMove) p
            ∧ Adjacent options.hasDiagonalLines p.1 p.2)
          ∪ Finset.univ.filter (Leaps s options (sideIndex s.sideToMove)) := by
      intro p hp
      rcases hcases (Finset.mem_filter.1 hp).2 with h | ⟨-, h⟩
      · exact Finset.mem_union_left _ (Finset.mem_filter.2 ⟨Finset.mem_univ p, h⟩)
      · exact Finset.mem_union_right _ (Finset.mem_filter.2 ⟨Finset.mem_univ p, h⟩)
    have hunion := (Finset.card_le_card hsub).trans (Finset.card_union_le _ _)
    simp only [if_true]
    omega

/-- A flying side moves any piece anywhere, but for one restricted move at most. -/
theorem length_flights (hp : priority.Perm (List.finRange 24))
    (hpos : PositionInv options s.toMillPosition) {allowFly : Bool}
    (hfly : canFly s options allowFly = true) :
    (generateMoveActionsWithPriority s options allowFly priority).length
        ≤ s.piecesOnBoard (sideIndex s.sideToMove) * s.emptySquareCount
      ∧ s.piecesOnBoard (sideIndex s.sideToMove) * s.emptySquareCount
        ≤ (generateMoveActionsWithPriority s options allowFly priority).length + 1 := by
  classical
  rw [length_generateMoveActions hp, ← card_ownNodes hpos, ← card_emptyNodes hpos,
    ← card_flights]
  have hmove : ∀ {p : Node × Node}, MoveTarget s options allowFly p.1 p.2
      ↔ OwnToEmpty s (sideIndex s.sideToMove) p
        ∧ isRestrictedRepeatedMill s options p.1 p.2 = false := by
    intro p
    unfold MoveTarget OwnToEmpty
    simp only [hfly, true_or, and_true, Bool.true_eq_false, false_and, or_false, and_assoc]
  -- flights are pairs of an own piece and an empty node, less the one the last mill forbids
  constructor
  · refine Finset.card_le_card fun p hp => ?_
    exact Finset.mem_filter.2 ⟨Finset.mem_univ p, (hmove.1 (Finset.mem_filter.1 hp).2).1⟩
  · have hsub : Finset.univ.filter (OwnToEmpty s (sideIndex s.sideToMove))
        ⊆ (Finset.univ.filter fun p : Node × Node => MoveTarget s options allowFly p.1 p.2)
          ∪ Finset.univ.filter fun p : Node × Node =>
              isRestrictedRepeatedMill s options p.1 p.2 = true := by
      intro p hp
      have hown := (Finset.mem_filter.1 hp).2
      cases hr : isRestrictedRepeatedMill s options p.1 p.2 with
      | false =>
        exact Finset.mem_union_left _
          (Finset.mem_filter.2 ⟨Finset.mem_univ p, hmove.2 ⟨hown, hr⟩⟩)
      | true => exact Finset.mem_union_right _ (Finset.mem_filter.2 ⟨Finset.mem_univ p, hr⟩)
    have hunion := (Finset.card_le_card hsub).trans (Finset.card_union_le _ _)
    have hone := @card_restricted_le s options
    omega

theorem length_generatePlaceActions (hp : priority.Perm (List.finRange 24)) :
    (generatePlaceActions s priority).length ≤ 24 := by
  have hlen : priority.length = 24 := by rw [hp.length_eq, List.length_finRange]
  unfold generatePlaceActions
  split
  · rw [List.length_map]
    exact (List.length_filter_le _ _).trans hlen.le
  · exact Nat.zero_le _

/-- Removals take distinct nodes. -/
theorem length_generateRemoveActions (hp : priority.Perm (List.finRange 24))
    (hmasks : MasksDisjoint s) (hside : s.sideToMove = 0 ∨ s.sideToMove = 1) :
    (generateRemoveActions s options priority).length ≤ 24 := by
  classical
  have hnodup := @nodup_generateRemoveActions s options priority
    (hp.nodup_iff.2 (List.nodup_finRange 24)) hmasks hside
  rw [length_eq_card removeAction_injective (RemoveTarget s options) hnodup fun a =>
    mem_generateRemoveActions (fun n => hp.mem_iff.2 (List.mem_finRange n)) a]
  have := Finset.card_le_univ (Finset.univ.filter (RemoveTarget s options))
  rwa [Fintype.card_fin] at this

/-! ## All legal actions -/

/-- The side to move is choosing a move and flies. -/
def Flies (s : MillState) (options : MillVariantOptions) : Prop :=
  s.actionForLegalGeneration = .select ∧ s.phase = .moving ∧ canFly s options true = true

instance (s : MillState) (options : MillVariantOptions) : Decidable (Flies s options) :=
  inferInstanceAs (Decidable (_ ∧ _))

theorem PositionInv.masksDisjoint (h : PositionInv options s.toMillPosition) : MasksDisjoint s :=
  fun _ hboth => absurd (h.live_unique hboth.1 hboth.2) (by decide)

/-- **Only flights are many.** -/
theorem length_legalActions (hp : priority.Perm (List.finRange 24))
    (hpos : PositionInv options s.toMillPosition) :
    (¬Flies s options → (legalActionsWithPriority s options priority).length ≤ 64)
      ∧ (Flies s options →
        (legalActionsWithPriority s options priority).length
            ≤ s.piecesOnBoard (sideIndex s.sideToMove) * s.emptySquareCount
          ∧ s.piecesOnBoard (sideIndex s.sideToMove) * s.emptySquareCount
            ≤ (legalActionsWithPriority s options priority).length + 1) := by
  have hnofly : canFly s options false = false := rfl
  constructor
  · intro hgrounded
    unfold legalActionsWithPriority
    split
    · rename_i haction
      have hside := side_of_actionForLegalGeneration (s := s) (by simp [haction])
      split
      · exact (length_generateRemoveActions hp hpos.masksDisjoint hside).trans (by omega)
      · exact Nat.zero_le _
    · rw [List.length_append]
      have hplace := @length_generatePlaceActions s priority hp
      have hwalk := length_walks hp hnofly
      -- a leap needs an empty hand, a placement does not have one
      by_cases hhand : s.piecesInHand (sideIndex s.sideToMove) > 0
      · have hleap : leapEnabled s options false = false := by
          unfold leapEnabled
          simp [Nat.pos_iff_ne_zero.1 hhand]
        rw [hleap] at hwalk
        split
        · simp only [Bool.false_eq_true, if_false] at hwalk
          omega
        · simp only [List.length_nil]
          omega
      · have hnone : (generatePlaceActions s priority).length = 0 := by
          unfold generatePlaceActions
          rw [if_neg hhand, List.length_nil]
        have hleap : (if leapEnabled s options false = true then 20 else 0) ≤ 20 := by
          split <;> omega
        split
        · omega
        · simp only [List.length_nil]
          omega
    · rename_i haction
      split
      · rename_i hmoving
        have hfly : canFly s options true = false := by
          rw [Bool.eq_false_iff]
          exact fun hf => hgrounded ⟨haction, hmoving, hf⟩
        have hwalk := length_walks hp hfly
        have hleap : (if leapEnabled s options true = true then 20 else 0) ≤ 20 := by
          split <;> omega
        omega
      · exact Nat.zero_le _
    · exact Nat.zero_le _
  · rintro ⟨haction, hmoving, hfly⟩
    unfold legalActionsWithPriority
    rw [haction]
    simp only [hmoving, if_true]
    exact length_flights hp hpos hfly

/-- A game starts with a placement for each node. -/
example : (legalActionsWithPriority (initialMillState ⟨{}, by decide⟩) {}
    defaultDensePriority).length = 24 := by decide +kernel

/-- Live pieces and empty squares share 24 squares. -/
theorem flights_le (hpos : PositionInv options s.toMillPosition) (c : Side) :
    s.piecesOnBoard c * s.emptySquareCount ≤ 144
      ∧ s.piecesOnBoard c * s.emptySquareCount ≠ 73 := by
  have hsum := @own_add_empty_le s c
  rw [card_ownNodes hpos, card_emptyNodes hpos] at hsum
  have htable : ∀ a ≤ 24, ∀ b ≤ 24 - a, a * b ≤ 144 ∧ a * b ≠ 73 := by decide
  exact htable _ (by omega) _ (by omega)

/-- The list of the search holds what the generator pushes exactly when the side to move either does
not fly, or has few enough pieces for the empty squares. -/
theorem legalPushesCtx_fit_iff (hpos : PositionInv options s.toMillPosition)
    (ctx : MoveOrderContext) :
    (legalPushesCtx s options ctx).length ≤ searchActionCapacity
      ↔ (Flies s options →
        s.piecesOnBoard (sideIndex s.sideToMove) * s.emptySquareCount ≤ searchActionCapacity) := by
  unfold searchActionCapacity
  obtain ⟨hground, hfly⟩ := length_legalActions (priorityForCtx_perm options ctx) hpos
  have hprime := (flights_le hpos (sideIndex s.sideToMove)).2
  unfold legalPushesCtx
  by_cases hflies : Flies s options
  · -- one restricted move cannot decide it: 73 is no product of the two counts
    obtain ⟨hle, hge⟩ := hfly hflies
    constructor
    · intro hfits _
      omega
    · intro hfits
      exact hle.trans (hfits hflies)
  · have hfew := hground hflies
    exact ⟨fun _ h => absurd h hflies, fun _ => by omega⟩

/--
**When the lists hold the actions.** The list of the rules always does. The list
of the search does exactly when the side to move either does not fly, or has few
enough pieces for the empty squares they can fly to.
-/
theorem legalActions_fit (r : MillRules) :
    (∀ snap, Reachable r snap → (r.legalActions snap).length ≤ actionListCapacity)
      ∧ ∀ s, SearchReachable r s → ∀ ctx,
          ((legalPushesCtx s r.options ctx).length ≤ searchActionCapacity
            ↔ (Flies s r.options →
              s.piecesOnBoard (sideIndex s.sideToMove) * s.emptySquareCount
                ≤ searchActionCapacity)) := by
  refine ⟨?_, fun s hreach ctx => legalPushesCtx_fit_iff hreach.inv.position ctx⟩
  intro snap hreach
  unfold actionListCapacity
  have hpos := hreach.inv.position
  obtain ⟨hground, hfly⟩ := length_legalActions (List.Perm.refl defaultDensePriority) hpos
  have hbound := (flights_le hpos
    (sideIndex (MillState.decodeWithOptions snap r.options).sideToMove)).1
  by_cases hflies : Flies (MillState.decodeWithOptions snap r.options) r.options
  · exact (hfly hflies).1.trans (hbound.trans (by omega))
  · exact (hground hflies).trans (by omega)

theorem innerRing_reachable :
    Reachable handRemovalRules
      (playLine handRemovalRules handRemovalRules.initialState innerRingLine) :=
  Reachable.initial.playLine (by decide +kernel)

/-- White flies once more; the next move is Black's. -/
def innerRingFlight : GameStateSnapshot :=
  playLine handRemovalRules handRemovalRules.initialState
    (innerRingLine ++ [moveAction 8 10])

theorem innerRingFlight_reachable : Reachable handRemovalRules innerRingFlight :=
  Reachable.initial.playLine (by decide +kernel)

/-- The theorem after four mills, each of which took a piece from the other hand: the nine pieces of
White have too many squares to fly to, the five of Black do not. -/
theorem legalActions_fit_innerRing :
    (handRemovalRules.legalActions innerRingFlight).length ≤ actionListCapacity
      ∧ ¬(legalPushesCtx (MillState.decodeWithOptions
            (playLine handRemovalRules handRemovalRules.initialState innerRingLine)
            handRemovalOptions) handRemovalOptions {}).length ≤ searchActionCapacity
      ∧ Flies (MillState.decodeWithOptions innerRingFlight handRemovalOptions) handRemovalOptions
      ∧ (legalPushesCtx (MillState.decodeWithOptions innerRingFlight handRemovalOptions)
          handRemovalOptions {}).length ≤ searchActionCapacity := by
  have hfit := (legalActions_fit handRemovalRules).2
  refine ⟨(legalActions_fit handRemovalRules).1 _ innerRingFlight_reachable, ?_, by decide +kernel,
    (hfit _ (SearchReachable.decode innerRingFlight_reachable) {}).2 (by decide +kernel)⟩
  intro hlength
  exact absurd ((hfit _ (SearchReachable.decode innerRing_reachable) {}).1 hlength)
    (by decide +kernel)

/-- **Nine flying pieces overflow the list of the search.** -/
theorem search_list_overflows :
    ¬∀ (r : MillRules) (s : MillState), SearchReachable r s →
      (legalPushesCtx s r.options {}).length ≤ searchActionCapacity := by
  intro hfits
  have h := hfits handRemovalRules _ (SearchReachable.decode innerRing_reachable)
  revert h
  decide +kernel

/-! ## The generators of the search -/

/-- What the search is promised of its generators on the workbench of a snapshot: they return, and
list the legal actions, each once, and of these the removals. -/
def GeneratesLegal (r : MillRules) (snap : GameStateSnapshot) (wb : MillWorkbench)
    (ctx : MoveOrderContext) : Prop :=
  ∃ actions, MillGame.generateLegalCtx wb ctx = some actions
    ∧ actions.Nodup ∧ actions.Perm (r.legalActions snap)
    ∧ MillGame.generateQuiescenceCtx wb ctx MillActionKind.remove.toI16
        = some (actions.filter fun action : Action =>
            action.kindTag = MillActionKind.remove.toI16)

/--
**The search considers exactly the legal actions, where its list holds them.** On the workbench
built from a snapshot, whatever the context, the search generates the actions of the rules in some
order, each once, and its quiescence removals are its legal removals, exactly when the side to move
does not fly or has few enough pieces for the empty squares. Otherwise the generator panics.
-/
theorem generateLegalCtx_perm_iff (r : MillRules) (rootRepetitionHistory : List Key)
    {snap : GameStateSnapshot} (hreach : Reachable r snap) (ctx : MoveOrderContext) :
    ∃ wb, MillGame.buildWorkbench ⟨r.options, rootRepetitionHistory⟩ snap = some wb
      ∧ (GeneratesLegal r snap wb ctx
        ↔ (Flies (MillState.decodeWithOptions snap r.options) r.options →
          (MillState.decodeWithOptions snap r.options).piecesOnBoard
              (sideIndex (MillState.decodeWithOptions snap r.options).sideToMove)
            * (MillState.decodeWithOptions snap r.options).emptySquareCount
            ≤ searchActionCapacity)) := by
  obtain ⟨wb, hbuild, hpushes, hperm⟩ := legalPushes_perm r rootRepetitionHistory snap
  refine ⟨wb, hbuild, ?_⟩
  rw [← legalPushesCtx_fit_iff hreach.inv.position ctx, ← hpushes]
  unfold GeneratesLegal
  rw [generateLegalCtx_eq]
  constructor
  · rintro ⟨actions, hreturns, -⟩
    by_contra hfull
    rw [if_neg hfull] at hreturns
    cases hreturns
  · intro hfits
    rw [if_pos hfits]
    refine ⟨_, rfl, (hperm ctx).1, (hperm ctx).2, ?_⟩
    rw [generateQuiescenceCtx_fits hfits, quiescencePushes_remove]

/-- The theorem where Black flies with five pieces. -/
theorem generateLegalCtx_perm_iff_innerRing :
    ∃ wb, MillGame.buildWorkbench ⟨handRemovalOptions, []⟩ innerRingFlight = some wb
      ∧ GeneratesLegal handRemovalRules innerRingFlight wb
          { shuffling := true, shuffleSeed := 7 } := by
  obtain ⟨wb, hbuild, hiff⟩ := generateLegalCtx_perm_iff handRemovalRules []
    innerRingFlight_reachable { shuffling := true, shuffleSeed := 7 }
  exact ⟨wb, hbuild, hiff.2 (by decide +kernel)⟩

/-- **A snapshot whose legal actions the search cannot list.** -/
theorem search_generator_panics :
    ¬∀ (r : MillRules) (rootRepetitionHistory : List Key) (snap : GameStateSnapshot),
      Reachable r snap → ∀ ctx,
        ∃ wb, MillGame.buildWorkbench ⟨r.options, rootRepetitionHistory⟩ snap = some wb
          ∧ GeneratesLegal r snap wb ctx := by
  intro hgenerates
  obtain ⟨wb, hbuild, actions, hreturns, -⟩ :=
    hgenerates handRemovalRules [] _ innerRing_reachable {}
  obtain ⟨wb', hbuild', hpushes, -⟩ := legalPushes_perm handRemovalRules []
    (playLine handRemovalRules handRemovalRules.initialState innerRingLine)
  obtain rfl : wb' = wb := Option.some_injective _ (hbuild'.symm.trans hbuild)
  have hmany : ¬(MillGame.legalPushes wb' {}).length ≤ searchActionCapacity := by
    rw [hpushes]
    decide +kernel
  rw [generateLegalCtx_eq, if_neg hmany] at hreturns
  cases hreturns

end Sanmill
