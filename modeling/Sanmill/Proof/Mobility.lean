import Mathlib.Algebra.BigOperators.Group.Finset.Sigma
import Mathlib.Algebra.BigOperators.Ring.Finset
import Mathlib.Tactic.Ring
import Sanmill.Proof.Position

/-!
# The incremental mobility term

Mobility counts pairs: a piece and an empty neighbour of it. `mobilityPairs` is
that count for two sets of nodes. It is additive in both sets and symmetric, so
putting a piece on `v` changes the term by the pairs `v` takes part in, which is
what `updateMobilityPlace` adds.
-/

namespace Sanmill

open Bits

/-- The nodes of a mask. -/
def nodeSet (mask : Bitboard) : Finset Node := Finset.univ.filter fun n => testBit mask n = true

@[simp] theorem mem_nodeSet (mask : Bitboard) (n : Node) :
    n ∈ nodeSet mask ↔ testBit mask n = true := by
  simp [nodeSet]

/-- Pairs of a node of `A` and a neighbour of it in `E`. -/
def mobilityPairs (diagonal : Bool) (A E : Finset Node) : Int :=
  ∑ a ∈ A, ∑ e ∈ E, if Adjacent diagonal a e then 1 else 0

theorem mobilityPairs_comm (diagonal : Bool) (A E : Finset Node) :
    mobilityPairs diagonal A E = mobilityPairs diagonal E A := by
  unfold mobilityPairs
  rw [Finset.sum_comm]
  refine Finset.sum_congr rfl fun e _ => Finset.sum_congr rfl fun a _ => ?_
  simp only [adjacent_comm diagonal a e]

theorem mobilityPairs_insert_left (diagonal : Bool) {A E : Finset Node} {v : Node} (hv : v ∉ A) :
    mobilityPairs diagonal (insert v A) E
      = mobilityPairs diagonal {v} E + mobilityPairs diagonal A E := by
  unfold mobilityPairs
  rw [Finset.sum_insert hv, Finset.sum_singleton]

theorem mobilityPairs_insert_right (diagonal : Bool) {A E : Finset Node} {v : Node}
    (hv : v ∉ E) :
    mobilityPairs diagonal A (insert v E)
      = mobilityPairs diagonal {v} A + mobilityPairs diagonal A E := by
  rw [mobilityPairs_comm, mobilityPairs_insert_left diagonal hv,
    mobilityPairs_comm diagonal E A]

theorem mobilityPairs_singleton_insert (diagonal : Bool) (E : Finset Node) (v : Node) :
    mobilityPairs diagonal {v} (insert v E) = mobilityPairs diagonal {v} E := by
  unfold mobilityPairs
  rw [Finset.sum_singleton, Finset.sum_singleton]
  by_cases hv : v ∈ E
  · rw [Finset.insert_eq_of_mem hv]
  · rw [Finset.sum_insert hv, if_neg (not_adjacent_self diagonal v), zero_add]

/-! ## The machine's counts -/

/-- `count_ones` of a neighbour mask cut with `mask` counts pairs. -/
theorem countOnes_neighbors (diagonal : Bool) (v : Node) (mask : Bitboard) :
    (countOnes (neighborMaskFor v diagonal &&& mask) : Int)
      = mobilityPairs diagonal {v} (nodeSet mask) := by
  rw [countOnes_eq_card_fin _ 24]
  · unfold mobilityPairs
    rw [Finset.sum_singleton, Finset.sum_boole]
    congr 2
    ext n
    rw [Finset.mem_filter, Finset.mem_filter, mem_nodeSet, testBit_and, Bool.and_eq_true]
    simp only [Finset.mem_univ, true_and, Adjacent, and_comm]
  · intro i hi
    rw [testBit_and, Bool.and_eq_true] at hi
    exact neighborMaskFor_below diagonal v i hi.1

theorem mobilityOf_eq (options : MillVariantOptions) (colorBb liveEmpty : Bitboard) :
    mobilityOf options colorBb liveEmpty
      = mobilityPairs options.hasDiagonalLines (nodeSet colorBb) (nodeSet liveEmpty) := by
  have hsum : ∀ (l : List Node) (acc : Int),
      l.foldl (fun total node =>
        total + (countOnes (neighborMaskFor node options.hasDiagonalLines &&& liveEmpty) : Int)) acc
      = acc + (l.map fun node =>
          mobilityPairs options.hasDiagonalLines {node} (nodeSet liveEmpty)).sum := by
    intro l
    induction l with
    | nil => intro acc; simp
    | cons n l ih =>
      intro acc
      rw [List.foldl_cons, ih, List.map_cons, List.sum_cons, countOnes_neighbors, add_assoc]
  have hset : nodeSet colorBb = (maskNodes colorBb).toFinset := by
    ext n
    simp
  unfold mobilityOf
  rw [hsum, zero_add, hset]
  have hnd : (maskNodes colorBb).Nodup := (List.nodup_finRange 24).filter _
  rw [← List.sum_toFinset _ hnd]
  unfold mobilityPairs
  simp only [Finset.sum_singleton]

/-- The nodes no live piece stands on. -/
def liveEmptySet (p : MillPosition) : Finset Node :=
  Finset.univ.filter fun n =>
    testBit (p.byColorBb 0) n = false ∧ testBit (p.byColorBb 1) n = false

theorem nodeSet_not_live (p : MillPosition) :
    nodeSet (~~~p.liveOccupiedBitboard &&& millBoardMask) = liveEmptySet p := by
  have hboard : ∀ n : Node, testBit millBoardMask n = true := by decide
  ext n
  simp [liveEmptySet, MillPosition.liveOccupiedBitboard, hboard,
    testBit_not _ (show n.val < 32 by omega)]

theorem calculateMobilityDiff_eq (p : MillPosition) (options : MillVariantOptions) :
    calculateMobilityDiff p options
      = mobilityPairs options.hasDiagonalLines (nodeSet (p.byColorBb 0)) (liveEmptySet p)
        - mobilityPairs options.hasDiagonalLines (nodeSet (p.byColorBb 1)) (liveEmptySet p) := by
  simp only [calculateMobilityDiff]
  rw [mobilityOf_eq, mobilityOf_eq, nodeSet_not_live]

theorem adjacentMobilityCounts_eq (p : MillPosition) (options : MillVariantOptions) (v : Node) :
    adjacentMobilityCounts p options v
      = (mobilityPairs options.hasDiagonalLines {v} (nodeSet (p.byColorBb 0)),
        mobilityPairs options.hasDiagonalLines {v} (nodeSet (p.byColorBb 1)),
        mobilityPairs options.hasDiagonalLines {v} (liveEmptySet p)) := by
  have hset : nodeSet (~~~p.liveOccupiedBitboard) = liveEmptySet p := by
    ext n
    simp [liveEmptySet, MillPosition.liveOccupiedBitboard,
      testBit_not _ (show n.val < 32 by omega)]
  simp only [adjacentMobilityCounts]
  rw [countOnes_neighbors, countOnes_neighbors, countOnes_neighbors, hset]

/-! ## One piece more -/

/-- `q` is `p` with a live piece of `c` added on `v`, as far as the masks say. -/
structure AddsPiece (p q : MillPosition) (v : Node) (c : Side) : Prop where
  wasEmpty : ∀ d, testBit (p.byColorBb d) v = false
  own : q.byColorBb c = p.byColorBb c ||| nodeBit v
  other : q.byColorBb c.opponent = p.byColorBb c.opponent

namespace AddsPiece

variable {p q : MillPosition} {v : Node} {c : Side} (h : AddsPiece p q v c)

include h

theorem nodeSet_own : nodeSet (q.byColorBb c) = insert v (nodeSet (p.byColorBb c)) := by
  ext n
  rw [h.own, mem_nodeSet, testBit_or, Finset.mem_insert, mem_nodeSet, testBit_nodeBit,
    Bool.or_eq_true, decide_eq_true_eq, or_comm, eq_comm (a := v)]

theorem liveEmptySet_insert : liveEmptySet p = insert v (liveEmptySet q) := by
  have hc := h.own
  have ho := h.other
  ext n
  simp only [liveEmptySet, Finset.mem_filter, Finset.mem_univ, true_and, Finset.mem_insert]
  have key : ∀ d, testBit (q.byColorBb d) n
      = (testBit (p.byColorBb d) n || decide (d = c) && decide (v = n)) := by
    rw [Side.forall_iff c]
    constructor
    · rw [hc]
      simp
    · rw [ho]
      simp
  rw [key, key]
  by_cases hvn : v = n
  · subst hvn
    simp [h.wasEmpty]
  · simp [hvn, Ne.symm hvn]

theorem notMem_liveEmptySet : v ∉ liveEmptySet q := by
  have hbit : testBit (q.byColorBb c) v = true := by
    rw [h.own]
    simp
  simp only [liveEmptySet, Finset.mem_filter, Finset.mem_univ, true_and, not_and,
    Bool.not_eq_false]
  rcases Side.eq_or_eq_opponent 0 c with rfl | rfl
  · intro h0
    rw [hbit] at h0
    exact absurd h0 (by simp)
  · exact fun _ => hbit

/-- Looked at from `v` itself, the board before and after differ in empty nodes only. -/
theorem pairs_color (diagonal : Bool) (d : Side) :
    mobilityPairs diagonal {v} (nodeSet (q.byColorBb d))
      = mobilityPairs diagonal {v} (nodeSet (p.byColorBb d)) := by
  rcases Side.eq_or_eq_opponent c d with rfl | rfl
  · rw [h.nodeSet_own, mobilityPairs_singleton_insert]
  · rw [h.other]

/-- **Putting a piece on the board changes mobility by its own pairs.** -/
theorem calculateMobilityDiff_add (options : MillVariantOptions) :
    calculateMobilityDiff q options
      = calculateMobilityDiff p options
        - mobilityPairs options.hasDiagonalLines {v} (nodeSet (q.byColorBb 0))
        + mobilityPairs options.hasDiagonalLines {v} (nodeSet (q.byColorBb 1))
        + (if c = 0 then mobilityPairs options.hasDiagonalLines {v} (liveEmptySet q)
          else -mobilityPairs options.hasDiagonalLines {v} (liveEmptySet q)) := by
  have hv : v ∉ nodeSet (p.byColorBb c) := by
    rw [mem_nodeSet, h.wasEmpty]
    exact Bool.false_ne_true
  rw [h.pairs_color, h.pairs_color, calculateMobilityDiff_eq, calculateMobilityDiff_eq,
    h.liveEmptySet_insert, mobilityPairs_insert_right _ h.notMem_liveEmptySet,
    mobilityPairs_insert_right _ h.notMem_liveEmptySet]
  have hown := h.nodeSet_own
  have hother := congrArg nodeSet h.other
  rcases Side.eq_or_eq_opponent 0 c with rfl | rfl
  · have hother' : nodeSet (q.byColorBb 1) = nodeSet (p.byColorBb 1) := hother
    rw [hown, hother', mobilityPairs_insert_left _ hv]
    simp only [if_true]
    ring
  · have hother' : nodeSet (q.byColorBb 0) = nodeSet (p.byColorBb 0) := hother
    have hown' : nodeSet (q.byColorBb 1) = insert v (nodeSet (p.byColorBb 1)) := hown
    have hv' : v ∉ nodeSet (p.byColorBb 1) := hv
    rw [hown', hother', mobilityPairs_insert_left _ hv']
    simp only [Side.opponent_ne, if_false]
    ring

end AddsPiece

/-! ## The invariant across one piece -/

namespace PositionInv

variable {options : MillVariantOptions} {p q : MillPosition} {v : Node} {c : Side}

/-- **A piece of `c` appears on an empty node.** -/
theorem add (h : PositionInv options p) (hempty : p.board v = 0)
    (hboard : q.board = setAt p.board v (c.toI8 + 1))
    (hmarks : q.delayedMarkedPieces = p.delayedMarkedPieces)
    (hmasks : q.byColorBb = setAt p.byColorBb c (p.byColorBb c ||| nodeBit v))
    (hcounts : q.piecesOnBoard = setAt p.piecesOnBoard c (p.piecesOnBoard c + 1))
    (hmaterial : ∀ d, q.piecesOnBoard d + q.piecesInHand d ≤ options.pieceCount)
    (hmobility : q.mobilityDiff =
      if shouldConsiderMobility options then
        p.mobilityDiff - (adjacentMobilityCounts q options v).1
          + (adjacentMobilityCounts q options v).2.1
          + (if c = 0 then (adjacentMobilityCounts q options v).2.2
            else -(adjacentMobilityCounts q options v).2.2)
      else p.mobilityDiff) : PositionInv options q := by
  -- the node was empty, so it was neither marked nor in a bitboard
  have hunmarked : testBit p.delayedMarkedPieces v = false := by
    rw [Bool.eq_false_iff]
    exact fun e => h.marked v e hempty
  have hclear : ∀ d, testBit (p.byColorBb d) v = false := fun d => by
    rw [h.testBit_byColorBb, hempty, decide_eq_false (Side.piece_ne_zero d).symm, Bool.and_false]
  have hadds : AddsPiece p q v c :=
    ⟨hclear, by rw [hmasks]; simp, by rw [hmasks]; simp⟩
  refine ⟨fun n => ?_, ?_, fun n hn => ?_, ?_, fun d => ?_, hmaterial, ?_⟩
  · by_cases hn : n = v
    · subst hn
      exact Or.inr ⟨c, by rw [hboard]; simp⟩
    · rw [hboard, setAt_of_ne hn]
      exact h.codes n
  · rw [hmarks]
    exact h.marks
  · rw [hmarks] at hn
    have hne : n ≠ v := by
      rintro rfl
      rw [hunmarked] at hn
      exact Bool.false_ne_true hn
    rw [hboard, setAt_of_ne hne]
    exact h.marked n hn
  -- the masks are those of the new board, point by point
  · funext d
    refine mask_ext ?_ (bitboardsFromBoard_below _ _ _) fun n => ?_
    · rw [hmasks]
      intro i hi
      by_cases hd : d = c
      · subst hd
        rw [setAt_self, testBit_or, Bool.or_eq_true] at hi
        exact hi.elim (h.byColorBb_below d i) nodeBit_below
      · rw [setAt_of_ne hd] at hi
        exact h.byColorBb_below d i hi
    · rw [testBit_bitboardsFromBoard, hmarks, hboard, hmasks]
      by_cases hn : n = v
      · subst hn
        by_cases hd : d = c
        · subst hd
          simp [hunmarked]
        · rw [setAt_of_ne hd, hclear d, setAt_self, hunmarked]
          simp [Ne.symm hd]
      · rw [setAt_of_ne hn, ← h.testBit_byColorBb]
        by_cases hd : d = c
        · subst hd
          rw [setAt_self, testBit_or, testBit_nodeBit, decide_eq_false (Ne.symm hn),
            Bool.or_false]
        · rw [setAt_of_ne hd]
  · rw [hcounts, hmasks]
    by_cases hd : d = c
    · subst hd
      rw [setAt_self, setAt_self, h.counts d, nodeBit,
        countOnes_or_bit _ (by omega) (hclear d)]
    · rw [setAt_of_ne hd, setAt_of_ne hd, h.counts d]
  -- mobility changes around the new piece only
  · rw [hmobility, h.mobility]
    unfold mobilityTerm
    split
    · rw [hadds.calculateMobilityDiff_add, adjacentMobilityCounts_eq]
    · rfl

/-- **A live piece of `c` goes away**, taken from the board or marked on it. -/
theorem drop (h : PositionInv options p) (hlive : testBit (p.byColorBb c) v = true)
    (hboard : (q.board = setAt p.board v 0
        ∧ q.delayedMarkedPieces = p.delayedMarkedPieces)
      ∨ (q.board = p.board ∧ q.delayedMarkedPieces = p.delayedMarkedPieces ||| nodeBit v))
    (hmasks : q.byColorBb = setAt p.byColorBb c (p.byColorBb c &&& ~~~nodeBit v))
    (hcounts : q.piecesOnBoard = setAt p.piecesOnBoard c (p.piecesOnBoard c - 1))
    (hhands : q.piecesInHand = p.piecesInHand)
    (hmobility : q.mobilityDiff =
      if shouldConsiderMobility options then
        p.mobilityDiff + (adjacentMobilityCounts p options v).1
          - (adjacentMobilityCounts p options v).2.1
          + (if c = 0 then -(adjacentMobilityCounts p options v).2.2
            else (adjacentMobilityCounts p options v).2.2)
      else p.mobilityDiff) : PositionInv options q := by
  obtain ⟨hunmarked, hpiece⟩ := (h.live_iff c v).1 hlive
  have hother : testBit (p.byColorBb c.opponent) v = false := by
    rw [h.testBit_byColorBb, hpiece]
    simp
  have hadds : AddsPiece q p v c := by
    refine ⟨?_, ?_, by rw [hmasks]; simp⟩
    · rw [Side.forall_iff c, hmasks, setAt_self, testBit_and_not, testBit_nodeBit,
        setAt_of_ne (Side.opponent_ne c)]
      simp [hother]
    · rw [hmasks, setAt_self, and_not_or_nodeBit hlive]
  -- both ways of taking the piece leave the other nodes alone
  have hother_nodes : ∀ n, n ≠ v → q.board n = p.board n
      ∧ testBit q.delayedMarkedPieces n = testBit p.delayedMarkedPieces n := by
    intro n hn
    rcases hboard with ⟨hb, hm⟩ | ⟨hb, hm⟩
    · rw [hb, hm, setAt_of_ne hn]
      exact ⟨rfl, rfl⟩
    · rw [hb, hm, testBit_or, testBit_nodeBit, decide_eq_false (Ne.symm hn), Bool.or_false]
      exact ⟨rfl, rfl⟩
  have hgone : q.board v = 0 ∨ testBit q.delayedMarkedPieces v = true := by
    rcases hboard with ⟨hb, _⟩ | ⟨_, hm⟩
    · exact Or.inl (by rw [hb, setAt_self])
    · exact Or.inr (by rw [hm]; simp)
  refine ⟨fun n => ?_, fun i hi => ?_, fun n hn => ?_, ?_, fun d => ?_, fun d => ?_, ?_⟩
  · by_cases hn : n = v
    · subst hn
      rcases hboard with ⟨hb, _⟩ | ⟨hb, _⟩
      · exact Or.inl (by rw [hb, setAt_self])
      · rw [hb]
        exact h.codes n
    · rw [(hother_nodes n hn).1]
      exact h.codes n
  · rcases hboard with ⟨_, hm⟩ | ⟨_, hm⟩
    · rw [hm] at hi
      exact h.marks i hi
    · rw [hm, testBit_or, Bool.or_eq_true] at hi
      exact hi.elim (h.marks i) nodeBit_below
  · by_cases hnv : n = v
    · subst hnv
      rcases hboard with ⟨_, hm⟩ | ⟨hb, _⟩
      · rw [hm, hunmarked] at hn
        exact absurd hn Bool.false_ne_true
      · rw [hb, hpiece]
        exact Side.piece_ne_zero c
    · rw [(hother_nodes n hnv).1]
      rw [(hother_nodes n hnv).2] at hn
      exact h.marked n hn
  · funext d
    refine mask_ext ?_ (bitboardsFromBoard_below _ _ _) fun n => ?_
    · rw [hmasks]
      intro i hi
      by_cases hd : d = c
      · subst hd
        rw [setAt_self, testBit_and_not, Bool.and_eq_true] at hi
        exact h.byColorBb_below d i hi.1
      · rw [setAt_of_ne hd] at hi
        exact h.byColorBb_below d i hi
    · rw [testBit_bitboardsFromBoard]
      by_cases hn : n = v
      · subst hn
        have hright : (!testBit q.delayedMarkedPieces n && decide (q.board n = d.toI8 + 1))
            = false := by
          rcases hgone with hb | hm
          · rw [hb]
            have := Side.piece_ne_zero d
            simp [Ne.symm this]
          · rw [hm]
            rfl
        rw [hright]
        exact hadds.wasEmpty d
      · rw [(hother_nodes n hn).1, (hother_nodes n hn).2, ← h.testBit_byColorBb, hmasks]
        by_cases hd : d = c
        · subst hd
          rw [setAt_self, testBit_and_not, testBit_nodeBit,
            decide_eq_false (Ne.symm hn)]
          simp
        · rw [setAt_of_ne hd]
  · rw [hcounts, hmasks]
    by_cases hd : d = c
    · subst hd
      have := countOnes_and_not_bit (p.byColorBb d) hlive
      rw [setAt_self, setAt_self, h.counts d, nodeBit]
      omega
    · rw [setAt_of_ne hd, setAt_of_ne hd, h.counts d]
  · have := h.material d
    rw [hcounts, hhands]
    by_cases hd : d = c
    · subst hd
      rw [setAt_self]
      omega
    · rw [setAt_of_ne hd]
      exact this
  · rw [hmobility, h.mobility]
    unfold mobilityTerm
    split
    · have hsum := hadds.calculateMobilityDiff_add options
      rw [adjacentMobilityCounts_eq]
      by_cases hc : c = 0
      · simp only [hc, if_true] at hsum ⊢
        omega
      · simp only [hc, if_false] at hsum ⊢
        omega
    · rfl

end PositionInv

end Sanmill
