import Sanmill.Mill.Evaluation
import Sanmill.Mill.Transitions
import Sanmill.Proof.Sides

/-!
# The two boards agree

`MillPosition` keeps the board as piece codes and again as masks, with a count per
side. `PositionInv` says that the three agree; each primitive that writes the
board keeps it.
-/

namespace Sanmill

/-!
## The adjacency tables

Adjacency is a finite table, so its laws are checked by evaluation: the list and
the mask of a node agree, the relation is symmetric and irreflexive, and no mask
reaches past the board.
-/

open Bits

/-- `n` is a neighbour of `m` on the board with or without diagonals. -/
def Adjacent (diagonal : Bool) (m n : Node) : Prop := testBit (neighborMaskFor m diagonal) n = true

instance (diagonal : Bool) (m n : Node) : Decidable (Adjacent diagonal m n) :=
  inferInstanceAs (Decidable (_ = true))

theorem adjacent_comm (diagonal : Bool) (m n : Node) :
    Adjacent diagonal m n ↔ Adjacent diagonal n m := by
  have h : ∀ (d : Bool) (m n : Node),
      testBit (neighborMaskFor m d) n = testBit (neighborMaskFor n d) m := by
    decide +kernel
  unfold Adjacent
  rw [h]

theorem not_adjacent_self (diagonal : Bool) (n : Node) : ¬Adjacent diagonal n n := by
  have h : ∀ (d : Bool) (n : Node), testBit (neighborMaskFor n d) n = false := by
    decide +kernel
  unfold Adjacent
  rw [h]
  exact Bool.false_ne_true

theorem neighborMaskFor_below (diagonal : Bool) (m : Node) :
    ∀ i, testBit (neighborMaskFor m diagonal) i = true → i < 24 := by
  have h : ∀ (d : Bool) (m : Node), ∀ i < 32,
      testBit (neighborMaskFor m d) i = true → i < 24 := by
    decide +kernel
  exact fun i hi => h diagonal m i (testBit_lt hi) hi

/-- The ordered neighbour list and the neighbour mask of a node agree. -/
theorem mem_topologyNeighbors (diagonal : Bool) (m n : Node) :
    n ∈ topologyNeighbors diagonal m ↔ Adjacent diagonal m n := by
  have h : ∀ (d : Bool) (m n : Node),
      (topologyNeighbors d m).contains n = testBit (neighborMaskFor m d) n := by
    decide +kernel
  unfold Adjacent
  rw [← h, List.contains_iff_mem]

/-! ## Masks from the board -/

/-- A node is in the mask of `c` when a live piece of `c` stands on it. -/
theorem testBit_bitboardsFromBoard (board : Node → Int) (marks : Bitboard) (c : Side) (n : Node) :
    testBit (bitboardsFromBoard board marks c) n
      = (!testBit marks n && decide (board n = c.toI8 + 1)) := by
  -- the loop over the nodes adds a bit for each unmarked piece of the colour
  have hfold : ∀ (l : List Node) (acc : Bitboard),
      testBit (l.foldl (fun (byColor : Bitboard) (node : Node) =>
        if testBit marks node then byColor
        else if colorIndexForPiece (board node) = some c then byColor ||| nodeBit node
        else byColor) acc) n
      = (testBit acc n
        || decide (n ∈ l) && (!testBit marks n && decide (board n = c.toI8 + 1))) := by
    intro l
    induction l with
    | nil => intro acc; simp
    | cons m l ih =>
      intro acc
      rw [List.foldl_cons, ih]
      by_cases hmn : n = m
      · subst hmn
        cases testBit marks n
        · simp [colorIndexForPiece_eq_some_iff]
          split <;> rename_i hb <;> simp [hb]
        · simp
      · have hmem : (n ∈ m :: l) ↔ n ∈ l := by simp [hmn]
        have hbit : testBit (nodeBit m) n = false := by simp [Ne.symm hmn]
        rw [decide_eq_decide.2 hmem]
        congr 1
        split
        · rfl
        · split
          · rw [testBit_or, hbit, Bool.or_false]
          · rfl
  have := hfold (List.finRange 24) 0#32
  rw [testBit_zero, Bool.false_or, decide_eq_true (List.mem_finRange n), Bool.true_and] at this
  exact this

theorem bitboardsFromBoard_below (board : Node → Int) (marks : Bitboard) (c : Side) :
    ∀ i, testBit (bitboardsFromBoard board marks c) i = true → i < 24 := by
  have hfold : ∀ (l : List Node) (acc : Bitboard), (∀ i, testBit acc i = true → i < 24) →
      ∀ i, testBit (l.foldl (fun (byColor : Bitboard) (node : Node) =>
        if testBit marks node then byColor
        else if colorIndexForPiece (board node) = some c then byColor ||| nodeBit node
        else byColor) acc) i = true → i < 24 := by
    intro l
    induction l with
    | nil => exact fun _ h => h
    | cons m l ih =>
      intro acc hacc
      rw [List.foldl_cons]
      refine ih _ fun i hi => ?_
      split at hi
      · exact hacc i hi
      · split at hi
        · rw [testBit_or, Bool.or_eq_true] at hi
          rcases hi with hi | hi
          · exact hacc i hi
          · exact nodeBit_below hi
        · exact hacc i hi
  exact hfold _ _ fun i hi => by simp at hi

/-! ## The invariant -/

/-- The board, the masks and the counts of a position agree. -/
structure PositionInv (options : MillVariantOptions) (p : MillPosition) : Prop where
  /-- Every node is empty or holds a piece of one side. -/
  codes : ∀ n, p.board n = 0 ∨ ∃ c : Side, p.board n = c.toI8 + 1
  /-- Only board nodes are marked, and only where a piece stands. -/
  marks : ∀ i, testBit p.delayedMarkedPieces i = true → i < 24
  /-- A marked node holds a piece. -/
  marked : ∀ n : Node, testBit p.delayedMarkedPieces n = true → p.board n ≠ 0
  /-- The masks are those of the board. -/
  masks : p.byColorBb = bitboardsFromBoard p.board p.delayedMarkedPieces
  /-- The counts are those of the masks. -/
  counts : ∀ c, p.piecesOnBoard c = countOnes (p.byColorBb c)
  /-- No side has more pieces than it started with. -/
  material : ∀ c, p.piecesOnBoard c + p.piecesInHand c ≤ options.pieceCount
  /-- The cached mobility term is up to date. -/
  mobility : p.mobilityDiff = mobilityTerm p options

namespace PositionInv

variable {options : MillVariantOptions} {p : MillPosition} (h : PositionInv options p)

include h

/-- Which nodes a side's mask holds. -/
theorem testBit_byColorBb (c : Side) (n : Node) :
    testBit (p.byColorBb c) n
      = (!testBit p.delayedMarkedPieces n && decide (p.board n = c.toI8 + 1)) := by
  rw [h.masks, testBit_bitboardsFromBoard]

theorem byColorBb_below (c : Side) : ∀ i, testBit (p.byColorBb c) i = true → i < 24 := by
  rw [h.masks]
  exact bitboardsFromBoard_below _ _ c

theorem live_iff (c : Side) (n : Node) :
    testBit (p.byColorBb c) n = true
      ↔ testBit p.delayedMarkedPieces n = false ∧ p.board n = c.toI8 + 1 := by
  rw [h.testBit_byColorBb]
  simp

/-- A node is occupied when it holds a piece, live or marked. -/
theorem occupied_iff (n : Node) :
    testBit p.boardOccupiedBitboard n = true ↔ p.board n ≠ 0 := by
  unfold MillPosition.boardOccupiedBitboard MillPosition.liveOccupiedBitboard
  rw [testBit_or, testBit_or, h.testBit_byColorBb, h.testBit_byColorBb]
  cases hm : testBit p.delayedMarkedPieces n
  · rcases h.codes n with h0 | ⟨c, hc⟩
    · simp [h0, Side.toI8]
    · have hcases : ∀ d : Side, (decide (d.toI8 + 1 = Side.toI8 0 + 1)
          || decide (d.toI8 + 1 = Side.toI8 1 + 1)) = true := by decide
      rw [hc]
      simpa using hcases c
  · simpa using h.marked n hm

theorem empty_iff (n : Node) :
    testBit p.boardOccupiedBitboard n = false ↔ p.board n = 0 := by
  rw [← Bool.not_eq_true, h.occupied_iff, not_not]

end PositionInv

end Sanmill
