import Sanmill.Mill.LegalApply
import Sanmill.Proof.Mobility

/-!
# Board writes keep the position

The apply path writes the board in four ways: a piece is placed, moved, taken (or
marked), and the marked pieces are swept away. Each keeps `PositionInv`. A move is
a piece leaving followed by a piece arriving, with a position in between that the
source never stores.
-/

namespace Sanmill

open Bits

variable {options : MillVariantOptions} {s : MillState} {c : Side} {n : Node}

/-! ## What a live piece says -/

namespace PositionInv

variable {p : MillPosition}

/-- A live piece has been counted. -/
theorem one_le_count (h : PositionInv options p) (hlive : testBit (p.byColorBb c) n = true) :
    1 ≤ p.piecesOnBoard c := by
  rw [h.counts c, Nat.one_le_iff_ne_zero, Ne, countOnes_eq_zero_iff]
  exact (ne_zero_iff_testBit _).2 ⟨n, hlive⟩

/-- A node holds a live piece of at most one side. -/
theorem live_unique (h : PositionInv options p) {d : Side}
    (hc : testBit (p.byColorBb c) n = true) (hd : testBit (p.byColorBb d) n = true) : c = d := by
  have h1 := ((h.live_iff c n).1 hc).2
  have h2 := ((h.live_iff d n).1 hd).2
  exact Side.toI8_injective (by omega)

theorem clearColorAt_live (h : PositionInv options p)
    (hlive : testBit (p.byColorBb c) n = true) :
    p.clearColorAt n = setAt p.byColorBb c (p.byColorBb c &&& ~~~nodeBit n) := by
  unfold MillPosition.clearColorAt
  rw [((h.live_iff c n).1 hlive).2, Side.colorIndexForPiece_toI8]

theorem livePiece_live (h : PositionInv options p)
    (hlive : testBit (p.byColorBb c) n = true) : p.livePiece n = c.toI8 + 1 := by
  obtain ⟨hm, hb⟩ := (h.live_iff c n).1 hlive
  simp [MillPosition.livePiece, MillPosition.isMarked, hm, hb]

/-- An empty node is in no mask. -/
theorem not_live_of_empty (h : PositionInv options p) (hn : p.board n = 0) (d : Side) :
    testBit (p.byColorBb d) n = false := by
  rw [h.testBit_byColorBb, hn, decide_eq_false (Side.piece_ne_zero d).symm, Bool.and_false]

/-- The hands only matter for the material bound. -/
theorem withHands (h : PositionInv options p) {hands : Side → Nat}
    (hle : ∀ d, hands d ≤ p.piecesInHand d) :
    PositionInv options { p with piecesInHand := hands } where
  codes := h.codes
  marks := h.marks
  marked := h.marked
  masks := h.masks
  counts := h.counts
  material d := le_trans (Nat.add_le_add_left (hle d) _) (h.material d)
  mobility := h.mobility

end PositionInv

theorem piece_eq_one_iff (c : Side) : c.toI8 + 1 = 1 ↔ c = 0 := by
  revert c; decide

/-! ## Placing -/

variable (r : MillRules)

theorem placePiece_position (h : PositionInv r.options s.toMillPosition) (hempty : s.board n = 0)
    (hhand : 0 < s.piecesInHand c) :
    PositionInv r.options (r.placePiece s n c).toMillPosition := by
  refine h.add hempty rfl rfl rfl rfl (fun d => ?_) rfl
  have hm := h.material d
  change setAt s.piecesOnBoard c (s.piecesOnBoard c + 1) d
    + setAt s.piecesInHand c (s.piecesInHand c - 1) d ≤ _
  by_cases hd : d = c
  · subst hd
    rw [setAt_self, setAt_self]
    omega
  · rw [setAt_of_ne hd, setAt_of_ne hd]
    exact hm

/-! ## Taking -/

/-- The board with the piece of `c` on `n` lifted off it, in the hand of nobody. -/
def liftedPosition (options : MillVariantOptions) (s : MillState) (n : Node) (c : Side) :
    MillPosition :=
  { s.toMillPosition with
    board := setAt s.board n 0
    byColorBb := setAt s.byColorBb c (s.byColorBb c &&& ~~~nodeBit n)
    piecesOnBoard := setAt s.piecesOnBoard c (s.piecesOnBoard c - 1)
    mobilityDiff := (updateMobilityRemove s options n).mobilityDiff }

/-- What `updateMobilityRemove` adds when a live piece of `c` stands on the node. -/
theorem updateMobilityRemove_live (h : PositionInv options s.toMillPosition)
    (hlive : testBit (s.byColorBb c) n = true) :
    (updateMobilityRemove s options n).mobilityDiff =
      if shouldConsiderMobility options then
        s.mobilityDiff + (adjacentMobilityCounts s.toMillPosition options n).1
          - (adjacentMobilityCounts s.toMillPosition options n).2.1
          + (if c = 0 then -(adjacentMobilityCounts s.toMillPosition options n).2.2
            else (adjacentMobilityCounts s.toMillPosition options n).2.2)
      else s.mobilityDiff := by
  simp only [updateMobilityRemove, h.livePiece_live hlive, piece_eq_one_iff]

theorem liftedPosition_inv (h : PositionInv options s.toMillPosition)
    (hlive : testBit (s.byColorBb c) n = true) :
    PositionInv options (liftedPosition options s n c) :=
  h.drop hlive (.inl ⟨rfl, rfl⟩) rfl rfl rfl (updateMobilityRemove_live h hlive)

/-- The state after a piece of `targetColor` is taken and counted off. -/
def takeCounted (state : MillState) (n : Node) (targetColor : Side) (markPending : Bool) :
    MillState :=
  let state := r.takePiece state n targetColor markPending
  { state with
    piecesOnBoard := setAt state.piecesOnBoard targetColor (state.piecesOnBoard targetColor - 1) }

theorem takeCounted_position (h : PositionInv r.options s.toMillPosition)
    (hlive : testBit (s.byColorBb c) n = true) (markPending : Bool) :
    PositionInv r.options (takeCounted r s n c markPending).toMillPosition := by
  cases markPending with
  | false => exact liftedPosition_inv h hlive
  | true =>
    exact h.drop hlive (.inr ⟨rfl, rfl⟩) (h.clearColorAt_live hlive) rfl rfl
      (updateMobilityRemove_live h hlive)

/-! ## Moving -/

theorem movePiece_position {source target : Node} (h : PositionInv r.options s.toMillPosition)
    (hlive : testBit (s.byColorBb c) source = true) (hempty : s.board target = 0) :
    PositionInv r.options (r.movePiece s source target c).toMillPosition := by
  have hne : target ≠ source := by
    rintro rfl
    rw [h.not_live_of_empty hempty] at hlive
    exact Bool.false_ne_true hlive
  have hlifted := liftedPosition_inv h hlive
  have hcount := h.one_le_count hlive
  refine hlifted.add (v := target) (c := c) ?_ rfl rfl ?_ ?_ ?_ rfl
  · change setAt s.board source 0 target = 0
    rw [setAt_of_ne hne]
    exact hempty
  · change setAt s.byColorBb c _ = setAt (setAt s.byColorBb c _) c (setAt s.byColorBb c _ c ||| _)
    rw [setAt_self]
    unfold setAt
    rw [Function.update_idem]
    rfl
  · change s.piecesOnBoard
      = setAt (setAt s.piecesOnBoard c _) c (setAt s.piecesOnBoard c (s.piecesOnBoard c - 1) c + 1)
    rw [setAt_self, Nat.sub_add_cancel hcount]
    unfold setAt
    rw [Function.update_idem, Function.update_eq_self]
  · exact h.material

/-! ## Sweeping -/

/-- What the sweep leaves on a node. -/
def sweptBoard (p : MillPosition) (n : Node) : Int :=
  if testBit p.delayedMarkedPieces n then 0 else p.board n

/-- Clearing marked nodes one by one empties them and changes nothing else. -/
theorem foldl_setBoardNode_marked (h : PositionInv options s.toMillPosition) :
    ∀ (l : List Node) (t : MillState), (∀ n ∈ l, testBit s.delayedMarkedPieces n = true) →
      t.byColorBb = s.byColorBb →
      l.foldl (fun t node => t.setBoardNode node 0) t
        = { t with board := fun n => if n ∈ l then 0 else t.board n } := by
  intro l
  induction l with
  | nil => intro t _ _; simp
  | cons m l ih =>
    intro t hl hmasks
    -- a marked piece counts for no colour, so clearing its node changes no bitboard
    have hcleared : t.clearColorAt m = t.byColorBb := by
      unfold MillPosition.clearColorAt
      split
      · rename_i c _
        have hnot : testBit (t.byColorBb c) m = false := by
          rw [hmasks, h.testBit_byColorBb, hl m (by simp)]
          rfl
        rw [and_not_nodeBit_of_not hnot]
        unfold setAt
        rw [Function.update_eq_self]
      · rfl
    have hset : t.setBoardNode m 0 = { t with board := setAt t.board m 0 } := by
      simp only [MillState.setBoardNode, hcleared, colorIndexForPiece_zero, ite_self]
    have hrest := ih { t with board := setAt t.board m 0 } (fun n hn => hl n (by simp [hn])) hmasks
    rw [List.foldl_cons, hset, hrest]
    congr 2
    funext n
    by_cases hn : n = m
    · subst hn
      simp
    · simp [hn]

/-- **The sweep empties the marked nodes and forgets the marks.** -/
theorem sweepMarkedPieces_eq (h : PositionInv options s.toMillPosition) :
    sweepMarkedPieces s
      = { s with board := sweptBoard s.toMillPosition, delayedMarkedPieces := 0 } := by
  unfold sweepMarkedPieces
  split
  · rw [foldl_setBoardNode_marked h _ s (fun n hn => (mem_maskNodes _ n).1 hn) rfl]
    simp only [mem_maskNodes]
    rfl
  · rename_i hz
    rw [not_not] at hz
    have hboard : s.board = sweptBoard s.toMillPosition := by
      funext n
      simp [sweptBoard, hz]
    rw [← hboard, ← hz]

theorem sweep_position (h : PositionInv options s.toMillPosition) :
    PositionInv options
      { s.toMillPosition with
        board := sweptBoard s.toMillPosition, delayedMarkedPieces := 0 } where
  codes n := by
    simp only [sweptBoard]
    split
    · exact Or.inl rfl
    · exact h.codes n
  marks i hi := by simp at hi
  marked n hn := by simp at hn
  masks := by
    refine funext fun c => mask_ext (h.byColorBb_below c)
      (bitboardsFromBoard_below _ _ c) fun n => ?_
    rw [h.testBit_byColorBb, testBit_bitboardsFromBoard]
    unfold sweptBoard
    cases hm : testBit s.delayedMarkedPieces n
    · simp [hm]
    · simp [hm, (Side.piece_ne_zero c).symm]
  counts := h.counts
  material := h.material
  mobility := h.mobility

end Sanmill
