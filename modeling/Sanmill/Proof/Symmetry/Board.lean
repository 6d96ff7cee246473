import Sanmill.Lib.MaskImage
import Sanmill.Mill.Captures
import Sanmill.Mill.OpeningBook
import Sanmill.Proof.Position

/-!
# The transforms are symmetries of the board

The sixteen transforms form a group of permutations of the nodes. They carry
neighbours to neighbours and every family of lines onto itself, middle node to middle
node.
-/

namespace Sanmill

open Bits

/-! ## The group -/

/-- A law of two transforms, checked on the tables. -/
theorem transform_inverse (t : BoardTransform) (n : Node) :
    transformOpeningBookNode (transformOpeningBookNode n t)
      (inverseOpeningBookTransform t) = n := by
  have hall : ((List.finRange 16).all fun t => (List.finRange 24).all fun n =>
      decide (transformOpeningBookNode (transformOpeningBookNode n t)
        (inverseOpeningBookTransform t) = n)) = true := by
    decide +kernel
  rw [List.all_eq_true] at hall
  have := hall t (List.mem_finRange t)
  rw [List.all_eq_true] at this
  exact of_decide_eq_true (this n (List.mem_finRange n))

theorem inverse_inverse (t : BoardTransform) :
    inverseOpeningBookTransform (inverseOpeningBookTransform t) = t := by
  revert t
  decide

theorem inverse_transform (t : BoardTransform) (n : Node) :
    transformOpeningBookNode (transformOpeningBookNode n (inverseOpeningBookTransform t)) t
      = n := by
  have := transform_inverse (inverseOpeningBookTransform t) n
  rwa [inverse_inverse] at this

theorem transform_zero (n : Node) : transformOpeningBookNode n 0 = n := by
  revert n
  decide

theorem transform_comp (t u : BoardTransform) : ∃ v, ∀ n,
    transformOpeningBookNode n v = transformOpeningBookNode (transformOpeningBookNode n t) u := by
  have hall : ((List.finRange 16).all fun t => (List.finRange 16).all fun u =>
      (List.finRange 16).any fun v => (List.finRange 24).all fun n =>
        decide (transformOpeningBookNode n v
          = transformOpeningBookNode (transformOpeningBookNode n t) u)) = true := by
    decide +kernel
  rw [List.all_eq_true] at hall
  have ht := hall t (List.mem_finRange t)
  rw [List.all_eq_true] at ht
  obtain ⟨v, -, hv⟩ := List.any_eq_true.1 (ht u (List.mem_finRange u))
  rw [List.all_eq_true] at hv
  exact ⟨v, fun n => of_decide_eq_true (hv n (List.mem_finRange n))⟩

/-- Two quarter turns are a half turn. -/
example : ∀ n, transformOpeningBookNode (transformOpeningBookNode n 1) 1
    = transformOpeningBookNode n 2 := by decide +kernel

/-- A transform as a permutation of the nodes. -/
def nodePerm (t : BoardTransform) : Equiv.Perm Node where
  toFun n := transformOpeningBookNode n t
  invFun n := transformOpeningBookNode n (inverseOpeningBookTransform t)
  left_inv := transform_inverse t
  right_inv := inverse_transform t

variable {t : BoardTransform}

/-! ## Images of nodes and masks -/

/-- The permutation of the bits of a board mask. -/
def wordPerm (t : BoardTransform) : Equiv.Perm (Fin 32) := widen 8 (nodePerm t)

/-- `b` is the image of the node mask `a`. -/
abbrev NodeImage (t : BoardTransform) (a b : Bitboard) : Prop := MaskImage (wordPerm t) a b

theorem NodeImage.node {a b : Bitboard} (h : NodeImage t a b) (n : Node) :
    testBit b (nodePerm t n) = testBit a n := by
  have := h (Fin.castAdd 8 n)
  rw [wordPerm, widen_low] at this
  exact this

theorem NodeImage.ne_zero_iff {a b : Bitboard} (h : NodeImage t a b) : b ≠ 0 ↔ a ≠ 0 :=
  not_congr h.eq_zero_iff.symm

theorem NodeImage.decide_ne_zero {a b : Bitboard} (h : NodeImage t a b) :
    decide (b ≠ 0) = decide (a ≠ 0) :=
  decide_eq_decide.2 h.ne_zero_iff

theorem nodeImage_zero (t : BoardTransform) : NodeImage t 0 0 := MaskImage.zero _

theorem nodeImage_of {a b : Bitboard} (h : ∀ n, testBit b (nodePerm t n) = testBit a n)
    (ha : ∀ i, testBit a i = true → i < 24) (hb : ∀ i, testBit b i = true → i < 24) :
    NodeImage t a b :=
  maskImage_widen (k := 8) h ha hb

theorem nodeImage_nodeBit (n : Node) : NodeImage t (nodeBit n) (nodeBit (nodePerm t n)) := by
  refine nodeImage_of (fun m => ?_) (fun _ => nodeBit_below) (fun _ => nodeBit_below)
  rw [testBit_nodeBit, testBit_nodeBit, decide_eq_decide]
  exact (nodePerm t).injective.eq_iff

/-- A union over nodes is carried to the union over their images. -/
theorem mem_maskNodes_image {a b : Bitboard} (h : NodeImage t a b) (n : Node) :
    nodePerm t n ∈ maskNodes b ↔ n ∈ maskNodes a := by
  unfold maskNodes
  rw [List.mem_filter, List.mem_filter, h.node]
  simp only [List.mem_finRange]

/-! ## Neighbours -/

/-- Neighbours stay neighbours. -/
theorem Adjacent.image {diagonal : Bool} {m n : Node} (h : Adjacent diagonal m n)
    (t : BoardTransform) : Adjacent diagonal (nodePerm t m) (nodePerm t n) := by
  have hall : ([false, true].all fun d => (List.finRange 16).all fun t =>
      (List.finRange 24).all fun m => (topologyNeighbors d m).all fun n =>
        (topologyNeighbors d (transformOpeningBookNode m t)).contains
          (transformOpeningBookNode n t)) = true := by
    decide +kernel
  rw [List.all_eq_true] at hall
  have hd := hall diagonal (by cases diagonal <;> decide)
  rw [List.all_eq_true] at hd
  have ht := hd t (List.mem_finRange t)
  rw [List.all_eq_true] at ht
  have hm := ht m (List.mem_finRange m)
  rw [List.all_eq_true] at hm
  have hn := hm n ((mem_topologyNeighbors diagonal m n).2 h)
  exact (mem_topologyNeighbors diagonal _ _).1 (List.contains_iff_mem.1 hn)

theorem adjacent_image (diagonal : Bool) (m n : Node) :
    Adjacent diagonal (nodePerm t m) (nodePerm t n) ↔ Adjacent diagonal m n := by
  refine ⟨fun h => ?_, fun h => h.image t⟩
  have hback : ∀ k, nodePerm (inverseOpeningBookTransform t) (nodePerm t k) = k :=
    transform_inverse t
  have := h.image (inverseOpeningBookTransform t)
  rwa [hback, hback] at this

theorem nodeImage_neighborMaskFor (diagonal : Bool) (n : Node) :
    NodeImage t (neighborMaskFor n diagonal) (neighborMaskFor (nodePerm t n) diagonal) :=
  nodeImage_of (fun m => Bool.eq_iff_iff.2 (adjacent_image diagonal n m))
    (neighborMaskFor_below _ _) (neighborMaskFor_below _ _)

/-! ## Lines -/

/-- The image of a line, which may run the other way. -/
def LineImage (t : BoardTransform) (l l' : Line) : Prop :=
  l'.b = nodePerm t l.b
    ∧ ((l'.a = nodePerm t l.a ∧ l'.c = nodePerm t l.c)
      ∨ (l'.a = nodePerm t l.c ∧ l'.c = nodePerm t l.a))

instance (l l' : Line) : Decidable (LineImage t l l') :=
  inferInstanceAs (Decidable (_ ∧ _))

/-- The lines of a family are carried to lines of the family. -/
def LinesClosed (lines : List Line) : Prop :=
  ∀ t : BoardTransform, ∀ l ∈ lines, ∃ l' ∈ lines, LineImage t l l'

/-- `LinesClosed` as a check. -/
def checkLinesClosed (lines : List Line) : Bool :=
  (List.finRange 16).all fun t => lines.all fun l => lines.any fun l' => decide (LineImage t l l')

theorem linesClosed_of_check {lines : List Line} (h : checkLinesClosed lines = true) :
    LinesClosed lines := by
  intro t l hl
  unfold checkLinesClosed at h
  rw [List.all_eq_true] at h
  have ht := h t (List.mem_finRange t)
  rw [List.all_eq_true] at ht
  obtain ⟨l', hl', himage⟩ := List.any_eq_true.1 (ht l hl)
  exact ⟨l', hl', of_decide_eq_true himage⟩

theorem LinesClosed.append {lines lines' : List Line} (h : LinesClosed lines)
    (h' : LinesClosed lines') : LinesClosed (lines ++ lines') := by
  intro t l hl
  rcases List.mem_append.1 hl with hl | hl
  · obtain ⟨l', hmem, himage⟩ := h t l hl
    exact ⟨l', List.mem_append_left _ hmem, himage⟩
  · obtain ⟨l', hmem, himage⟩ := h' t l hl
    exact ⟨l', List.mem_append_right _ hmem, himage⟩

theorem linesClosed_nil : LinesClosed [] := fun _ _ hl => absurd hl List.not_mem_nil

theorem linesClosed_ite {lines : List Line} (h : LinesClosed lines) (p : Prop) [Decidable p] :
    LinesClosed (if p then lines else []) := by
  split
  · exact h
  · exact linesClosed_nil

theorem millLines_closed (options : MillVariantOptions) : LinesClosed (millLines options) := by
  have hstandard : checkLinesClosed standardMillLines = true := by decide +kernel
  have hdiagonal : checkLinesClosed diagonalMillLines = true := by decide +kernel
  unfold millLines
  split
  · exact linesClosed_of_check hdiagonal
  · exact linesClosed_of_check hstandard

/-- The three families of capture lines. -/
theorem captureLines_closed : LinesClosed captureCrossLines
    ∧ LinesClosed captureSquareEdgeLines ∧ LinesClosed captureDiagonalLines := by
  have hcheck : ([captureCrossLines, captureSquareEdgeLines, captureDiagonalLines].all
      checkLinesClosed) = true := by decide +kernel
  rw [List.all_eq_true] at hcheck
  exact ⟨linesClosed_of_check (hcheck _ (by simp)), linesClosed_of_check (hcheck _ (by simp)),
    linesClosed_of_check (hcheck _ (by simp))⟩

theorem activeCaptureLines_closed (config : CaptureRuleConfig) (options : MillVariantOptions) :
    LinesClosed (activeCaptureLines config options) := by
  obtain ⟨hcross, hedge, hdiagonal⟩ := captureLines_closed
  unfold activeCaptureLines
  exact ((linesClosed_ite hcross _).append (linesClosed_ite hedge _)).append
    (linesClosed_ite hdiagonal _)

/-- Every line of a closed family is the image of one. -/
theorem LinesClosed.onto {lines : List Line} (h : LinesClosed lines) (t : BoardTransform)
    {l' : Line} (hl' : l' ∈ lines) : ∃ l ∈ lines, LineImage t l l' := by
  obtain ⟨l, hl, hb, hends⟩ := h (inverseOpeningBookTransform t) l' hl'
  have hback : ∀ m, nodePerm t (nodePerm (inverseOpeningBookTransform t) m) = m :=
    inverse_transform t
  refine ⟨l, hl, ?_, ?_⟩
  · rw [hb, hback]
  · rcases hends with ⟨ha, hc⟩ | ⟨ha, hc⟩
    · exact Or.inl ⟨by rw [ha, hback], by rw [hc, hback]⟩
    · exact Or.inr ⟨by rw [hc, hback], by rw [ha, hback]⟩

theorem LineImage.mask {l l' : Line} (h : LineImage t l l') : NodeImage t l.mask l'.mask := by
  obtain ⟨hb, hends⟩ := h
  have hbit : ∀ n, NodeImage t (nodeBit n) (nodeBit (nodePerm t n)) := nodeImage_nodeBit
  unfold Line.mask
  rcases hends with ⟨ha, hc⟩ | ⟨ha, hc⟩
  · rw [ha, hb, hc]
    exact ((hbit l.a).or (hbit l.b)).or (hbit l.c)
  · rw [ha, hb, hc, BitVec.or_comm (nodeBit (nodePerm t l.c) ||| nodeBit (nodePerm t l.b)),
      BitVec.or_comm (nodeBit (nodePerm t l.c)), ← BitVec.or_assoc]
    exact ((hbit l.a).or (hbit l.b)).or (hbit l.c)

end Sanmill
