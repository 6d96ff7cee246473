import Sanmill.Proof.CaptureTargets
import Sanmill.Proof.Symmetry.Legal

/-!
# Mills under a transform

A transform permutes the mill lines, so a set of lines is carried to another one with as many
members. The rules hold sets of lines as masks over line indices, which the permutation
scrambles; `LineSet` says which lines such a mask stands for, by their node masks, and what
the rules ask of it (whether it is empty, how many lines there are, which nodes they cover) is
then the same on both sides.
-/

namespace Sanmill

open Bits

variable {t : BoardTransform} {options : MillVariantOptions} {s s' : MillState} {c : Side}

/-! ## The line masks are permuted -/

theorem transformMask_eq_union (t : BoardTransform) (mask : Bitboard) :
    transformMask t mask = union ((maskNodes mask).map fun n => nodeBit (nodePerm t n)) := by
  unfold transformMask union
  rw [List.foldl_map]
  rfl

/-- The image of a node mask, computed. -/
theorem nodeImage_transformMask {mask : Bitboard} (h : ∀ i, testBit mask i = true → i < 24) :
    NodeImage t mask (transformMask t mask) := by
  refine nodeImage_of (fun n => ?_) h fun i hi => ?_
  · rw [transformMask_eq_union, Bool.eq_iff_iff, testBit_union]
    constructor
    · intro hbit
      obtain ⟨m, hm, hmn⟩ := hbit
      obtain ⟨k, hk, rfl⟩ := List.mem_map.1 hm
      rw [testBit_nodeBit, decide_eq_true_eq, (nodePerm t).injective.eq_iff] at hmn
      rw [← hmn]
      exact (mem_maskNodes mask k).1 hk
    · intro hbit
      exact ⟨_, List.mem_map_of_mem ((mem_maskNodes mask n).2 hbit), by simp⟩
  · rw [transformMask_eq_union, testBit_union] at hi
    obtain ⟨m, hm, hbit⟩ := hi
    obtain ⟨k, hk, rfl⟩ := List.mem_map.1 hm
    exact nodeBit_below hbit

theorem lineMask_below (options : MillVariantOptions) {m : Bitboard}
    (hm : m ∈ millLineMasks options) {i : Nat} (hi : testBit m i = true) : i < 24 := by
  obtain ⟨line, -, rfl⟩ := List.mem_map.1 hm
  unfold Line.mask at hi
  rw [testBit_or, testBit_or, Bool.or_eq_true, Bool.or_eq_true] at hi
  rcases hi with (hi | hi) | hi
  · exact nodeBit_below hi
  · exact nodeBit_below hi
  · exact nodeBit_below hi

theorem millLineMasks_perm (t : BoardTransform) (options : MillVariantOptions) :
    ((millLineMasks options).map (transformMask t)).Perm (millLineMasks options) := by
  have hstandard : ((List.finRange 16).all fun t => ((standardMillLines.map Line.mask).map
      (transformMask t)).isPerm (standardMillLines.map Line.mask)) = true := by
    decide +kernel
  have hdiagonal : ((List.finRange 16).all fun t => ((diagonalMillLines.map Line.mask).map
      (transformMask t)).isPerm (diagonalMillLines.map Line.mask)) = true := by
    decide +kernel
  rw [List.all_eq_true] at hstandard hdiagonal
  unfold millLineMasks millLines
  split
  · exact List.isPerm_iff.1 (hdiagonal t (List.mem_finRange t))
  · exact List.isPerm_iff.1 (hstandard t (List.mem_finRange t))

/-- A quarter turn of the line through the nodes 0, 1 and 2. -/
example : transformMask 1 (nodeBit 0 ||| nodeBit 1 ||| nodeBit 2)
    = nodeBit 2 ||| nodeBit 3 ||| nodeBit 4 := by decide +kernel

/-- What is counted among the lines is counted among their images. -/
theorem countP_lineMasks_image {P P' : Bitboard → Bool}
    (h : ∀ m m', NodeImage t m m' → P' m' = P m) :
    (millLineMasks options).countP P' = (millLineMasks options).countP P := by
  rw [← (millLineMasks_perm t options).countP_eq, List.countP_map]
  refine List.countP_congr fun m hm => ?_
  have himage := h m _ (nodeImage_transformMask fun i hi => lineMask_below options hm hi)
  exact Bool.eq_iff_iff.1 himage

theorem any_lineMasks_image {P P' : Bitboard → Bool}
    (h : ∀ m m', NodeImage t m m' → P' m' = P m) :
    (millLineMasks options).any P' = (millLineMasks options).any P := by
  have hcount : (millLineMasks options).countP P' = (millLineMasks options).countP P :=
    countP_lineMasks_image h
  rw [Bool.eq_iff_iff, List.any_eq_true, List.any_eq_true, ← List.countP_pos_iff,
    ← List.countP_pos_iff, hcount]

theorem union_lineMasks_image {P P' : Bitboard → Bool}
    (h : ∀ m m', NodeImage t m m' → P' m' = P m) :
    NodeImage t (union ((millLineMasks options).filter P))
      (union ((millLineMasks options).filter P')) := by
  refine MaskImage.union (fun m hm => ?_) fun m' hm' => ?_
  · obtain ⟨hline, hP⟩ := List.mem_filter.1 hm
    have himage := nodeImage_transformMask (t := t) fun i hi => lineMask_below options hline hi
    refine ⟨transformMask t m, List.mem_filter.2 ⟨?_, (h _ _ himage).trans hP⟩, himage⟩
    exact (millLineMasks_perm t options).subset (List.mem_map_of_mem hline)
  · obtain ⟨hline, hP⟩ := List.mem_filter.1 hm'
    obtain ⟨m, hm, rfl⟩ := List.mem_map.1 ((millLineMasks_perm t options).symm.subset hline)
    have himage := nodeImage_transformMask (t := t) fun i hi => lineMask_below options hm hi
    exact ⟨m, List.mem_filter.2 ⟨hm, (h _ _ himage).symm.trans hP⟩, himage⟩

/-! ## The peer masks of a node -/

/-- The peers of a node are the lines through it without it. -/
theorem millLinePeerMasksForNode_eq (options : MillVariantOptions) (n : Node) :
    millLinePeerMasksForNode options n
      = ((millLineMasks options).filter fun m => testBit m n).map fun m => m &&& ~~~nodeBit n := by
  have hall : ∀ lines ∈ [standardMillLines, diagonalMillLines],
      ((List.finRange 24).all fun n => decide (buildMillLinePeerMasksByNode lines n
        = ((lines.map Line.mask).filter fun m => testBit m n).map
            fun m => m &&& ~~~nodeBit n)) = true := by
    decide +kernel
  have hlines : millLines options ∈ [standardMillLines, diagonalMillLines] := by
    unfold millLines
    split <;> simp
  have hn := hall _ hlines
  rw [List.all_eq_true] at hn
  exact of_decide_eq_true (hn n (List.mem_finRange n))

theorem countP_peers (options : MillVariantOptions) (n : Node) (P : Bitboard → Bool) :
    (millLinePeerMasksForNode options n).countP P
      = (millLineMasks options).countP fun m => testBit m n && P (m &&& ~~~nodeBit n) := by
  rw [millLinePeerMasksForNode_eq, List.countP_map, List.countP_filter]
  refine List.countP_congr fun m _ => ?_
  rw [Function.comp_apply, Bool.and_comm]

theorem countP_peers_image {n : Node} {P P' : Bitboard → Bool}
    (h : ∀ m m', NodeImage t m m' → P' m' = P m) :
    (millLinePeerMasksForNode options (nodePerm t n)).countP P'
      = (millLinePeerMasksForNode options n).countP P := by
  rw [countP_peers, countP_peers]
  refine countP_lineMasks_image (t := t) fun m m' himage => ?_
  rw [himage.node, h _ _ (himage.andNot (nodeImage_nodeBit n))]

theorem any_peers_image {n : Node} {P P' : Bitboard → Bool}
    (h : ∀ m m', NodeImage t m m' → P' m' = P m) :
    (millLinePeerMasksForNode options (nodePerm t n)).any P'
      = (millLinePeerMasksForNode options n).any P := by
  have hcount : (millLinePeerMasksForNode options (nodePerm t n)).countP P'
      = (millLinePeerMasksForNode options n).countP P := countP_peers_image h
  rw [Bool.eq_iff_iff, List.any_eq_true, List.any_eq_true, ← List.countP_pos_iff,
    ← List.countP_pos_iff, hcount]

/-! ## Sets of lines -/

/-- `bits` stands for the lines whose node masks satisfy `P`. -/
def LineSet (options : MillVariantOptions) (P : Bitboard → Bool) (bits : Bitboard) : Prop :=
  ∀ i, testBit bits i = true ↔ ∃ m, (millLineMasks options)[i]? = some m ∧ P m = true

namespace LineSet

variable {P P' : Bitboard → Bool} {bits bits' : Bitboard}

theorem ne_zero_iff (h : LineSet options P bits) :
    bits ≠ 0 ↔ (millLineMasks options).any P = true := by
  rw [show (0 : Bitboard) = 0#32 from rfl, ne_zero_iff_testBit, List.any_eq_true]
  constructor
  · intro hbits
    obtain ⟨i, hi⟩ := hbits
    obtain ⟨m, hm, hP⟩ := (h i).1 hi
    exact ⟨m, List.mem_of_getElem? hm, hP⟩
  · intro hany
    obtain ⟨m, hm, hP⟩ := hany
    obtain ⟨i, hi⟩ := List.mem_iff_getElem?.1 hm
    exact ⟨i, (h i).2 ⟨m, hi, hP⟩⟩

/-- The indices of the lines, in order. -/
def indices (options : MillVariantOptions) (P : Bitboard → Bool) : List Nat :=
  ((millLineMasks options).zipIdx.filter fun p => P p.1).map Prod.snd

theorem mem_indices (i : Nat) :
    i ∈ indices options P ↔ ∃ m, (millLineMasks options)[i]? = some m ∧ P m = true := by
  unfold indices
  constructor
  · intro hi
    obtain ⟨⟨m, j⟩, hp, rfl⟩ := List.mem_map.1 hi
    obtain ⟨hmem, hP⟩ := List.mem_filter.1 hp
    exact ⟨m, List.mk_mem_zipIdx_iff_getElem?.1 hmem, hP⟩
  · intro hex
    obtain ⟨m, hm, hP⟩ := hex
    exact List.mem_map.2 ⟨(m, i), List.mem_filter.2 ⟨List.mk_mem_zipIdx_iff_getElem?.2 hm, hP⟩, rfl⟩

theorem nodup_indices : (indices options P).Nodup := by
  have hall : ((millLineMasks options).zipIdx.map Prod.snd).Nodup := by
    rw [List.zipIdx_map_snd]
    exact List.nodup_range'
  exact hall.sublist (List.filter_sublist.map _)

theorem countOnes_eq (h : LineSet options P bits) :
    countOnes bits = (millLineMasks options).countP P := by
  have hones : ones bits = (indices options P).toFinset := by
    ext i
    rw [mem_ones, h i, List.mem_toFinset, mem_indices]
  rw [countOnes_eq_card, hones, List.toFinset_card_of_nodup nodup_indices]
  unfold indices
  rw [List.length_map, ← List.countP_eq_length_filter]
  have hfst : (millLineMasks options).zipIdx.map Prod.fst = millLineMasks options :=
    List.zipIdx_map_fst 0 _
  conv_rhs => rw [← hfst]
  rw [List.countP_map]
  rfl

/-- Two masks for corresponding lines are empty together. -/
theorem ne_zero_image (h : LineSet options P bits) (h' : LineSet options P' bits')
    (hP : ∀ m m', NodeImage t m m' → P' m' = P m) : bits' ≠ 0 ↔ bits ≠ 0 := by
  rw [h.ne_zero_iff, h'.ne_zero_iff, any_lineMasks_image hP]

theorem countOnes_image (h : LineSet options P bits) (h' : LineSet options P' bits')
    (hP : ∀ m m', NodeImage t m m' → P' m' = P m) : countOnes bits' = countOnes bits := by
  rw [h.countOnes_eq, h'.countOnes_eq, countP_lineMasks_image hP]

theorem removalCount_image (h : LineSet options P bits) (h' : LineSet options P' bits')
    (hP : ∀ m m', NodeImage t m m' → P' m' = P m) :
    removalCountForBits bits' options = removalCountForBits bits options := by
  unfold removalCountForBits
  rw [h.countOnes_image h' hP]

theorem nodes_eq (h : LineSet options P bits) :
    nodesOfLines options bits = union ((millLineMasks options).filter P) := by
  refine testBit_ext fun i _ => ?_
  -- folding over the lines gathers the masks whose bit is set
  have hfold : ∀ (l : List (Line × Nat)) (acc : Bitboard),
      testBit
          (l.foldl (fun nodes p => if testBit bits p.2 then nodes ||| p.1.mask else nodes) acc) i
        = true ↔ testBit acc i = true
          ∨ ∃ p ∈ l, testBit bits p.2 = true ∧ testBit p.1.mask i = true := by
    intro l
    induction l with
    | nil => simp
    | cons p l ih =>
      intro acc
      rw [List.foldl_cons, ih]
      by_cases hp : testBit bits p.2 = true
      · simp [hp, or_assoc]
      · simp [hp]
  rw [Bool.eq_iff_iff, testBit_union]
  unfold nodesOfLines
  rw [hfold]
  constructor
  · intro hbit
    rcases hbit with hzero | ⟨⟨line, j⟩, hp, hj, hi⟩
    · simp at hzero
    · obtain ⟨m, hm, hP⟩ := (h j).1 hj
      have hline := List.mk_mem_zipIdx_iff_getElem?.1 hp
      have hmask : (millLineMasks options)[j]? = some line.mask := by
        unfold millLineMasks
        rw [List.getElem?_map, hline]
        rfl
      rw [hm, Option.some.injEq] at hmask
      exact ⟨m, List.mem_filter.2 ⟨List.mem_of_getElem? hm, hP⟩, hmask ▸ hi⟩
  · intro hex
    obtain ⟨m, hm, hi⟩ := hex
    obtain ⟨hmem, hP⟩ := List.mem_filter.1 hm
    obtain ⟨j, hj⟩ := List.mem_iff_getElem?.1 hmem
    have hbit := (h j).2 ⟨m, hj, hP⟩
    unfold millLineMasks at hj
    rw [List.getElem?_map, Option.map_eq_some_iff] at hj
    obtain ⟨line, hline, rfl⟩ := hj
    exact Or.inr ⟨(line, j), List.mk_mem_zipIdx_iff_getElem?.2 hline, hbit, hi⟩

theorem nodes_image (h : LineSet options P bits) (h' : LineSet options P' bits')
    (hP : ∀ m m', NodeImage t m m' → P' m' = P m) :
    NodeImage t (nodesOfLines options bits) (nodesOfLines options bits') := by
  rw [h.nodes_eq, h'.nodes_eq]
  exact union_lineMasks_image hP

/-- The lines that are left when those already used by the side are dropped. -/
theorem usable (h : LineSet options P bits) (hactive : s.sideToMove = c.toI8) :
    LineSet options
      (fun m => P m && !(options.oneTimeUseMill && decide (m &&& s.formedMillsBb c = m)))
      (usableMillBits s options bits) := by
  intro i
  -- folding over the lines drops the bits of the mills used before
  have hfold : ∀ (l : List (Line × Nat)) (acc : Bitboard),
      testBit (l.foldl (fun usable p =>
          if testBit bits p.2 && (p.1.mask &&& s.formedMillsBb c = p.1.mask) then
            usable &&& ~~~lineBit p.2
          else usable) acc) i = true
        ↔ testBit acc i = true ∧ ∀ p ∈ l, testBit bits p.2 = true →
            p.1.mask &&& s.formedMillsBb c = p.1.mask → testBit (lineBit p.2) i = false := by
    intro l
    induction l with
    | nil => simp
    | cons p l ih =>
      intro acc
      rw [List.foldl_cons, ih]
      by_cases hp : testBit bits p.2 = true ∧ p.1.mask &&& s.formedMillsBb c = p.1.mask
      · have hdrop : (testBit bits p.2 && decide (p.1.mask &&& s.formedMillsBb c = p.1.mask))
            = true := by
          rw [hp.1, Bool.true_and]
          exact decide_eq_true hp.2
        rw [if_pos hdrop, testBit_and_not, Bool.and_eq_true, Bool.not_eq_true']
        simp only [List.mem_cons, forall_eq_or_imp, hp.1, hp.2, true_imp_iff, and_assoc]
      · have hskip : (testBit bits p.2 && decide (p.1.mask &&& s.formedMillsBb c = p.1.mask))
            = false := by
          rw [Bool.eq_false_iff]
          intro htrue
          rw [Bool.and_eq_true, decide_eq_true_eq] at htrue
          exact hp htrue
        simp only [hskip, Bool.false_eq_true, if_false, List.mem_cons, forall_eq_or_imp]
        constructor
        · intro hrest
          exact ⟨hrest.1, fun h1 h2 => absurd ⟨h1, h2⟩ hp, hrest.2⟩
        · intro hrest
          exact ⟨hrest.1, hrest.2.2⟩
  have hself : ∀ {line : Line}, (millLines options)[i]? = some line →
      (millLineMasks options)[i]? = some line.mask := by
    intro line hline
    unfold millLineMasks
    rw [List.getElem?_map, hline]
    rfl
  unfold usableMillBits
  rw [hactive]
  simp only [Side.toI8_inRange_lt, not_true_eq_false, if_false, Side.sideIndex_toI8]
  cases hone : options.oneTimeUseMill with
  | false =>
    simp only [Bool.not_false, if_true, Bool.false_and, Bool.and_true]
    exact h i
  | true =>
    simp only [Bool.not_true, Bool.false_eq_true, if_false, Bool.true_and]
    rw [hfold]
    constructor
    · intro hbits
      obtain ⟨hi, hnot⟩ := hbits
      obtain ⟨m, hm, hP⟩ := (h i).1 hi
      refine ⟨m, hm, ?_⟩
      unfold millLineMasks at hm
      rw [List.getElem?_map, Option.map_eq_some_iff] at hm
      obtain ⟨line, hline, rfl⟩ := hm
      have hlt := testBit_lt hi
      by_cases hcover : line.mask &&& s.formedMillsBb c = line.mask
      · have hfalse := hnot (line, i) (List.mk_mem_zipIdx_iff_getElem?.2 hline) hi hcover
        unfold lineBit at hfalse
        rw [testBit_bit] at hfalse
        simp [hlt] at hfalse
      · simp [hP, hcover]
    · intro hex
      obtain ⟨m, hm, hkeep⟩ := hex
      rw [Bool.and_eq_true, Bool.not_eq_true', decide_eq_false_iff_not] at hkeep
      refine ⟨(h i).2 ⟨m, hm, hkeep.1⟩, fun p hp _ hcover => ?_⟩
      unfold lineBit
      rw [testBit_bit, decide_eq_false_iff_not]
      intro heq
      obtain ⟨line, j⟩ := p
      obtain ⟨rfl, -⟩ := heq
      have hmask := hself (List.mk_mem_zipIdx_iff_getElem?.1 hp)
      rw [hm, Option.some.injEq] at hmask
      exact hkeep.2 (hmask ▸ hcover)

end LineSet

/-! ## The lines an action completes -/

/-- A node's live piece is the side's exactly when the side's mask has the node. -/
theorem livePiece_eq_iff (h : PositionInv options s.toMillPosition) (c : Side) (n : Node) :
    s.livePiece n = c.toI8 + 1 ↔ testBit (s.byColorBb c) n = true := by
  rw [h.live_iff]
  unfold MillPosition.livePiece MillPosition.isMarked
  cases testBit s.delayedMarkedPieces n with
  | false => simp
  | true =>
    have hne := Side.piece_ne_zero c
    simp [hne.symm]

theorem covers_iff_nodes (colorBb : Bitboard) (line : Line) :
    colorBb &&& line.mask = line.mask ↔ ∀ n ∈ line.nodes, testBit colorBb n = true := by
  rw [and_eq_right_iff_testBit]
  unfold Line.mask Line.nodes
  constructor
  · intro hcover n hn
    refine hcover n ?_
    rw [testBit_or, testBit_or, testBit_nodeBit, testBit_nodeBit, testBit_nodeBit]
    simp only [List.mem_cons, List.not_mem_nil, or_false] at hn
    rcases hn with rfl | rfl | rfl <;> simp
  · intro hall i hi
    rw [testBit_or, testBit_or, Bool.or_eq_true, Bool.or_eq_true] at hi
    rcases hi with (hi | hi) | hi
    · rw [eq_of_testBit_nodeBit hi]
      exact hall line.a (by simp)
    · rw [eq_of_testBit_nodeBit hi]
      exact hall line.b (by simp)
    · rw [eq_of_testBit_nodeBit hi]
      exact hall line.c (by simp)

/-- The peers of a node on a line of the table are the line without the node. -/
theorem peerMask?_eq (options : MillVariantOptions) {line : Line} (hline : line ∈ millLines options)
    (n : Node) : line.peerMask? n
      = if testBit line.mask n then some (line.mask &&& ~~~nodeBit n) else none := by
  have hall : ∀ lines ∈ [standardMillLines, diagonalMillLines],
      (lines.all fun line => (List.finRange 24).all fun n => decide (line.peerMask? n
        = if testBit line.mask n then some (line.mask &&& ~~~nodeBit n) else none)) = true := by
    decide +kernel
  have hlines : millLines options ∈ [standardMillLines, diagonalMillLines] := by
    unfold millLines
    split <;> simp
  have hl := hall _ hlines
  rw [List.all_eq_true] at hl
  have hn := hl line hline
  rw [List.all_eq_true] at hn
  exact of_decide_eq_true (hn n (List.mem_finRange n))

/-- A line through an own piece is complete when the side holds its peers. -/
theorem covers_peer_iff {colorBb m : Bitboard} {n : Node} (hself : testBit colorBb n = true) :
    colorBb &&& (m &&& ~~~nodeBit n) = m &&& ~~~nodeBit n ↔ colorBb &&& m = m := by
  rw [and_eq_right_iff_testBit, and_eq_right_iff_testBit]
  constructor
  · intro hpeer i hi
    by_cases hin : i = n
    · rw [hin]
      exact hself
    · refine hpeer i ?_
      rw [testBit_and_not, hi, Bool.true_and, Bool.not_eq_true', Bool.eq_false_iff]
      exact fun hbit => hin (eq_of_testBit_nodeBit hbit)
  · intro hcover i hi
    rw [testBit_and_not, Bool.and_eq_true] at hi
    exact hcover i hi.1

theorem testBit_lineBits (lineIdxs : List Nat) (i : Nat) :
    testBit (lineBits lineIdxs) i = true ↔ i ∈ lineIdxs ∧ i < 32 := by
  have hfold : ∀ (l : List Nat) (acc : Bitboard),
      testBit (l.foldl (fun bits lineIdx => bits ||| lineBit lineIdx) acc) i = true
        ↔ testBit acc i = true ∨ i ∈ l ∧ i < 32 := by
    intro l
    induction l with
    | nil => simp
    | cons j l ih =>
      intro acc
      rw [List.foldl_cons, ih, testBit_or, Bool.or_eq_true, lineBit, testBit_bit,
        decide_eq_true_eq, List.mem_cons, or_assoc]
      refine or_congr Iff.rfl ?_
      constructor
      · intro h
        rcases h with ⟨rfl, hlt⟩ | h
        · exact ⟨Or.inl rfl, hlt⟩
        · exact ⟨Or.inr h.1, h.2⟩
      · intro h
        rcases h.1 with rfl | hmem
        · exact Or.inl ⟨rfl, h.2⟩
        · exact Or.inr ⟨hmem, h.2⟩
  unfold lineBits
  rw [hfold]
  simp

theorem lineMasks_lt (options : MillVariantOptions) {i : Nat} {m : Bitboard}
    (h : (millLineMasks options)[i]? = some m) : i < 32 := by
  have hlt := (List.getElem?_eq_some_iff.1 h).1
  have hlength : (millLineMasks options).length ≤ 20 := by
    unfold millLineMasks millLines
    rw [List.length_map]
    split <;> decide
  omega

theorem lineMasks_getElem? (options : MillVariantOptions) (i : Nat) :
    (millLineMasks options)[i]? = (millLines options)[i]?.map Line.mask := by
  unfold millLineMasks
  rw [List.getElem?_map]

theorem mem_millLineIndicesForNode (options : MillVariantOptions) (n : Node) (i : Nat) :
    i ∈ millLineIndicesForNode options n
      ↔ ∃ m, (millLineMasks options)[i]? = some m ∧ testBit m n = true := by
  unfold millLineIndicesForNode buildMillLineIndicesByNode
  rw [List.mem_filterMap]
  constructor
  · intro hex
    obtain ⟨⟨line, j⟩, hp, hsome⟩ := hex
    have hget := List.mk_mem_zipIdx_iff_getElem?.1 hp
    rw [peerMask?_eq options (List.mem_of_getElem? hget)] at hsome
    split at hsome
    · rename_i hbit
      obtain rfl : j = i := Option.some.inj hsome
      exact ⟨line.mask, by rw [lineMasks_getElem?, hget]; rfl, hbit⟩
    · cases hsome
  · intro hex
    obtain ⟨m, hm, hbit⟩ := hex
    rw [lineMasks_getElem?, Option.map_eq_some_iff] at hm
    obtain ⟨line, hline, rfl⟩ := hm
    refine ⟨(line, i), List.mk_mem_zipIdx_iff_getElem?.2 hline, ?_⟩
    rw [peerMask?_eq options (List.mem_of_getElem? hline), if_pos hbit]
    rfl

/-- The tables of indices and of peers run side by side. -/
theorem zip_indices_peers (lines : List Line) (n : Node) :
    (buildMillLineIndicesByNode lines n).zip (buildMillLinePeerMasksByNode lines n)
      = lines.zipIdx.filterMap fun p => (p.1.peerMask? n).map fun peer => (p.2, peer) := by
  have hgen : ∀ (l : List Line) (k : Nat),
      ((l.zipIdx k).filterMap fun p => (p.1.peerMask? n).map fun _ => p.2).zip
          (l.filterMap fun line => line.peerMask? n)
        = (l.zipIdx k).filterMap fun p => (p.1.peerMask? n).map fun peer => (p.2, peer) := by
    intro l
    induction l with
    | nil => exact fun _ => rfl
    | cons line l ih =>
      intro k
      rw [List.zipIdx_cons]
      simp only [List.filterMap_cons]
      cases line.peerMask? n with
      | none => exact ih (k + 1)
      | some peer =>
        simp only [Option.map_some, List.zip_cons_cons]
        rw [ih (k + 1)]
  exact hgen lines 0

/-- **What `formedMillBitsAt` stands for**: the complete lines of the side through the node. -/
theorem formed_lineSet (h : PositionInv options s.toMillPosition) (c : Side) (n : Node) :
    LineSet options (fun m => testBit m n && decide (s.byColorBb c &&& m = m))
      (formedMillBitsAt s options n c.toI8) := by
  intro i
  unfold formedMillBitsAt
  split
  · rw [Side.colorIndexForPiece_toI8]
    simp only
    split
    -- an own piece stands on the node: the source tests the peers only
    · rename_i hself
      rw [testBit_lineBits, List.mem_filterMap]
      unfold millLineIndicesForNode millLinePeerMasksForNode
      rw [zip_indices_peers]
      constructor
      · intro hex
        obtain ⟨⟨⟨j, peer⟩, hp, hsome⟩, -⟩ := hex
        obtain ⟨⟨line, k⟩, hline, hpeer⟩ := List.mem_filterMap.1 hp
        have hget := List.mk_mem_zipIdx_iff_getElem?.1 hline
        rw [peerMask?_eq options (List.mem_of_getElem? hget)] at hpeer
        simp only at hsome
        split at hsome
        · rename_i hcover
          split at hpeer
          · rename_i hbit
            simp only [Option.map_some, Option.some.injEq, Prod.mk.injEq] at hpeer
            obtain ⟨rfl, rfl⟩ := hpeer
            obtain rfl : k = i := Option.some.inj hsome
            refine ⟨line.mask, by rw [lineMasks_getElem?, hget]; rfl, ?_⟩
            rw [hbit, Bool.true_and]
            exact decide_eq_true ((covers_peer_iff hself).1 hcover)
          · cases hpeer
        · cases hsome
      · intro hex
        obtain ⟨m, hm, hP⟩ := hex
        rw [Bool.and_eq_true, decide_eq_true_eq] at hP
        have hlt := lineMasks_lt options hm
        rw [lineMasks_getElem?, Option.map_eq_some_iff] at hm
        obtain ⟨line, hline, rfl⟩ := hm
        refine ⟨⟨(i, line.mask &&& ~~~nodeBit n), List.mem_filterMap.2
          ⟨(line, i), List.mk_mem_zipIdx_iff_getElem?.2 hline, ?_⟩, ?_⟩, hlt⟩
        · rw [peerMask?_eq options (List.mem_of_getElem? hline), if_pos hP.1]
          rfl
        · exact if_pos ((covers_peer_iff hself).2 hP.2)
    · rename_i hself
      rw [show testBit (0 : Bitboard) i = false from testBit_zero i]
      refine ⟨fun hfalse => absurd hfalse Bool.false_ne_true, fun hex => ?_⟩
      obtain ⟨m, -, hP⟩ := hex
      rw [Bool.and_eq_true, decide_eq_true_eq] at hP
      exact absurd ((and_eq_right_iff_testBit _ _).1 hP.2 n hP.1) hself
  -- otherwise it reads the whole line from the board
  · rw [testBit_lineBits, List.mem_filter, mem_millLineIndicesForNode]
    constructor
    · intro hex
      obtain ⟨⟨⟨m, hm, hbit⟩, hall⟩, -⟩ := hex
      refine ⟨m, hm, ?_⟩
      rw [lineMasks_getElem?, Option.map_eq_some_iff] at hm
      obtain ⟨line, hline, rfl⟩ := hm
      rw [hline] at hall
      simp only [List.all_eq_true, decide_eq_true_eq] at hall
      exact Bool.and_eq_true_iff.2 ⟨hbit, decide_eq_true ((covers_iff_nodes _ line).2 fun k hk =>
        (livePiece_eq_iff h c k).1 (hall k hk))⟩
    · intro hex
      obtain ⟨m, hm, hP⟩ := hex
      rw [Bool.and_eq_true, decide_eq_true_eq] at hP
      refine ⟨⟨⟨m, hm, hP.1⟩, ?_⟩, lineMasks_lt options hm⟩
      rw [lineMasks_getElem?, Option.map_eq_some_iff] at hm
      obtain ⟨line, hline, rfl⟩ := hm
      rw [hline]
      simp only [List.all_eq_true, decide_eq_true_eq]
      intro k hk
      exact (livePiece_eq_iff h c k).2 ((covers_iff_nodes _ line).1 hP.2 k hk)

end Sanmill
