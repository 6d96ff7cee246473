import Sanmill.Mill.Zobrist

/-!
# The incremental keys are right

A key is the XOR of one contribution per component, masked, with the misc counter
on top. `keyAccumulator` is that XOR before the mask. Each incremental form XORs
the old key with the difference of the accumulators, so each agrees with
`fullStateKey` as soon as the components it does not look at have not changed:

* `keyAfterApply` looks at everything but the board outside `changedSquares`;
* `keyAfterApplyFromChangedSquares` looks at the two squares of the action, the
  side and the misc counter only.
-/

namespace Sanmill

open Bits

/-! ## The misc bits -/

theorem getLsbD_lowMask : ∀ i < 64, (0x3fffffff#64).getLsbD i = decide (i < 30) := by decide

/-- Equal low bits and equal counters give equal keys. -/
theorem applyMisc_congr {a b : Key} (h : a &&& 0x3fffffff#64 = b &&& 0x3fffffff#64)
    (count : BitVec 2) : applyMisc a count = applyMisc b count := by
  unfold applyMisc
  rw [h]

/-- The mask forgets an earlier counter. -/
theorem applyMisc_xor (a d : Key) (count count' : BitVec 2) :
    applyMisc (applyMisc a count ^^^ d) count' = applyMisc (a ^^^ d) count' := by
  refine applyMisc_congr ?_ count'
  apply BitVec.eq_of_getLsbD_eq
  intro i hi
  simp only [applyMisc, BitVec.getLsbD_and, BitVec.getLsbD_xor, BitVec.getLsbD_or,
    BitVec.getLsbD_shiftLeft, getLsbD_lowMask i hi]
  by_cases h30 : i < 30 <;> simp [h30]

/-! ## The accumulator -/

/-- The key of a state before the mask and the misc bits. -/
def keyAccumulator (state : MillState) : Key :=
  boardKey state.board ^^^ targetsKey (MillZobrist.psq 3) state.delayedMarkedPieces
    ^^^ sideKey state.sideToMove ^^^ captureKey state 0 ^^^ captureKey state 1

theorem fullStateKey_eq (state : MillState) :
    fullStateKey state = applyMisc (keyAccumulator state) (miscCount state) := rfl

/-- An incremental key is right once its delta is the change of the accumulator. -/
theorem applyMisc_delta_eq {old new : MillState} {oldKey delta : Key}
    (hkey : oldKey = fullStateKey old)
    (hdelta : delta = keyAccumulator old ^^^ keyAccumulator new) :
    applyMisc (oldKey ^^^ delta) (miscCount new) = fullStateKey new := by
  rw [hkey, fullStateKey_eq, applyMisc_xor, hdelta, ← BitVec.xor_assoc, BitVec.xor_self,
    BitVec.zero_xor, fullStateKey_eq]

/-- The pieces of the accumulator change independently of one another. -/
theorem keyAccumulator_xor (old new : MillState) :
    keyAccumulator old ^^^ keyAccumulator new
      = (boardKey old.board ^^^ boardKey new.board)
        ^^^ (sideKey old.sideToMove ^^^ sideKey new.sideToMove)
        ^^^ (targetsKey (MillZobrist.psq 3) old.delayedMarkedPieces
          ^^^ targetsKey (MillZobrist.psq 3) new.delayedMarkedPieces)
        ^^^ (captureKey old 0 ^^^ captureKey new 0)
        ^^^ (captureKey old 1 ^^^ captureKey new 1) := by
  unfold keyAccumulator
  ac_rfl

/-! ## Deltas of the components -/

theorem sideDelta_eq (old new : Int) : sideDelta old new = sideKey old ^^^ sideKey new := by
  unfold sideDelta sideKey
  by_cases ho : old = 1 <;> by_cases hn : new = 1 <;> simp [ho, hn]

/-- The mask of a sum, as a condition on its terms. -/
theorem targetsKey_eq (table : Node → Key) (targets : Bitboard) :
    targetsKey table targets
      = xorSum (List.finRange 24) fun node =>
        if testBit targets node then table node else 0#64 := by
  unfold targetsKey maskNodes
  rw [xorSum_filter]

theorem targetDelta_eq (table : Node → Key) (old new : Bitboard) :
    targetDelta table old new = targetsKey table old ^^^ targetsKey table new := by
  unfold targetDelta
  rw [targetsKey_eq, targetsKey_eq, targetsKey_eq, ← xorSum_xor]
  refine xorSum_congr fun node _ => ?_
  rw [testBit_xor]
  cases testBit old node <;> cases testBit new node <;> simp

theorem countDelta_eq (table : Nat → Key) (old new max : Nat) :
    countDelta table old new max = countKey table old max ^^^ countKey table new max := by
  unfold countDelta
  split
  · rename_i h
    unfold countKey
    rw [h, BitVec.xor_self]
  · rfl

theorem captureDelta_eq (old new : MillState) (c : Side) :
    captureDelta (.capture old) new c = captureKey old c ^^^ captureKey new c := by
  simp only [captureDelta, captureKey, ZobristInputs.capture]
  rw [targetDelta_eq, targetDelta_eq, targetDelta_eq, countDelta_eq, countDelta_eq, countDelta_eq]
  ac_rfl

/-- The board contribution changes by the sum of its squares' changes. -/
theorem boardKey_xor (old new : Node → Int) :
    boardKey old ^^^ boardKey new
      = xorSum (List.finRange 24) fun node => squareDelta node (old node) (new node) := by
  unfold boardKey squareDelta
  rw [xorSum_xor]

theorem squareDelta_self (node : Node) (piece : Int) : squareDelta node piece piece = 0#64 := by
  unfold squareDelta
  rw [BitVec.xor_self]

/-- Squares outside `mask` have not changed, so summing over the mask is enough. -/
theorem boardKey_xor_of_mask {old new : Node → Int} {mask : Bitboard}
    (h : ∀ node : Node, testBit mask node = false → new node = old node) :
    xorSum (maskNodes mask) (fun s => if old s = new s then 0#64 else squareDelta s (old s) (new s))
      = boardKey old ^^^ boardKey new := by
  rw [boardKey_xor]
  unfold maskNodes
  rw [xorSum_filter_of_support]
  · refine xorSum_congr fun s _ => ?_
    split
    · rename_i he
      rw [he, squareDelta_self]
    · rfl
  · intro s _ hs
    rw [if_pos (h s hs).symm]

/-- Only the two squares of an action have changed. -/
theorem boardKey_xor_of_action {old new : Node → Int} {fromNode toNode : Int}
    (hne : ∀ s, boardNode? fromNode = some s → boardNode? toNode ≠ some s)
    (h : ∀ node, boardNode? fromNode ≠ some node → boardNode? toNode ≠ some node →
      new node = old node) :
    boardKey old ^^^ boardKey new
      = (match boardNode? fromNode with
          | some s => squareDelta s (old s) (new s)
          | none => 0#64)
        ^^^ (match boardNode? toNode with
          | some s => squareDelta s (old s) (new s)
          | none => 0#64) := by
  rw [boardKey_xor]
  -- only the two named squares can change; the sum over the others vanishes
  have hvanish : ∀ node : Node, boardNode? fromNode ≠ some node → boardNode? toNode ≠ some node →
      squareDelta node (old node) (new node) = 0#64 := by
    intro node hf ht
    rw [h node hf ht, squareDelta_self]
  cases hf : boardNode? fromNode with
  | none =>
    cases ht : boardNode? toNode with
    | none =>
      simp only [BitVec.xor_zero]
      exact xorSum_eq_zero fun s _ => hvanish s (by simp [hf]) (by simp [ht])
    | some t =>
      simp only [BitVec.zero_xor]
      exact xorSum_eq_single (List.nodup_finRange 24) (List.mem_finRange t) _ fun s _ hs =>
        hvanish s (by simp [hf]) (by simp [ht, Ne.symm hs])
  | some f =>
    cases ht : boardNode? toNode with
    | none =>
      simp only [BitVec.xor_zero]
      exact xorSum_eq_single (List.nodup_finRange 24) (List.mem_finRange f) _ fun s _ hs =>
        hvanish s (by simp [hf, Ne.symm hs]) (by simp [ht])
    | some t =>
      have hft : f ≠ t := fun e => hne f hf (by rw [ht, e])
      exact xorSum_eq_pair (List.nodup_finRange 24) (List.mem_finRange f) (List.mem_finRange t)
        hft _ fun s _ hsf hst =>
          hvanish s (by simp [hf, Ne.symm hsf]) (by simp [ht, Ne.symm hst])

/-! ## Empty capture records -/

theorem captureStateIsEmpty_iff (state : MillState) :
    captureStateIsEmpty state = true ↔
      ∀ c, state.custodianTargets c = 0 ∧ state.custodianCount c = 0
        ∧ state.interventionTargets c = 0 ∧ state.interventionCount c = 0
        ∧ state.leapTargets c = 0 ∧ state.leapCount c = 0 := by
  simp only [captureStateIsEmpty, List.all_cons, List.all_nil, Bool.and_true, Bool.and_eq_true,
    decide_eq_true_eq, and_assoc, Fin.forall_fin_two]

theorem captureKey_of_empty {state : MillState} (h : captureStateIsEmpty state = true) (c : Side) :
    captureKey state c = 0#64 := by
  obtain ⟨h1, h2, h3, h4, h5, h6⟩ := (captureStateIsEmpty_iff state).1 h c
  simp [captureKey, targetsKey_eq, countKey, h1, h2, h3, h4, h5, h6, xorSum_eq_zero]

/-! ## The two forms -/

/-- **The changed-squares form.** Marks and captures must not have changed. -/
theorem keyAfterApplyFromChangedSquares_eq {old new : MillState} {oldKey : Key}
    {oldFromPiece oldToPiece fromNode toNode : Int}
    (hkey : oldKey = fullStateKey old)
    (hne : ∀ s, boardNode? fromNode = some s → boardNode? toNode ≠ some s)
    (hfrom : ∀ s, boardNode? fromNode = some s → oldFromPiece = old.board s)
    (hto : ∀ s, boardNode? toNode = some s → oldToPiece = old.board s)
    (hboard : ∀ node, boardNode? fromNode ≠ some node → boardNode? toNode ≠ some node →
      new.board node = old.board node)
    (hmarks : new.delayedMarkedPieces = old.delayedMarkedPieces)
    (hold : captureStateIsEmpty old = true) (hnew : captureStateIsEmpty new = true) :
    keyAfterApplyFromChangedSquares oldKey old.sideToMove oldFromPiece oldToPiece new fromNode
      toNode = fullStateKey new := by
  unfold keyAfterApplyFromChangedSquares
  refine applyMisc_delta_eq hkey ?_
  rw [keyAccumulator_xor, boardKey_xor_of_action hne hboard, hmarks,
    captureKey_of_empty hold, captureKey_of_empty hold, captureKey_of_empty hnew,
    captureKey_of_empty hnew, ← sideDelta_eq]
  simp only [BitVec.xor_self, BitVec.xor_zero]
  congr 2
  · cases hf : boardNode? fromNode with
    | none => rfl
    | some s => rw [hfrom s hf]
  · cases ht : boardNode? toNode with
    | none => rfl
    | some s =>
      have hft : fromNode ≠ toNode := fun e => hne s (e ▸ ht) ht
      simp only [hft, ne_eq, not_false_eq_true, if_true, hto s ht]

/-- **The captured form.** Only the board outside `changedSquares` must not have changed. -/
theorem keyAfterApply_eq {old new : MillState} {oldKey : Key} {fromNode toNode : Int}
    (hkey : oldKey = fullStateKey old)
    (hne : ∀ s, boardNode? fromNode = some s → boardNode? toNode ≠ some s)
    (hboard : ∀ node, boardNode? fromNode ≠ some node → boardNode? toNode ≠ some node →
      testBit old.delayedMarkedPieces node = false → new.board node = old.board node) :
    keyAfterApply oldKey (.capture old) new fromNode toNode = fullStateKey new := by
  unfold keyAfterApply
  split
  · -- no mark and no capture on either side: the two squares and the side bit
    rename_i hempty
    obtain ⟨hm, hm', hc, hc'⟩ := hempty
    refine applyMisc_delta_eq hkey ?_
    have hm0 : old.delayedMarkedPieces = 0 := hm
    have hboard' : ∀ node, boardNode? fromNode ≠ some node → boardNode? toNode ≠ some node →
        new.board node = old.board node := fun node hf ht =>
      hboard node hf ht (by rw [hm0]; exact testBit_zero _)
    rw [keyAccumulator_xor, boardKey_xor_of_action hne hboard', hm0, hm',
      @captureKey_of_empty old hc, @captureKey_of_empty old hc,
      captureKey_of_empty hc', captureKey_of_empty hc', ← sideDelta_eq]
    simp only [BitVec.xor_self, BitVec.xor_zero, ZobristInputs.capture]
    congr 2
    cases ht : boardNode? toNode with
    | none => rfl
    | some s =>
      by_cases he : old.board s = new.board s
      · simp [he, squareDelta_self]
      · simp [he]
  · refine applyMisc_delta_eq hkey ?_
    rw [keyAccumulator_xor, targetDelta_eq, captureDelta_eq, captureDelta_eq, sideDelta_eq,
      @boardKey_xor_of_mask _ _ (changedSquares (.capture old) fromNode toNode)]
    · rfl
    · intro node hnode
      simp only [changedSquares, ZobristInputs.capture, testBit_or, Bool.or_eq_false_iff] at hnode
      obtain ⟨⟨hmark, hf⟩, ht⟩ := hnode
      have hbit : ∀ s : Node, testBit (nodeBit s) s = true := fun s => by
        simp [nodeBit, testBit_bit]; omega
      refine hboard node (fun e => ?_) (fun e => ?_) hmark
      · rw [e] at hf
        simp [hbit] at hf
      · rw [e] at ht
        simp [hbit] at ht

end Sanmill
