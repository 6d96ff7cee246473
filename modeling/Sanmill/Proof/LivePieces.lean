import Sanmill.Proof.BoardFrame
import Sanmill.Proof.Reach

/-!
# Live pieces across an action

What the frame of the board says of the snapshots of the kernel: after a legal action the
piece that was placed or moved is live, and every other live piece that was not taken is
still live. The snapshot may be any, also one that was edited or read from a text.
-/

namespace Sanmill

open Bits

variable {s t : MillState} {options : MillVariantOptions} {n : Node} {a : Action}

theorem livePiece_ne_zero_iff : s.livePiece n ≠ 0 ↔ s.isMarked n = false ∧ s.board n ≠ 0 := by
  unfold MillPosition.livePiece
  split
  · rename_i hmarked
    rw [hmarked]
    simp
  · rename_i hmarked
    rw [Bool.not_eq_true] at hmarked
    rw [hmarked]
    simp

theorem BoardKept.live (h : BoardKept s t) (hlive : s.livePiece n ≠ 0) : t.livePiece n ≠ 0 := by
  obtain ⟨hmarked, hboard⟩ := livePiece_ne_zero_iff.1 hlive
  refine livePiece_ne_zero_iff.2 ⟨?_, ?_⟩
  · rw [Bool.eq_false_iff]
    intro hmark
    rw [h.marks n hmark] at hmarked
    cases hmarked
  · rcases h.board n with heq | ⟨hmark, -⟩
    · rwa [heq]
    · rw [hmark] at hmarked
      cases hmarked

/-! ## Board writes -/

theorem placeLivePiece_live {side : Side} (hmarked : s.isMarked n = false) (m : Node)
    (hlive : m = n ∨ s.livePiece m ≠ 0) : (s.placeLivePiece n side).livePiece m ≠ 0 := by
  have hboard : (s.placeLivePiece n side).board = setAt s.board n (side.toI8 + 1) := rfl
  rw [livePiece_ne_zero_iff, hboard]
  by_cases heq : m = n
  · rw [heq, setAt_self]
    exact ⟨hmarked, Side.piece_ne_zero side⟩
  · rw [setAt_of_ne heq]
    exact livePiece_ne_zero_iff.1 (hlive.resolve_left heq)

theorem moveLivePiece_live {source target : Node} {side : Side}
    (hmarked : s.isMarked target = false) (m : Node)
    (hlive : m = target ∨ m ≠ source ∧ s.livePiece m ≠ 0) :
    (s.moveLivePiece source target side).livePiece m ≠ 0 := by
  have hboard : (s.moveLivePiece source target side).board
      = setAt (setAt s.board source 0) target (side.toI8 + 1) := rfl
  rw [livePiece_ne_zero_iff, hboard]
  by_cases heq : m = target
  · rw [heq, setAt_self]
    exact ⟨hmarked, Side.piece_ne_zero side⟩
  · obtain ⟨hsource, hlive⟩ := hlive.resolve_left heq
    rw [setAt_of_ne heq, setAt_of_ne hsource]
    exact livePiece_ne_zero_iff.1 hlive

theorem Taken.live (h : Taken s n t) {m : Node} (hne : m ≠ n) (hlive : s.livePiece m ≠ 0) :
    t.livePiece m ≠ 0 := by
  obtain ⟨hmarked, hboard⟩ := livePiece_ne_zero_iff.1 hlive
  cases h with
  | cleared side =>
    have hcleared : (countTaken (s.clearLivePiece n side) side).board = setAt s.board n 0 := rfl
    rw [livePiece_ne_zero_iff, hcleared, setAt_of_ne hne]
    exact ⟨hmarked, hboard⟩
  | marked side =>
    refine livePiece_ne_zero_iff.2 ⟨?_, hboard⟩
    show testBit (s.delayedMarkedPieces ||| nodeBit n) m = false
    unfold MillPosition.isMarked at hmarked
    rw [testBit_or, hmarked, testBit_nodeBit, Bool.false_or, decide_eq_false (Ne.symm hne)]

/-! ## Actions -/

/-- A generated action, with what it needs of its target. -/
inductive Generated (s : MillState) : Action → Prop
  | place (n : Node) (hmarked : s.isMarked n = false) : Generated s (placeAction n)
  | move (source target : Node) (hmarked : s.isMarked target = false) :
      Generated s (moveAction source target)
  | remove (n : Node) : Generated s (removeAction n)

theorem not_marked_of_unoccupied (h : testBit s.boardOccupiedBitboard n = false) :
    s.isMarked n = false := by
  unfold MillPosition.boardOccupiedBitboard at h
  rw [testBit_or, Bool.or_eq_false_iff] at h
  exact h.2

theorem LegalAction.generated (h : LegalAction s options a) : Generated s a := by
  unfold LegalAction at h
  cases haction : s.actionForLegalGeneration with
  | place =>
    rw [haction] at h
    rcases h with ⟨target, rfl, -, hempty⟩ | ⟨-, source, target, rfl, htarget⟩
    · exact .place target (not_marked_of_unoccupied hempty)
    · exact .move source target (not_marked_of_unoccupied htarget.empty)
  | select =>
    rw [haction] at h
    obtain ⟨-, source, target, rfl, htarget⟩ := h
    exact .move source target (not_marked_of_unoccupied htarget.empty)
  | remove =>
    rw [haction] at h
    obtain ⟨-, target, rfl, -⟩ := h
    exact .remove target
  | gameOver =>
    rw [haction] at h
    cases h

/-- Only the marks of the state matter. -/
theorem Generated.of_marks (h : Generated s a)
    (hmarks : s.delayedMarkedPieces = t.delayedMarkedPieces) : Generated t a := by
  have hsame : ∀ n, s.isMarked n = t.isMarked n := by
    intro n
    unfold MillPosition.isMarked
    rw [hmarks]
  cases h with
  | place n hmarked => exact .place n (hsame n ▸ hmarked)
  | move source target hmarked => exact .move source target (hsame target ▸ hmarked)
  | remove n => exact .remove n

theorem Generated.inBounds (h : Generated s a) :
    isActionWithinBoardBounds a.fromNode a.toNode = true := by
  cases h with
  | place n => exact isActionWithinBoardBounds_of nodeOrNone_neg_one (nodeOrNone_toI8 n)
  | move source target =>
    exact isActionWithinBoardBounds_of (nodeOrNone_toI8 source) (nodeOrNone_toI8 target)
  | remove n => exact isActionWithinBoardBounds_of nodeOrNone_neg_one (nodeOrNone_toI8 n)

variable (r : MillRules)

theorem applyGeneral_kept (s : MillState) (a : Action) (adjudicate : Bool) :
    BoardKept (r.applyBranch s (.capture r s a) a adjudicate).1
      (r.applyGeneral s a adjudicate) := by
  obtain ⟨key, heq⟩ := applyGeneral_eq r s a adjudicate
  rw [heq]
  exact (maybeHandleStalemate_kept _ r.options).trans (.of_eq rfl rfl rfl rfl)

/-- What a generated action writes to the board and to the counts. -/
inductive Moved (s : MillState) : Action → MillState → Prop
  | place (n : Node) (hmarked : s.isMarked n = false) :
      Moved s (placeAction n) (r.placePiece s n (sideIndex s.sideToMove))
  | move (source target : Node) (hmarked : s.isMarked target = false) :
      Moved s (moveAction source target)
        (s.moveLivePiece source target (sideIndex s.sideToMove))
  | remove (n : Node) (t : MillState) (h : Taken s n t) : Moved s (removeAction n) t

theorem applyGeneral_moved (h : Generated s a) (adjudicate : Bool) :
    ∃ t, Moved r s a t ∧ BoardKept t (r.applyGeneral s a adjudicate) := by
  have hbranch := applyGeneral_kept r s a adjudicate
  cases h with
  | place n hmarked =>
    rw [applyBranch_place] at hbranch
    exact ⟨_, .place n hmarked, (applyPlace_kept r s n).trans hbranch⟩
  | move source target hmarked =>
    rw [applyBranch_move] at hbranch
    exact ⟨_, .move source target hmarked,
      (applyMove_kept r s source target _ _ adjudicate).trans hbranch⟩
  | remove n =>
    rw [applyBranch_remove] at hbranch
    obtain ⟨t, htaken, hkept⟩ := applyRemove_kept r s n
    exact ⟨t, .remove n t htaken, hkept.trans hbranch⟩

/-- **An action makes its writes, and sweeps marked pieces and shrinks hands at most**, on the fast
paths as on the general one. -/
theorem applyToStateUnchecked_moved (h : Generated s a) (adjudicate : Bool) :
    ∃ t, Moved r s a t ∧ BoardKept t (r.applyToStateUnchecked s a adjudicate) := by
  have hgeneral := applyGeneral_moved r h adjudicate
  unfold MillRules.applyToStateUnchecked
  -- whichever path is taken, the same piece comes, goes or moves
  cases h with
  | place n hmarked =>
    have hkind : (placeAction n).kindTag = MillActionKind.place.toI16 := rfl
    rw [tryMove_of_kind r (by rw [hkind]; decide), tryRemove_of_kind r (by rw [hkind]; decide)]
    rcases tryPlace_cases r s n with hslow | ⟨-, -, hfast⟩
    · rw [hslow]
      simpa only [ite_self] using hgeneral
    · rw [hfast]
      exact ⟨_, .place n hmarked, standardPlace_kept r s n _⟩
  | move source target hmarked =>
    have hkind : (moveAction source target).kindTag = MillActionKind.move.toI16 := rfl
    rw [tryPlace_of_kind r (by rw [hkind]; decide), tryRemove_of_kind r (by rw [hkind]; decide)]
    rcases tryMove_cases r s source target with hslow | ⟨-, -, hfast⟩
    · rw [hslow]
      simpa only [ite_self] using hgeneral
    · rw [hfast]
      cases adjudicate with
      | true => exact hgeneral
      | false => exact ⟨_, .move source target hmarked, standardMove_kept r s source target _⟩
  | remove n =>
    have hkind : (removeAction n).kindTag = MillActionKind.remove.toI16 := rfl
    rw [tryPlace_of_kind r (by rw [hkind]; decide), tryMove_of_kind r (by rw [hkind]; decide)]
    rcases tryRemove_cases r s n with hslow | ⟨-, -, hfast⟩
    · rw [hslow]
      simpa only [ite_self] using hgeneral
    · rw [hfast]
      cases adjudicate with
      | true => exact hgeneral
      | false =>
        obtain ⟨t, htaken, hkept⟩ := standardRemove_kept r s n (removeAction n)
        exact ⟨t, .remove n t htaken, hkept⟩

/-- The squares on which the action leaves a live piece: the target of a placement or a move,
and every other square with one that is not left or taken. -/
def LiveAfter (s : MillState) (a : Action) (m : Node) : Prop :=
  if a.kindTag = MillActionKind.remove.toI16 then m.toI8 ≠ a.toNode ∧ s.livePiece m ≠ 0
  else m.toI8 = a.toNode ∨ m.toI8 ≠ a.fromNode ∧ s.livePiece m ≠ 0

theorem Moved.live (h : Moved r s a t) {m : Node} (hlive : LiveAfter s a m) :
    t.livePiece m ≠ 0 := by
  unfold LiveAfter at hlive
  cases h with
  | place n hmarked =>
    refine placeLivePiece_live hmarked m ?_
    rcases hlive with htarget | ⟨-, hlive⟩
    · exact Or.inl ((Node.toI8_inj m n).1 htarget)
    · exact Or.inr hlive
  | move source target hmarked =>
    refine moveLivePiece_live hmarked m ?_
    rcases hlive with htarget | ⟨hsource, hlive⟩
    · exact Or.inl ((Node.toI8_inj m target).1 htarget)
    · exact Or.inr ⟨fun heq => hsource (heq ▸ rfl), hlive⟩
  | remove n t htaken =>
    obtain ⟨hother, hlive⟩ := hlive
    exact htaken.live (fun heq => hother (heq ▸ rfl)) hlive

/-! ## Bytes -/

/-- The pieces fit their bytes. -/
def InBytes (s : MillState) : Prop := ∀ m, -128 ≤ s.board m ∧ s.board m ≤ 127

theorem BoardKept.inBytes (h : BoardKept s t) (hs : InBytes s) : InBytes t := by
  intro m
  rcases h.board m with heq | ⟨-, hzero⟩
  · rw [heq]
    exact hs m
  · rw [hzero]
    decide

theorem inBytes_setAt {board : Node → Int} {piece : Int} (hpiece : -128 ≤ piece ∧ piece ≤ 127)
    (hboard : ∀ m, -128 ≤ board m ∧ board m ≤ 127) (m : Node) :
    -128 ≤ setAt board n piece m ∧ setAt board n piece m ≤ 127 := by
  by_cases heq : m = n
  · rw [heq, setAt_self]
    exact hpiece
  · rw [setAt_of_ne heq]
    exact hboard m

theorem side_inBytes (c : Side) : -128 ≤ c.toI8 + 1 ∧ c.toI8 + 1 ≤ 127 := by
  have h₀ := c.toI8_nonneg
  have h₁ := c.toI8_le_one
  omega

theorem Moved.inBytes (h : Moved r s a t) (hs : InBytes s) : InBytes t := by
  cases h with
  | place n => exact inBytes_setAt (side_inBytes _) hs
  | move source target =>
    exact inBytes_setAt (side_inBytes _) (inBytes_setAt (by decide) hs)
  | remove n t htaken =>
    cases htaken with
    | cleared side => exact inBytes_setAt (by decide) hs
    | marked side => exact hs

theorem decode_inBytes (snap : GameStateSnapshot) : InBytes (MillState.decode snap) := by
  intro m
  show -128 ≤ snap.opaquePayload.readI8 m ∧ snap.opaquePayload.readI8 m ≤ 127
  unfold Payload.readI8
  have hlow := BitVec.le_toInt (snap.opaquePayload.byte m)
  have hhigh := BitVec.toInt_lt (x := snap.opaquePayload.byte m)
  omega

/-- What stands on a square is read back. -/
theorem livePiece_decode_encode (hs : InBytes s) (m : Node) :
    (MillState.decode (s.encode options)).livePiece m = s.livePiece m := by
  have hboard : (MillState.decode (s.encode options)).board m = s.board m :=
    (readI8_board _ m).trans (toInt_i8Byte (hs m))
  have hmarks : (MillState.decode (s.encode options)).delayedMarkedPieces
      = s.delayedMarkedPieces := leBytes32 _
  unfold MillPosition.livePiece MillPosition.isMarked
  rw [hboard, hmarks]

/-- The squares of a snapshot with a live piece. -/
def SnapshotLive (snap : GameStateSnapshot) (m : Node) : Prop :=
  (MillState.decode snap).livePiece m ≠ 0

/-- **Live pieces after a legal action of any snapshot.** -/
theorem applyWithHistory_live {snap : GameStateSnapshot} (ha : a ∈ r.legalActions snap)
    (history : List GameStateSnapshot) {m : Node}
    (hlive : LiveAfter (MillState.decode snap) a m) :
    SnapshotLive (r.applyWithHistory snap a history) m := by
  rw [mem_legalActions_iff] at ha
  obtain ⟨keys, len, hkeys⟩ := hydrate_cases r (MillState.decodeWithOptions snap r.options) snap
    history
  have hgenerated := ha.generated
  have hsame : Generated
      { MillState.decodeWithOptions snap r.options with keyHistory := keys, keyHistoryLen := len }
      a := hgenerated.of_marks rfl
  obtain ⟨t, hmoved, hkept⟩ := applyToStateUnchecked_moved r hsame true
  unfold SnapshotLive MillRules.applyWithHistory MillRules.applyToState
  rw [hgenerated.inBounds, hkeys]
  simp only [Bool.not_true, Bool.false_eq_true, if_false, if_true]
  rw [livePiece_decode_encode (hkept.inBytes (hmoved.inBytes r (decode_inBytes snap)))]
  exact hkept.live (hmoved.live r hlive)

end Sanmill
