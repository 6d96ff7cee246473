import Mathlib.Data.List.Forall2
import Sanmill.Proof.LivePieces
import Sanmill.Session.Session

/-!
# Piece numbers beside the kernel's stacks

The session mirrors the undo and the redo stack of the kernel by its own stacks of piece
numbers. Entry by entry, the numbers of one stack belong to live pieces of the snapshot at
the same place of the other; an action, an undo and a redo of the kernel keep this.
-/

namespace Sanmill

open List (Forall₂)

/-! ## Two stacks side by side -/

section Stacks

variable {α β : Type*} {R : α → β → Prop} {xs : List α} {ys : List β} {x : α} {y : β}

theorem forall₂_concat (h : Forall₂ R xs ys) (hlast : R x y) :
    Forall₂ R (xs ++ [x]) (ys ++ [y]) :=
  List.rel_append h (.cons hlast .nil)

/-- The tops of the two stacks are related, and so is what lies below them. -/
theorem forall₂_top (h : Forall₂ R xs ys) (htop : ys.getLast? = some y) :
    ∃ x, xs.getLast? = some x ∧ R x y ∧ Forall₂ R xs.dropLast ys.dropLast := by
  obtain ⟨below, rfl⟩ := List.getLast?_eq_some_iff.1 htop
  obtain ⟨below', x, rfl⟩ : ∃ below' x, xs = below' ++ [x] := by
    refine ⟨xs.dropLast, xs.getLast ?_, (List.dropLast_append_getLast _).symm⟩
    rintro rfl
    have hlength := h.length_eq
    simp at hlength
  have hreverse := List.forall₂_reverse_iff.2 h
  simp only [List.reverse_append, List.reverse_cons, List.reverse_nil, List.nil_append,
    List.cons_append, List.forall₂_cons] at hreverse
  refine ⟨x, List.getLast?_concat, hreverse.1, ?_⟩
  simp only [List.dropLast_concat]
  exact List.forall₂_reverse_iff.1 hreverse.2

end Stacks

/-! ## Numbers on live pieces -/

/-- Every number belongs to a node with a live piece. -/
def Attached (numbers : MillPieceNumberState) (snap : GameStateSnapshot) : Prop :=
  ∀ node number, numbers.byNode node = some number → ∃ n : Node, node = n.toI8 ∧ SnapshotLive snap n

theorem Attached.empty (snap : GameStateSnapshot) : Attached .empty snap := by
  intro node number h
  cases h

variable {r : MillRules} {numbers : MillPieceNumberState} {snap : GameStateSnapshot}
  {action : GameAction}

/-- A number after an action stands where the action leaves a live piece. -/
theorem Attached.after_live (h : Attached numbers snap)
    (hgenerated : Generated (MillState.decode snap) action.tgfAction) {node : Int} {number : Nat}
    (hnumber : (numbers.after action).byNode node = some number) :
    ∃ n : Node, node = n.toI8 ∧ LiveAfter (MillState.decode snap) action.tgfAction n := by
  obtain ⟨tgfAction⟩ := action
  unfold LiveAfter
  -- one case for each action: the number comes, moves along or goes with its piece
  cases hgenerated with
  | place target hmarked =>
    have hnumber : Function.update numbers.byNode target.toI8 _ node = some number := hnumber
    by_cases htarget : node = target.toI8
    · exact ⟨target, htarget, Or.inl rfl⟩
    · have hkept : numbers.byNode node = some number := by
        rwa [Function.update_of_ne htarget] at hnumber
      obtain ⟨n, rfl, hlive⟩ := h node number hkept
      exact ⟨n, rfl, Or.inr ⟨Node.toI8_ne_neg_one n, hlive⟩⟩
  | move source target hmarked =>
    have hnumber : Function.update (Function.update numbers.byNode source.toI8 none)
        target.toI8 _ node = some number := hnumber
    by_cases htarget : node = target.toI8
    · exact ⟨target, htarget, Or.inl rfl⟩
    · have hsource : node ≠ source.toI8 := by
        rintro rfl
        rw [Function.update_of_ne htarget, Function.update_self] at hnumber
        cases hnumber
      have hkept : numbers.byNode node = some number := by
        rwa [Function.update_of_ne htarget, Function.update_of_ne hsource] at hnumber
      obtain ⟨n, rfl, hlive⟩ := h node number hkept
      exact ⟨n, rfl, Or.inr ⟨hsource, hlive⟩⟩
  | remove target =>
    have hnumber : Function.update numbers.byNode target.toI8 none node = some number := hnumber
    have htarget : node ≠ target.toI8 := by
      rintro rfl
      rw [Function.update_self] at hnumber
      cases hnumber
    have hkept : numbers.byNode node = some number := by
      rwa [Function.update_of_ne htarget] at hnumber
    obtain ⟨n, rfl, hlive⟩ := h node number hkept
    exact ⟨n, rfl, htarget, hlive⟩

/-- **The numbers follow the pieces of a legal action.** -/
theorem Attached.after (h : Attached numbers snap) (hlegal : action.tgfAction ∈ r.legalActions snap)
    (history : List GameStateSnapshot) :
    Attached (numbers.after action) (r.applyWithHistory snap action.tgfAction history) := by
  have hgenerated : Generated (MillState.decode snap) action.tgfAction :=
    ((mem_legalActions_iff r snap _).1 hlegal).generated.of_marks rfl
  intro node number hnumber
  obtain ⟨n, rfl, hlive⟩ := h.after_live hgenerated hnumber
  exact ⟨n, rfl, applyWithHistory_live r hlegal history hlive⟩

/-- A snapshot that keeps the live pieces keeps the numbers. -/
theorem Attached.mono {snap' : GameStateSnapshot} (h : Attached numbers snap)
    (hlive : ∀ n, SnapshotLive snap n → SnapshotLive snap' n) : Attached numbers snap' := by
  intro node number hnumber
  obtain ⟨n, hnode, hn⟩ := h node number hnumber
  exact ⟨n, hnode, hlive n hn⟩

/-! ## Edited positions -/

theorem setupSetSide_live (r : MillRules) (kernel : GameKernel) (side : Int) {n : Node}
    (h : SnapshotLive kernel.state n) : SnapshotLive (r.setupSetSide kernel side).state n := by
  have hbytes : InBytes ((MillState.decode kernel.state).setSideToMove (max 0 (min side 1))) :=
    decode_inBytes kernel.state
  show (MillState.decode (MillState.encode _ _)).livePiece n ≠ 0
  rw [livePiece_decode_encode hbytes]
  exact h

theorem setupPhase_board (s : MillState) (options : MillVariantOptions) :
    (s.setupPhase options).board = s.board
      ∧ (s.setupPhase options).delayedMarkedPieces = s.delayedMarkedPieces := by
  unfold MillState.setupPhase
  split
  · exact ⟨rfl, rfl⟩
  · split
    · exact ⟨rfl, rfl⟩
    · exact ⟨rfl, rfl⟩

theorem recomputeAux_board (s : MillState) (options : MillVariantOptions) :
    (s.recomputeAux options).board = s.board
      ∧ (s.recomputeAux options).delayedMarkedPieces = 0 := by
  unfold MillState.recomputeAux recomputeMobilityDiff
  exact ⟨rfl, rfl⟩

/-- The marks are dropped, and the pieces under them stay. -/
theorem setupFinish_live (r : MillRules) (kernel : GameKernel) {n : Node}
    (h : SnapshotLive kernel.state n) : SnapshotLive (r.setupFinish kernel).state n := by
  obtain ⟨hphase, hmarks⟩ :=
    setupPhase_board ((MillState.decode kernel.state).recomputeAux r.options) r.options
  obtain ⟨haux, hcleared⟩ := recomputeAux_board (MillState.decode kernel.state) r.options
  have hboard := hphase.trans haux
  have hbytes : InBytes (((MillState.decode kernel.state).recomputeAux r.options).setupPhase
      r.options) := by
    intro m
    rw [hboard]
    exact decode_inBytes kernel.state m
  show (MillState.decode (MillState.encode _ _)).livePiece n ≠ 0
  rw [livePiece_decode_encode hbytes, livePiece_ne_zero_iff, hboard]
  refine ⟨?_, (livePiece_ne_zero_iff.1 h).2⟩
  unfold MillPosition.isMarked
  rw [hmarks, hcleared]
  exact Bits.testBit_zero _

/-! ## Numbers and stacks -/

/-- The stacks of numbers lie beside those of the kernel. -/
structure NumbersMatch (history : PieceNumberHistory) (redo : List MillPieceNumberState)
    (kernel : GameKernel) : Prop where
  last : Attached history.last kernel.state
  before : Forall₂ Attached history.before kernel.history
  redo : Forall₂ Attached redo kernel.redoStack

namespace NumbersMatch

variable {kernel kernel' : GameKernel} {history : PieceNumberHistory}
  {redo : List MillPieceNumberState}

/-- No numbers go with a kernel that has just been set. -/
theorem reset (hhistory : kernel.history = []) (hredo : kernel.redoStack = []) :
    NumbersMatch ⟨[], .empty⟩ [] kernel where
  last := .empty _
  before := by
    rw [hhistory]
    exact .nil
  redo := by
    rw [hredo]
    exact .nil

theorem apply (h : NumbersMatch history redo kernel)
    (happly : kernel.apply r.gameRules action.tgfAction = some kernel') :
    NumbersMatch ⟨history.before ++ [history.last], history.last.after action⟩ [] kernel' := by
  unfold GameKernel.apply at happly
  split at happly
  · rename_i hlegal
    obtain rfl := Option.some.inj happly
    exact
      { last := h.last.after (List.contains_iff_mem.1 hlegal) _
        before := forall₂_concat h.before h.last
        redo := .nil }
  · cases happly

theorem undo (h : NumbersMatch history redo kernel) (hundo : kernel.undo = some kernel') :
    ∃ numbers, history.before.getLast? = some numbers
      ∧ NumbersMatch ⟨history.before.dropLast, numbers⟩ (redo ++ [history.last]) kernel' := by
  obtain ⟨prev, htop, rfl⟩ := Option.map_eq_some_iff.1 hundo
  obtain ⟨numbers, hnumbers, hattached, hbelow⟩ := forall₂_top h.before htop
  exact ⟨numbers, hnumbers,
    { last := hattached
      before := hbelow
      redo := forall₂_concat h.redo h.last }⟩

theorem redone (h : NumbersMatch history redo kernel) (hredo : kernel.redo = some kernel') :
    ∃ numbers, redo.getLast? = some numbers
      ∧ NumbersMatch ⟨history.before ++ [history.last], numbers⟩ redo.dropLast kernel' := by
  obtain ⟨next, htop, rfl⟩ := Option.map_eq_some_iff.1 hredo
  obtain ⟨numbers, hnumbers, hattached, hbelow⟩ := forall₂_top h.redo htop
  exact ⟨numbers, hnumbers,
    { last := hattached
      before := forall₂_concat h.before h.last
      redo := hbelow }⟩

/-- Stacks that are empty stay so when the kernel's state is edited under its pieces. -/
theorem edit (h : NumbersMatch history redo kernel) (hhistory : kernel.history = [])
    (hredo : kernel.redoStack = []) {snap : GameStateSnapshot}
    (hlive : ∀ n, SnapshotLive kernel.state n → SnapshotLive snap n) :
    NumbersMatch history redo (kernel.replaceState snap) where
  last := h.last.mono hlive
  before := by
    have hbefore := h.before
    rwa [hhistory] at hbefore
  redo := by
    have hafter := h.redo
    rwa [hredo] at hafter

end NumbersMatch

end Sanmill
