import Sanmill.Proof.CachedKey

/-!
# Undoing a search

An undo record stores part of the state, chosen by the options and the state: two cells
or the whole board, a block of scalars with or without the capture extension, and a
length to cut the repetition history back to or a copy of it. What a record leaves out
is what the action leaves alone.
-/

namespace Sanmill

open Bits

variable {r : MillRules} {s t : MillState} {c : Side} {a : Action}

/-! ## The board -/

/-- The cells a record keeps are those of the squares of the action. -/
theorem mem_pushCell {cells : List (Node × Int)} {node : Int} {cell : Node × Int}
    (hcells : ∀ cell ∈ cells, cell.2 = s.board cell.1) :
    cell ∈ MillBoardUndo.pushCell cells s node → cell.2 = s.board cell.1 := by
  unfold MillBoardUndo.pushCell
  cases boardNode? node with
  | none => exact hcells cell
  | some n =>
    simp only
    split
    · exact hcells cell
    · intro hmem
      rcases List.mem_append.1 hmem with hmem | hmem
      · exact hcells cell hmem
      · rw [List.mem_singleton.1 hmem]

/-- A square is remembered once it has been pushed, and stays so. -/
theorem covered_pushCell {cells : List (Node × Int)} {node : Int} {n : Node}
    (h : boardNode? node = some n ∨ ∃ cell ∈ cells, cell.1 = n) :
    ∃ cell ∈ MillBoardUndo.pushCell cells s node, cell.1 = n := by
  unfold MillBoardUndo.pushCell
  cases hnode : boardNode? node with
  | none =>
    rw [hnode] at h
    exact h.resolve_left (by simp)
  | some m =>
    simp only
    by_cases hany : cells.any (fun cell => cell.1 = m) = true
    · rw [if_pos hany]
      rcases h with heq | hmem
      · obtain ⟨cell, hcell, hm⟩ := List.any_eq_true.1 hany
        rw [hnode] at heq
        exact ⟨cell, hcell, (of_decide_eq_true hm).trans (Option.some.inj heq)⟩
      · exact hmem
    · rw [if_neg hany]
      rcases h with heq | ⟨cell, hcell, hn⟩
      · rw [hnode] at heq
        exact ⟨_, List.mem_append_right _ List.mem_cons_self, Option.some.inj heq⟩
      · exact ⟨cell, List.mem_append_left _ hcell, hn⟩

/-- Writing cells back restores the squares they name and leaves the others. -/
theorem foldl_cells {board : Node → Int} {cells : List (Node × Int)}
    (hcells : ∀ cell ∈ cells, cell.2 = s.board cell.1) (n : Node)
    (hn : board n = s.board n ∨ ∃ cell ∈ cells, cell.1 = n) :
    cells.foldl (fun board cell => setAt board cell.1 cell.2) board n = s.board n := by
  induction cells generalizing board with
  | nil =>
    rcases hn with hn | ⟨cell, hcell, -⟩
    · exact hn
    · cases hcell
  | cons cell rest ih =>
    obtain ⟨hcell, hrest⟩ := List.forall_mem_cons.1 hcells
    rw [List.foldl_cons]
    refine ih hrest ?_
    by_cases hsame : n = cell.1
    · left
      rw [hsame, setAt_self, hcell]
    · rw [setAt_of_ne hsame]
      rcases hn with hn | ⟨other, hother, hn⟩
      · exact Or.inl hn
      · rcases List.mem_cons.1 hother with rfl | hmem
        · exact absurd hn.symm hsame
        · exact Or.inr ⟨other, hmem, hn⟩

/-- **The board comes back**, also when only two cells of it were kept. -/
theorem restoreBoard_eq {options : MillVariantOptions} (hkept : KeptOutside s t a) :
    (MillBoardUndo.capture s a options).restoreBoard t = { t with board := s.board } := by
  unfold MillBoardUndo.capture
  by_cases hfull : MillBoardUndo.requiresFullBoardSnapshot s options = true
  · rw [if_pos hfull]
    rfl
  · rw [if_neg hfull]
    have hmarks : s.delayedMarkedPieces = 0 := by
      by_contra hne
      apply hfull
      unfold MillBoardUndo.requiresFullBoardSnapshot
      simp only [decide_eq_true (show s.delayedMarkedPieces ≠ 0 from hne), Bool.true_or]
    have hcells : ∀ cell ∈ MillBoardUndo.pushCell (MillBoardUndo.pushCell [] s a.fromNode) s
        a.toNode, cell.2 = s.board cell.1 := fun cell =>
      mem_pushCell fun cell => mem_pushCell fun cell hcell => absurd hcell List.not_mem_nil
    have hboard : (MillBoardUndo.pushCell (MillBoardUndo.pushCell [] s a.fromNode) s
        a.toNode).foldl (fun board cell => setAt board cell.1 cell.2) t.board = s.board := by
      funext n
      refine foldl_cells hcells n ?_
      by_cases hto : boardNode? a.toNode = some n
      · exact Or.inr (covered_pushCell (Or.inl hto))
      · by_cases hfrom : boardNode? a.fromNode = some n
        · exact Or.inr (covered_pushCell (Or.inr (covered_pushCell (Or.inl hfrom))))
        · refine Or.inl (hkept.board n hfrom hto ?_)
          unfold MillPosition.isMarked
          rw [hmarks]
          exact testBit_zero _
    show { t with board := _ } = _
    rw [hboard]

/-! ## What the records leave out -/

/-- What a step of the search leaves alone, of the fields that not every record keeps. -/
structure SearchStep (options : MillVariantOptions) (s t : MillState) (a : Action) : Prop where
  outside : KeptOutside s t a
  formedMills : options.oneTimeUseMill = false → t.formedMillsBb = s.formedMillsBb
  preferredRemoveTarget : t.preferredRemoveTarget = s.preferredRemoveTarget
  captures : options.custodianCapture.enabled = false →
    options.interventionCapture.enabled = false → options.leapCapture.enabled = false →
    ∀ x, CapturesEmpty t.toMillCaptures x

theorem applyGeneral_searchStep (h : StateInv r.options s) (hturn : TurnInv s c)
    (hstep : LegalStep r.options s c a) : SearchStep r.options s (r.applyGeneral s a false) a := by
  obtain ⟨p, hwritten, hdone⟩ := applyGeneral_done r h hturn hstep false
  refine
    { outside := applyGeneral_keptOutside hstep false
      formedMills := fun hreused => ?_
      preferredRemoveTarget :=
        hdone.sane.preferredRemoveTarget.trans h.sane.preferredRemoveTarget.symm
      captures := hdone.sane.captureRules }
  rw [hdone.keeps.formedMillsBb hreused]
  cases hwritten with
  | place n => rfl
  | move source target history hsearch => rfl
  | remove n mark k owed flags hmark => rfl

/-- A placement and a removal clear the repetition history; a move of the search keeps it. -/
theorem applyGeneral_keyHistory (h : StateInv r.options s) (hturn : TurnInv s c)
    (hstep : LegalStep r.options s c a) :
    (r.applyGeneral s a false).keyHistory
      = if a.kindTag = MillActionKind.place.toI16 ∨ a.kindTag = MillActionKind.remove.toI16 then []
        else s.keyHistory := by
  obtain ⟨p, hwritten, hdone⟩ := applyGeneral_done r h hturn hstep false
  rw [hdone.keeps.keyHistory]
  cases hwritten with
  | place n => rfl
  | move source target history hsearch => exact hsearch rfl
  | remove n mark k owed flags hmark => rfl

/-- **A step of the search**, fast or not. -/
theorem applySearch_step (h : StateInv r.options s) (ha : LegalAction s r.options a) :
    SearchStep r.options s (r.applySearchToState s a) a
      ∧ (r.applySearchToState s a).keyHistory
        = if a.kindTag = MillActionKind.place.toI16
          ∨ a.kindTag = MillActionKind.remove.toI16 then []
          else s.keyHistory := by
  obtain ⟨c, hturn, hstep⟩ := h.legalStep ha
  have hgeneral := applyGeneral_searchStep h hturn hstep
  have hhistory := applyGeneral_keyHistory h hturn hstep
  unfold MillRules.applySearchToState
  rcases applyToStateUnchecked_cases r h hturn hstep false with
    ⟨⟨key, heq⟩, -⟩ | ⟨-, -, ⟨key, heq⟩, -, -⟩
  · rw [heq]
    exact ⟨{ hgeneral with outside := ⟨hgeneral.outside.board, hgeneral.outside.marks⟩ }, hhistory⟩
  · rw [heq]
    exact ⟨{ hgeneral with outside := ⟨hgeneral.outside.board, hgeneral.outside.marks⟩ }, hhistory⟩

theorem SearchStep.withHistory {options : MillVariantOptions} (h : SearchStep options s t a)
    (history : List Key) : SearchStep options s { t with keyHistory := history } a :=
  { h with outside := ⟨h.outside.board, h.outside.marks⟩ }

/-! ## One record -/

/-- The captures of two states without any are the same. -/
theorem captures_eq_of_empty {k k' : MillCaptures} (h : ∀ x, CapturesEmpty k x)
    (h' : ∀ x, CapturesEmpty k' x) : k = k' := by
  have hfun : ∀ {α : Type} (f g : Side → α) (v : α), (∀ x, f x = v) → (∀ x, g x = v) → f = g := by
    intro α f g v hf hg
    funext x
    rw [hf, hg]
  cases k
  cases k'
  simp only [MillCaptures.mk.injEq]
  exact ⟨hfun _ _ 0 (fun x => (h x).custodian) fun x => (h' x).custodian,
    hfun _ _ 0 (fun x => (h x).intervention) fun x => (h' x).intervention,
    hfun _ _ 0 (fun x => (h x).leap) fun x => (h' x).leap,
    hfun _ _ 0 (fun x => (h x).custodianCount) fun x => (h' x).custodianCount,
    hfun _ _ 0 (fun x => (h x).interventionCount) fun x => (h' x).interventionCount,
    hfun _ _ 0 (fun x => (h x).leapCount) fun x => (h' x).leapCount⟩

/-- The core of a record restores everything but the repetition history. -/
theorem core_restore_eq (hstep : SearchStep r.options s t a) :
    (MillUndoCore.capture s a r.options r.standardFastPath).restore t
      = { s with keyHistory := t.keyHistory } := by
  unfold MillUndoCore.capture MillStandardUndo.capture?
  by_cases hfull : (!r.standardFastPath) = true ∨ s.delayedMarkedPieces ≠ 0
      ∨ (!captureStateIsEmpty s) = true
  · rw [if_pos hfull]
    show MillUndoFullCore.restore _ t = _
    unfold MillUndoFullCore.restore MillUndoFullCore.capture
    simp only
    rw [restoreBoard_eq hstep.outside]
    rfl
  · rw [if_neg hfull]
    simp only [not_or, Bool.not_eq_true', Bool.not_eq_false, ne_eq, not_not] at hfull
    obtain ⟨hstandard, hmarks, hempty⟩ := hfull
    have hrules := standardRules_of_enabled hstandard
    show MillStandardUndo.restore _ t = _
    unfold MillStandardUndo.restore
    simp only
    rw [restoreBoard_eq hstep.outside]
    have hcaptures : t.toMillCaptures = s.toMillCaptures :=
      captures_eq_of_empty
        (hstep.captures hrules.noCustodian hrules.noIntervention hrules.noLeap)
        (captureStateIsEmpty_iff_empty.1 hempty)
    -- the block holds the other fields
    have hblock : ({ (MillStandardUndoScalars.capture s).restore { t with board := s.board } with
        delayedMarkedPieces := 0 } : MillState)
        = { s with
            delayedMarkedPieces := 0
            toMillCaptures := t.toMillCaptures
            formedMillsBb := t.formedMillsBb
            preferredRemoveTarget := t.preferredRemoveTarget
            keyHistory := t.keyHistory } := rfl
    refine hblock.trans ?_
    rw [hcaptures, hstep.formedMills hrules.reusableMills, hstep.preferredRemoveTarget, ← hmarks]

/-- **Taking a step of the search back** restores every field of the state. -/
theorem undoState_restore (h : StateInv r.options s) (ha : LegalAction s r.options a) :
    (MillUndoState.capture s a r.options r.standardFastPath).restore (r.applySearchToState s a)
      = s := by
  obtain ⟨hstep, hhistory⟩ := applySearch_step h ha
  generalize r.applySearchToState s a = t at hstep hhistory
  have hcore : ∀ history, (MillUndoCore.capture s a r.options r.standardFastPath).restore
      { t with keyHistory := history } = { s with keyHistory := history } := fun history =>
    core_restore_eq (hstep.withHistory history)
  unfold MillUndoState.restore MillUndoState.capture
  simp only
  by_cases hmust : s.keyHistory.length = millRepetitionHistoryCap
      ∨ ((decide (a.kindTag = MillActionKind.place.toI16
        ∨ a.kindTag = MillActionKind.remove.toI16)) = true ∧ s.keyHistory ≠ [])
  · rw [decide_eq_true hmust]
    exact hcore s.keyHistory
  · rw [decide_eq_false hmust]
    show (MillUndoCore.capture s a r.options r.standardFastPath).restore
      { t with keyHistory := t.keyHistory.take s.keyHistory.length } = s
    -- a history that is cut was empty, or has not been touched
    have htake : t.keyHistory.take s.keyHistory.length = s.keyHistory := by
      rw [hhistory]
      split
      · rename_i hclears
        have hempty : s.keyHistory = [] := by
          by_contra hne
          exact hmust (Or.inr ⟨decide_eq_true hclears, hne⟩)
        rw [hempty]
        rfl
      · exact List.take_length
    rw [htake]
    exact hcore s.keyHistory

/-! ## Runs of the search -/

namespace MillWorkbench

/-- `do_move` of each action in turn. -/
def doMoves : MillWorkbench → List Action → Option MillWorkbench
  | wb, [] => some wb
  | wb, a :: line => (wb.doMove a).bind fun wb => doMoves wb line

/-- `undo_move`, `n` times. -/
def undoMoves : Nat → MillWorkbench → MillWorkbench
  | 0, wb => wb
  | n + 1, wb => (undoMoves n wb).undoMove

/-- Each action of the line is generated where it is played. -/
def Generated : MillWorkbench → List Action → Prop
  | _, [] => True
  | wb, a :: line =>
    a ∈ MillGame.generateLegal wb ∧ ∀ next, wb.doMove a = some next → Generated next line

instance decidableGenerated : (line : List Action) → (wb : MillWorkbench) →
    Decidable (wb.Generated line)
  | [], _ => .isTrue trivial
  | a :: line, wb =>
    have : DecidablePred fun next : MillWorkbench => next.Generated line :=
      decidableGenerated line
    decidable_of_iff (a ∈ MillGame.generateLegal wb ∧ ∀ next ∈ wb.doMove a, next.Generated line)
      (Iff.rfl)

end MillWorkbench

variable {wb next : MillWorkbench}

/-- One move of the search, and the way back. -/
theorem undoMove_doMove (hrules : wb.rules = r) (h : SearchReachable r wb.state)
    (ha : a ∈ MillGame.generateLegal wb) (hmove : wb.doMove a = some next) :
    next.undoMove = wb ∧ next.rules = r ∧ SearchReachable r next.state
      ∧ next.undoStack.length = wb.undoStack.length + 1 := by
  obtain ⟨rules, state, stack⟩ := wb
  have hlegal : LegalAction state r.options a := by
    unfold MillGame.generateLegal at ha
    rw [mem_legalActionsWithPriority mem_staticMovePriorityForSearch] at ha
    rw [← hrules]
    exact ha
  simp only at hrules
  subst hrules
  unfold MillWorkbench.doMove at hmove
  by_cases hroom : stack.length < millSearchStackCapacity
  · rw [if_pos hroom] at hmove
    cases hmove
    refine ⟨?_, rfl, .doMove h hlegal, rfl⟩
    unfold MillWorkbench.undoMove
    simp only
    rw [undoState_restore h.inv hlegal]
  · rw [if_neg hroom] at hmove
    cases hmove

theorem undoMoves_doMoves_from {line : List Action} (hrules : wb.rules = r)
    (h : SearchReachable r wb.state) (hline : wb.Generated line)
    (hroom : wb.undoStack.length + line.length ≤ millSearchStackCapacity) :
    ∃ last, wb.doMoves line = some last ∧ last.undoMoves line.length = wb := by
  induction line generalizing wb with
  | nil => exact ⟨wb, rfl, rfl⟩
  | cons a line ih =>
    rw [List.length_cons] at hroom
    have hmove : ∃ next, wb.doMove a = some next := by
      unfold MillWorkbench.doMove
      rw [if_pos (by omega)]
      exact ⟨_, rfl⟩
    obtain ⟨next, hmove⟩ := hmove
    obtain ⟨hundo, hrules', hreached, hlength⟩ := undoMove_doMove hrules h hline.1 hmove
    obtain ⟨last, hlast, hback⟩ := ih hrules' hreached (hline.2 next hmove) (by omega)
    refine ⟨last, ?_, ?_⟩
    · unfold MillWorkbench.doMoves
      rw [hmove]
      exact hlast
    · show (last.undoMoves line.length).undoMove = wb
      rw [hback, hundo]

/--
**A search that is taken back has changed nothing.** From a reachable snapshot, up to as
many generated moves as the stack holds are all made, and as many undos restore the
workbench in every field.
-/
theorem undoMoves_doMoves {snap : GameStateSnapshot} {rootRepetitionHistory : List Key}
    {line : List Action} (h : Reachable r snap)
    (hwb : MillGame.buildWorkbench ⟨r.options, rootRepetitionHistory⟩ snap = some wb)
    (hline : wb.Generated line) (hlen : line.length ≤ millSearchStackCapacity) :
    ∃ last, wb.doMoves line = some last ∧ last.undoMoves line.length = wb := by
  obtain ⟨hrules, hstack, -⟩ := buildWorkbench_eq hwb
  refine undoMoves_doMoves_from hrules (.load rootRepetitionHistory h hwb) hline ?_
  rw [hstack]
  exact (Nat.zero_add _).le.trans hlen

/-- Black has three pieces, which fly. -/
def threeLeftWorkbench : MillWorkbench :=
  ⟨laskerRules, MillState.decodeWithOptions threeLeft laskerRules.options, []⟩

/-- The theorem for two flights, a mill and the removal that decides the game. -/
theorem undoMoves_doMoves_lastFlights :
    ∃ last, threeLeftWorkbench.doMoves lastFlights = some last
      ∧ last.undoMoves 5 = threeLeftWorkbench :=
  undoMoves_doMoves threeLeft_reachable (buildWorkbench_nil laskerRules threeLeft)
    (by decide +kernel) (by decide)

end Sanmill
