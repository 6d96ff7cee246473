import Sanmill.Search.Root

/-!
# What every search leaves as it was

`Kept s s'` is the frame of a search: settings and the repetition stack are
unchanged, counters only grow, an abort once noticed stays noticed, and the
journal only gains entries. Every search function keeps it and hands the
workbench back as it got it, whatever the table answers and whenever the abort
comes.
-/

namespace Sanmill

namespace Searcher

/-!
## Move ordering only permutes

Every ordering step of a root or a node, the shuffle, the stable sort, the
promotion of a hash move, hands back the moves it was given. So a result about
the set of moves does not depend on the order they are searched in.
-/

section Ordering

variable {W : Type} (g : Game W)

theorem swapIfInBounds_perm (moves : List Action) (i j : Nat) :
    (moves.toArray.swapIfInBounds i j).toList.Perm moves := by
  unfold Array.swapIfInBounds
  split
  · split
    · exact (Array.perm_iff_toList_perm.1 (Array.swap_perm _ _))
    · exact List.Perm.refl _
  · exact List.Perm.refl _

theorem insertMove_perm (scored : Action × Int) (sorted : List (Action × Int)) :
    (insertMove scored sorted).Perm (scored :: sorted) := by
  induction sorted with
  | nil => exact List.Perm.refl _
  | cons prev rest ih =>
    unfold insertMove
    split
    · exact (ih.cons prev).trans (List.Perm.swap scored prev rest)
    · exact List.Perm.refl _

theorem foldl_insertMove_perm (scored sorted : List (Action × Int)) :
    (scored.foldl (fun sorted move => insertMove move sorted) sorted).Perm (scored ++ sorted) := by
  induction scored generalizing sorted with
  | nil => exact List.Perm.refl _
  | cons move rest ih =>
    have hinsert := (insertMove_perm move sorted).append_left rest
    exact (ih (insertMove move sorted)).trans (hinsert.trans List.perm_middle)

theorem sortMoves_perm (moves : List Action) (scores : Nat → Int) :
    (sortMoves moves scores).Perm moves := by
  unfold sortMoves
  have hsort := foldl_insertMove_perm (moves.zipIdx.map fun move => (move.1, scores move.2)) []
  rw [List.append_nil] at hsort
  have hfst : (moves.zipIdx.map fun move => (move.1, scores move.2)).map Prod.fst = moves := by
    rw [List.map_map]
    exact List.zipIdx_map_fst 0 moves
  exact (((List.reverse_perm _).trans hsort).map Prod.fst).trans (List.Perm.of_eq hfst)

theorem orderMovesImpl_perm (s : Searcher) (wb : W) (key : BitVec 64) (moves : List Action)
    (ttMove : Option Action) (probeTtMove : Bool) :
    (s.orderMovesImpl g wb key moves ttMove probeTtMove).Perm moves := by
  unfold orderMovesImpl
  split
  · exact List.Perm.refl _
  · simp only
    split
    · split
      · exact sortMoves_perm _ _
      · exact swapIfInBounds_perm _ _ _
    · split
      · exact sortMoves_perm _ _
      · exact List.Perm.refl _

theorem orderMoves_perm (s : Searcher) (wb : W) (key : BitVec 64) (moves : List Action) :
    (s.orderMoves g wb key moves).Perm moves :=
  orderMovesImpl_perm g s wb key moves none true

theorem orderMovesWithTtMove_perm (s : Searcher) (wb : W) (key : BitVec 64) (moves : List Action)
    (ttMove : Option Action) : (s.orderMovesWithTtMove g wb key moves ttMove).Perm moves :=
  orderMovesImpl_perm g s wb key moves ttMove false

theorem shuffleFrom_perm (i : Nat) (moves : Array Action) (s : Searcher) :
    (shuffleFrom i moves s).1.toList.Perm moves.toList := by
  induction i generalizing moves s with
  | zero => exact List.Perm.refl _
  | succ i ih =>
    unfold shuffleFrom
    exact (ih _ _).trans (swapIfInBounds_perm moves.toList _ _)

theorem shuffleMoves_perm (s : Searcher) (moves : List Action) :
    (s.shuffleMoves moves).1.Perm moves :=
  shuffleFrom_perm (moves.length - 1) moves.toArray s

theorem promoteRootPvMove_perm (moves : List Action) (bestAction : Action) :
    (promoteRootPvMove moves bestAction).Perm moves := by
  unfold promoteRootPvMove
  split
  · exact List.Perm.refl _
  · split
    · exact swapIfInBounds_perm _ _ _
    · exact List.Perm.refl _

end Ordering

/-! ## The frame -/

variable {W : Type} {g : Game W}

structure Kept (s s' : Searcher) : Prop where
  options : s'.options = s.options
  policy : s'.policy = s.policy
  qsearchMaxDepth : s'.qsearchMaxDepth = s.qsearchMaxDepth
  stack : s'.repetitionStack = s.repetitionStack
  incomingReset : s'.repetitionCurrentIncomingReset = s.repetitionCurrentIncomingReset
  aborted : s.aborted = true → s'.aborted = true
  ttHits : s.ttHits ≤ s'.ttHits
  repetitionCuts : s.repetitionCuts ≤ s'.repetitionCuts
  journal : s.journal <:+ s'.journal

namespace Kept

variable {s t u : Searcher}

theorem refl (s : Searcher) : Kept s s :=
  ⟨rfl, rfl, rfl, rfl, rfl, id, Nat.le_refl _, Nat.le_refl _, List.suffix_refl _⟩

theorem trans (h : Kept s t) (h' : Kept t u) : Kept s u where
  options := h'.options.trans h.options
  policy := h'.policy.trans h.policy
  qsearchMaxDepth := h'.qsearchMaxDepth.trans h.qsearchMaxDepth
  stack := h'.stack.trans h.stack
  incomingReset := h'.incomingReset.trans h.incomingReset
  aborted := fun ha => h'.aborted (h.aborted ha)
  ttHits := Nat.le_trans h.ttHits h'.ttHits
  repetitionCuts := Nat.le_trans h.repetitionCuts h'.repetitionCuts
  journal := h.journal.trans h'.journal

/-- An abort not noticed at the end was never noticed. -/
theorem not_aborted (h : Kept s t) (ht : t.aborted = false) : s.aborted = false := by
  cases hs : s.aborted with
  | false => rfl
  | true => exact absurd (h.aborted hs) (by simp [ht])

end Kept

/-! ## The bookkeeping steps -/

section Steps

variable (s : Searcher)

theorem Kept.countNode : Kept s { s with nodes := s.nodes + 1 } :=
  ⟨rfl, rfl, rfl, rfl, rfl, id, Nat.le_refl _, Nat.le_refl _, List.suffix_refl _⟩

theorem Kept.clearRootMoves : Kept s { s with rootMoves := [] } :=
  ⟨rfl, rfl, rfl, rfl, rfl, id, Nat.le_refl _, Nat.le_refl _, List.suffix_refl _⟩

theorem Kept.countRepetition : Kept s { s with repetitionCuts := s.repetitionCuts + 1 } :=
  ⟨rfl, rfl, rfl, rfl, rfl, id, Nat.le_refl _, Nat.le_succ _, List.suffix_refl _⟩

theorem Kept.countTtHit : Kept s s.countTtHit :=
  ⟨rfl, rfl, rfl, rfl, rfl, id, Nat.le_succ _, Nat.le_refl _, List.suffix_refl _⟩

theorem Kept.countTtMiss (key : BitVec 64) : Kept s (s.countTtMiss key) :=
  ⟨rfl, rfl, rfl, rfl, rfl, id, Nat.le_refl _, Nat.le_refl _, List.suffix_refl _⟩

theorem Kept.note (event : SearchEvent) : Kept s (s.note event) :=
  ⟨rfl, rfl, rfl, rfl, rfl, id, Nat.le_refl _, Nat.le_refl _, List.suffix_cons _ _⟩

theorem Kept.saveTt (key : BitVec 64) (depth value : Int) (bound : Bound) (action : Action) :
    Kept s (s.saveTt g key depth value bound action) :=
  ⟨rfl, rfl, rfl, rfl, rfl, id, Nat.le_refl _, Nat.le_refl _, List.suffix_cons _ _⟩

theorem Kept.recordRootMove (action : Action) (value : Int) (nodes : Nat) (cutoff : Bool) :
    Kept s (s.recordRootMove action value nodes cutoff) := by
  unfold Searcher.recordRootMove
  split
  · exact ⟨rfl, rfl, rfl, rfl, rfl, id, Nat.le_refl _, Nat.le_refl _, List.suffix_refl _⟩
  · exact Kept.refl s

/-- The abort check changes the abort flag only, and answers with it. -/
theorem shouldAbort_spec :
    (s.shouldAbort).1 = (s.shouldAbort).2.aborted ∧ Kept s (s.shouldAbort).2 := by
  unfold shouldAbort
  cases ha : s.aborted with
  | true => exact ⟨by simp [ha], by simpa using Kept.refl s⟩
  | false =>
    simp only [Bool.false_eq_true, if_false]
    split
    · split
      · exact ⟨by simp [ha], Kept.refl s⟩
      · exact ⟨rfl, rfl, rfl, rfl, rfl, rfl, fun h => absurd (ha.symm.trans h) (by simp),
          Nat.le_refl _, Nat.le_refl _, List.suffix_refl _⟩
    · exact ⟨rfl, rfl, rfl, rfl, rfl, rfl, fun h => absurd (ha.symm.trans h) (by simp),
        Nat.le_refl _, Nat.le_refl _, List.suffix_refl _⟩

theorem shouldAbort_cases {stop : Bool} {t : Searcher} (h : s.shouldAbort = (stop, t)) :
    stop = t.aborted ∧ Kept s t := by
  have hspec := shouldAbort_spec s
  rw [h] at hspec
  exact hspec

theorem Kept.opened (node : OpenNode) : Kept s (s.opened node) :=
  ⟨rfl, rfl, rfl, rfl, rfl, id, Nat.le_refl _, Nat.le_refl _, List.suffix_refl _⟩

theorem Kept.closed : Kept s s.closed :=
  ⟨rfl, rfl, rfl, rfl, rfl, id, Nat.le_refl _, Nat.le_refl _, List.suffix_refl _⟩

theorem strike_kept (value : Int) (action : Action) :
    (s.strike value action).aborted = s.aborted ∧ Kept s (s.strike value action) := by
  unfold strike
  split
  · exact ⟨rfl, Kept.refl s⟩
  · exact ⟨rfl, rfl, rfl, rfl, rfl, rfl, id, Nat.le_refl _, Nat.le_refl _, List.suffix_cons _ _⟩

/-- The check says no exactly when the abort has not been noticed afterwards either. -/
theorem checkAbort_cases {value : Int} {action : Action} {stop : Bool} {t : Searcher}
    (h : s.checkAbort value action = (stop, t)) : stop = t.aborted ∧ Kept s t := by
  rcases hcheck : s.shouldAbort with ⟨stop', u⟩
  obtain ⟨hstop, hkept⟩ := shouldAbort_cases s hcheck
  obtain ⟨haborted, hstruck⟩ := strike_kept u value action
  unfold checkAbort at h
  rw [hcheck] at h
  obtain ⟨rfl, rfl⟩ := Prod.mk.inj h
  split
  · exact ⟨hstop.trans haborted.symm, hkept.trans hstruck⟩
  · exact ⟨hstop, hkept⟩

end Steps

/-- What a push leaves alone. -/
structure Pushed (s t : Searcher) : Prop where
  options : t.options = s.options
  policy : t.policy = s.policy
  qsearchMaxDepth : t.qsearchMaxDepth = s.qsearchMaxDepth
  stack : t.repetitionStack.length ≤ s.repetitionStack.length + 1
  aborted : t.aborted = s.aborted
  ttHits : t.ttHits = s.ttHits
  repetitionCuts : t.repetitionCuts = s.repetitionCuts
  journal : t.journal = s.journal

theorem pushed_of_push {s t : Searcher} {key : BitVec 64} {action : Action} {previous : Bool}
    (hpush : s.pushRepetitionAncestor g key action = some (previous, t)) : Pushed s t := by
  unfold pushRepetitionAncestor at hpush
  simp only at hpush
  split at hpush
  · cases hpush
  · obtain ⟨-, rfl⟩ := Prod.mk.inj (Option.some.inj hpush)
    refine ⟨rfl, rfl, rfl, ?_, rfl, rfl, rfl, rfl⟩
    simp only
    split
    · exact Nat.le_refl _
    · exact Nat.le_succ _

theorem Pushed.of_opened {s t : Searcher} {node : OpenNode} (h : Pushed (s.opened node) t) :
    Pushed s t :=
  ⟨h.options, h.policy, h.qsearchMaxDepth, h.stack, h.aborted, h.ttHits, h.repetitionCuts,
    h.journal⟩

/-- Popping after a search that kept the stack undoes the push. -/
theorem Kept.pop_push {s t u : Searcher} {key : BitVec 64} {action : Action} {previous : Bool}
    (hpush : s.pushRepetitionAncestor g key action = some (previous, t)) (h : Kept t u) :
    Kept s (u.popRepetitionAncestor key previous) := by
  unfold pushRepetitionAncestor at hpush
  simp only at hpush
  split at hpush
  · cases hpush
  · obtain ⟨rfl, rfl⟩ := Prod.mk.inj (Option.some.inj hpush)
    refine ⟨h.options, h.policy, h.qsearchMaxDepth, ?_, rfl, h.aborted, h.ttHits,
      h.repetitionCuts, h.journal⟩
    simp only [popRepetitionAncestor, h.stack]
    split <;> rfl

/-! ## The searches -/

/-- A subtree search that keeps the frame and restores the workbench. -/
def Restores (search : WindowSearch W) : Prop :=
  ∀ ⦃alpha beta s wb v s' wb'⦄, search alpha beta s wb = some (v, s', wb') → Kept s s' ∧ wb' = wb

theorem searchAfterMove_restores {search : WindowSearch W} (h : Restores search)
    {alpha beta before after v : Int} {s s' : Searcher} {wb wb' : W}
    (hrun : searchAfterMove search alpha beta before after s wb = some (v, s', wb')) :
    Kept s s' ∧ wb' = wb := by
  unfold searchAfterMove at hrun
  split at hrun
  · obtain ⟨⟨w, t, ub⟩, hsearch, heq⟩ := Option.map_eq_some_iff.1 hrun
    obtain ⟨-, rfl, rfl⟩ := by simpa using heq
    obtain ⟨hkept, rfl⟩ := h hsearch
    exact ⟨((Kept.opened s _).trans hkept).trans (Kept.closed t), rfl⟩
  · exact h hrun

theorem qsearchLoop_restores {child : WindowSearch W} (hchild : Restores child) {beta : Int}
    {moves : List Action} {alpha v : Int} {s s' : Searcher} {wb wb' : W}
    (hundo : ∀ a ∈ moves, g.undoMove (g.doMove wb a) = wb)
    (hrun : qsearchLoop g child beta moves alpha s wb = some (v, s', wb')) :
    Kept s s' ∧ wb' = wb := by
  -- move by move: what the child restores, the loop undoes
  induction moves generalizing alpha s with
  | nil =>
    obtain ⟨rfl, rfl, rfl⟩ := by simpa [qsearchLoop] using hrun
    exact ⟨Kept.refl _, rfl⟩
  | cons action rest ih =>
    unfold qsearchLoop at hrun
    rcases hcheck : s.checkAbort alpha .none with ⟨stop, t⟩
    obtain ⟨-, hkept⟩ := checkAbort_cases s hcheck
    simp only [hcheck] at hrun
    split at hrun
    · obtain ⟨rfl, rfl, rfl⟩ := by simpa using hrun
      exact ⟨hkept, rfl⟩
    · split at hrun
      · cases hrun
      · rename_i score u ub hsearch
        obtain ⟨hsub, rfl⟩ := searchAfterMove_restores hchild hsearch
        replace hsub := ((Kept.opened t _).trans hsub).trans (Kept.closed u)
        rw [hundo action (List.mem_cons_self ..)] at hrun
        have hrest : ∀ a ∈ rest, g.undoMove (g.doMove wb a) = wb := fun a ha =>
          hundo a (List.mem_cons_of_mem _ ha)
        split at hrun
        · split at hrun
          · obtain ⟨rfl, rfl, rfl⟩ := by simpa using hrun
            exact ⟨hkept.trans hsub, rfl⟩
          · obtain ⟨hloop, rfl⟩ := ih hrest hrun
            exact ⟨(hkept.trans hsub).trans hloop, rfl⟩
        · obtain ⟨hloop, rfl⟩ := ih hrest hrun
          exact ⟨(hkept.trans hsub).trans hloop, rfl⟩

theorem qsearchWithDepth_restores (law : g.Reversible) (fuel : Nat) (depth : Int) :
    Restores (qsearchWithDepth g fuel depth) := by
  induction fuel generalizing depth with
  | zero => intro alpha beta s wb v s' wb' hrun; cases hrun
  | succ fuel ih =>
    intro alpha beta s wb v s' wb' hrun
    unfold qsearchWithDepth at hrun
    rcases hcheck : ({ s with nodes := s.nodes + 1 } : Searcher).checkAbort (g.score wb) .none
        with ⟨stop, t⟩
    obtain ⟨-, hkept⟩ := checkAbort_cases _ hcheck
    replace hkept := (Kept.countNode s).trans hkept
    -- every return before the moves are looked at leaves all as it was
    simp only [hcheck] at hrun
    split at hrun
    · obtain ⟨rfl, rfl, rfl⟩ := by simpa using hrun
      exact ⟨hkept, rfl⟩
    split at hrun
    · obtain ⟨rfl, rfl, rfl⟩ := by simpa using hrun
      exact ⟨hkept, rfl⟩
    split at hrun
    · obtain ⟨rfl, rfl, rfl⟩ := by simpa using hrun
      exact ⟨hkept, rfl⟩
    split at hrun
    · obtain ⟨rfl, rfl, rfl⟩ := by simpa using hrun
      exact ⟨hkept, rfl⟩
    split at hrun
    · obtain ⟨rfl, rfl, rfl⟩ := by simpa using hrun
      exact ⟨hkept, rfl⟩
    split at hrun
    · obtain ⟨rfl, rfl, rfl⟩ := by simpa using hrun
      exact ⟨hkept, rfl⟩
    · have hundo : ∀ a ∈ t.orderMoves g wb (g.key wb)
          (g.generateQuiescenceCtx wb t.options.moveOrderContext ‹_›),
          g.undoMove (g.doMove wb a) = wb := fun a ha =>
        law.quiescence wb _ _ a ((orderMoves_perm g t wb _ _).mem_iff.1 ha)
      obtain ⟨hloop, rfl⟩ := qsearchLoop_restores (ih _) hundo hrun
      exact ⟨hkept.trans hloop, rfl⟩

theorem alphaBetaLoop_restores {child : WindowSearch W} (hchild : Restores child)
    {key : BitVec 64} {depth oldAlpha beta : Int} {moves : List Action} {alpha bestValue v : Int}
    {bestAction : Action} {s s' : Searcher} {wb wb' : W}
    (hundo : ∀ a ∈ moves, g.undoMove (g.doMove wb a) = wb)
    (hrun : alphaBetaLoop g child key depth oldAlpha beta moves alpha bestValue bestAction s wb
      = some (v, s', wb')) :
    Kept s s' ∧ wb' = wb := by
  induction moves generalizing alpha bestValue bestAction s with
  | nil =>
    obtain ⟨rfl, rfl, rfl⟩ := by simpa [alphaBetaLoop] using hrun
    exact ⟨Kept.saveTt s _ _ _ _ _, rfl⟩
  | cons action rest ih =>
    unfold alphaBetaLoop at hrun
    rcases hcheck : s.checkAbort (max bestValue alpha) .none with ⟨stop, t⟩
    obtain ⟨-, hkept⟩ := checkAbort_cases s hcheck
    simp only [hcheck] at hrun
    split at hrun
    · obtain ⟨rfl, rfl, rfl⟩ := by simpa using hrun
      exact ⟨hkept, rfl⟩
    split at hrun
    · cases hrun
    rename_i previous u hpush
    split at hrun
    · cases hrun
    rename_i score x xb hsearch
    obtain ⟨hsub, rfl⟩ := searchAfterMove_restores hchild hsearch
    rw [hundo action (List.mem_cons_self ..)] at hrun
    have hpop := ((Kept.opened t _).trans (Kept.pop_push hpush hsub)).trans (Kept.closed _)
    -- a cutoff stores its value before it returns
    split at hrun
    · obtain ⟨rfl, rfl, rfl⟩ := by simpa using hrun
      exact ⟨(hkept.trans hpop).trans (Kept.saveTt _ _ _ _ _ _), rfl⟩
    · obtain ⟨hloop, rfl⟩ := ih (fun a ha => hundo a (List.mem_cons_of_mem _ ha)) hrun
      exact ⟨(hkept.trans hpop).trans hloop, rfl⟩

theorem expandNode_restores (law : g.Reversible) {child : Int → WindowSearch W}
    (hchild : ∀ depth, Restores (child depth)) {depth oldAlpha v : Int} {probe : TtProbeResult}
    {s s' : Searcher} {wb wb' : W}
    (hrun : expandNode g child depth oldAlpha probe s wb = some (v, s', wb')) :
    Kept s s' ∧ wb' = wb := by
  unfold expandNode at hrun
  simp only at hrun
  split at hrun
  · obtain ⟨rfl, rfl, rfl⟩ := by simpa using hrun
    exact ⟨Kept.countRepetition s, rfl⟩
  split at hrun
  · obtain ⟨rfl, rfl, rfl⟩ := by simpa using hrun
    exact ⟨Kept.refl s, rfl⟩
  split at hrun
  · obtain ⟨rfl, rfl, rfl⟩ := by simpa using hrun
    exact ⟨Kept.refl s, rfl⟩
  · have hundo : ∀ a ∈ s.orderMovesWithTtMove g wb (g.key wb)
        (g.generateLegalCtx wb s.options.moveOrderContext) probe.ttMove,
        g.undoMove (g.doMove wb a) = wb := fun a ha =>
      law.legal wb _ a ((orderMovesWithTtMove_perm g s wb _ _ _).mem_iff.1 ha)
    exact alphaBetaLoop_restores (hchild _) hundo hrun

theorem searchNode_restores (law : g.Reversible) {child : Int → WindowSearch W}
    (hchild : ∀ depth, Restores (child depth)) (depth : Int) :
    Restores (searchNode g child depth) := by
  intro alpha beta s wb v s' wb' hrun
  unfold searchNode at hrun
  simp only at hrun
  split at hrun
  · obtain ⟨rfl, rfl, rfl⟩ := by simpa using hrun
    exact ⟨Kept.countTtHit s, rfl⟩
  · obtain ⟨hrest, rfl⟩ := expandNode_restores law hchild hrun
    exact ⟨(Kept.countTtHit s).trans hrest, rfl⟩
  · obtain ⟨hrest, rfl⟩ := expandNode_restores law hchild hrun
    exact ⟨(Kept.countTtMiss s _).trans hrest, rfl⟩

/-- **The frame of alpha-beta.** Whatever the table, the clock and the stop flag do, a search that
returns has put the workbench and the repetition stack back. -/
theorem alphaBeta_restores (law : g.Reversible) (fuel : Nat) (depth : Int) :
    Restores (alphaBeta g fuel depth) := by
  induction fuel generalizing depth with
  | zero => intro alpha beta s wb v s' wb' hrun; cases hrun
  | succ fuel ih =>
    intro alpha beta s wb v s' wb' hrun
    unfold alphaBeta at hrun
    rcases hcheck : ({ s with nodes := s.nodes + 1 } : Searcher).checkAbort (g.score wb) .none
        with ⟨stop, t⟩
    obtain ⟨-, hkept⟩ := checkAbort_cases _ hcheck
    replace hkept := (Kept.countNode s).trans hkept
    simp only [hcheck] at hrun
    split at hrun
    · obtain ⟨rfl, rfl, rfl⟩ := by simpa using hrun
      exact ⟨hkept, rfl⟩
    split at hrun
    · obtain ⟨rfl, rfl, rfl⟩ := by simpa using hrun
      exact ⟨hkept, rfl⟩
    split at hrun
    · obtain ⟨hq, rfl⟩ := qsearchWithDepth_restores law fuel depth hrun
      exact ⟨hkept.trans hq, rfl⟩
    split at hrun
    · obtain ⟨rfl, rfl, rfl⟩ := by simpa using hrun
      exact ⟨hkept, rfl⟩
    · obtain ⟨hnode, rfl⟩ := searchNode_restores law ih depth hrun
      exact ⟨hkept.trans hnode, rfl⟩

end Searcher

end Sanmill
