import Sanmill.Lib.FailSoft
import Sanmill.Proof.Search.Kept

/-!
# Alpha-beta computes minimax

`minimax` is the value the search is after: the best a side can get in `depth`
plies, with the sign flipped exactly when the side to move changes. It knows
nothing of windows, tables or move order.

`alphaBeta_failSoft` is the induction: a run in which no table entry answered,
no repetition was cut and no abort was noticed reports a fail-soft bound of
`minimax` for its window, whatever the shape of the tree.
-/

namespace Sanmill

namespace Searcher

variable {W : Type} (g : Game W)

/-! ## The specification -/

/-- A child's value seen by the player who moved. -/
def perspective (before after value : Int) : Int := if after ≠ before then -value else value

/-- The value at the horizon: a finished position has its own score, any other the static one. -/
def horizonValue (depth : Int) (wb : W) : Int :=
  (g.terminalScore wb (g.sideToMove wb) depth).getD (standPat (g.score wb) depth)

/-- Minimax over `n` plies. -/
def minimaxPlies (ctx : MoveOrderContext) : Nat → W → Int
  | 0, wb => horizonValue g 0 wb
  | n + 1, wb =>
    match g.terminalScore wb (g.sideToMove wb) ((n + 1 : Nat) : Int) with
    | some score => score
    | none =>
      (((g.generateLegalCtx wb ctx).map fun action =>
        perspective (g.sideToMove wb) (g.sideToMove (g.doMove wb action))
          (minimaxPlies ctx n (g.doMove wb action))).max?).getD (g.score wb)

/-- Minimax to a depth; at a negative depth the search is already past its horizon. -/
def minimax (ctx : MoveOrderContext) (depth : Int) (wb : W) : Int :=
  if depth < 0 then horizonValue g depth wb else minimaxPlies g ctx depth.toNat wb

/-- What a root move is worth to the side that makes it. -/
def moveValue (ctx : MoveOrderContext) (depth : Int) (wb : W) (action : Action) : Int :=
  perspective (g.sideToMove wb) (g.sideToMove (g.doMove wb action))
    (minimax g ctx (depth - 1) (g.doMove wb action))

/-! ## The conditions on game and searcher -/

/-- Every static and terminal score is strictly inside the root window. -/
structure ScoresInside : Prop where
  score : ∀ wb, -(i32Max - 1) ≤ g.score wb ∧ g.score wb ≤ i32Max - 1
  terminal : ∀ wb player depth v, g.terminalScore wb player depth = some v →
    -(i32Max - 1) ≤ v ∧ v ≤ i32Max - 1

/-- No extension, no null move, no quiescence plies. -/
structure PlainSettings (ctx : MoveOrderContext) (s : Searcher) : Prop where
  context : s.options.moveOrderContext = ctx
  depthExtension : s.options.depthExtension = false
  allowNullMove : s.options.allowNullMove = false
  qsearchMaxDepth : s.qsearchMaxDepth = 0

/-- Between two states of a run: no table hit, no repetition cut, no abort. -/
structure Undisturbed (s s' : Searcher) : Prop where
  ttHits : s'.ttHits = s.ttHits
  repetitionCuts : s'.repetitionCuts = s.repetitionCuts
  aborted : s'.aborted = false

variable {g} {ctx : MoveOrderContext} {s t u : Searcher}

theorem PlainSettings.kept (h : PlainSettings ctx s) (hk : Kept s t) : PlainSettings ctx t where
  context := by rw [hk.options]; exact h.context
  depthExtension := by rw [hk.options]; exact h.depthExtension
  allowNullMove := by rw [hk.options]; exact h.allowNullMove
  qsearchMaxDepth := hk.qsearchMaxDepth.trans h.qsearchMaxDepth

theorem PlainSettings.pushed {s t : Searcher} (h : PlainSettings ctx s) (hp : Pushed s t) :
    PlainSettings ctx t where
  context := by rw [hp.options]; exact h.context
  depthExtension := by rw [hp.options]; exact h.depthExtension
  allowNullMove := by rw [hp.options]; exact h.allowNullMove
  qsearchMaxDepth := hp.qsearchMaxDepth.trans h.qsearchMaxDepth

/-- An undisturbed run has no disturbed part. -/
theorem Undisturbed.split (hst : Kept s t) (htu : Kept t u) (h : Undisturbed s u) :
    Undisturbed s t ∧ Undisturbed t u := by
  have h1 := hst.ttHits
  have h2 := htu.ttHits
  have h3 := h.ttHits
  have h4 := hst.repetitionCuts
  have h5 := htu.repetitionCuts
  have h6 := h.repetitionCuts
  exact ⟨⟨by omega, by omega, htu.not_aborted h.aborted⟩, ⟨by omega, by omega, h.aborted⟩⟩

/-! ## Range of the specification -/

theorem standPat_zero {score : Int} (h : -(i32Max - 1) ≤ score ∧ score ≤ i32Max - 1) :
    standPat score 0 = score := by
  have hlo : i32Min ≤ score := by
    have := h.1
    unfold i32Max at this
    unfold i32Min
    omega
  have hhi : score ≤ i32Max := by omega
  unfold standPat
  split
  · rw [Int.add_zero, saturateI32_of_range hlo hhi]
  · rw [Int.sub_zero, saturateI32_of_range hlo hhi]

theorem minimaxPlies_inside (ctx : MoveOrderContext) (hin : ScoresInside g) (n : Nat) (wb : W) :
    -(i32Max - 1) ≤ minimaxPlies g ctx n wb ∧ minimaxPlies g ctx n wb ≤ i32Max - 1 := by
  induction n generalizing wb with
  | zero =>
    unfold minimaxPlies horizonValue
    cases hterm : g.terminalScore wb (g.sideToMove wb) 0 with
    | some v => exact hin.terminal _ _ _ _ hterm
    | none =>
      rw [Option.getD_none, standPat_zero (hin.score wb)]
      exact hin.score wb
  | succ n ih =>
    unfold minimaxPlies
    cases hterm : g.terminalScore wb (g.sideToMove wb) ((n + 1 : Nat) : Int) with
    | some v => exact hin.terminal _ _ _ _ hterm
    | none =>
      simp only
      cases hmax : (((g.generateLegalCtx wb ctx).map fun action =>
          perspective (g.sideToMove wb) (g.sideToMove (g.doMove wb action))
            (minimaxPlies g ctx n (g.doMove wb action))).max?) with
      | none => exact hin.score wb
      | some m =>
        have hmem := (List.max?_eq_some_iff.1 hmax).1
        obtain ⟨action, -, rfl⟩ := List.mem_map.1 hmem
        have hchild := ih (g.doMove wb action)
        simp only [Option.getD_some]
        unfold perspective
        split <;> omega

theorem perspective_inside (before after : Int) {v : Int} (h : -(i32Max - 1) ≤ v ∧ v ≤ i32Max - 1) :
    -(i32Max - 1) ≤ perspective before after v ∧ perspective before after v ≤ i32Max - 1 := by
  unfold perspective
  split <;> omega

/-! ## One node -/

/-- Strictly above `i32::MIN`, so that negation is exact. -/
def Negatable (v : Int) : Prop := i32Min < v ∧ v ≤ i32Max

theorem Negatable.neg {v : Int} (h : Negatable v) : Negatable (-v) ∧ wrapI32 (-v) = -v := by
  refine ⟨?_, wrapI32_neg h.1 h.2⟩
  obtain ⟨hlo, hhi⟩ := h
  unfold i32Min at hlo
  unfold i32Max at hhi
  unfold Negatable i32Min i32Max
  omega

theorem negatable_of_inside {v : Int} (h : -(i32Max - 1) ≤ v ∧ v ≤ i32Max - 1) : Negatable v := by
  obtain ⟨hlo, hhi⟩ := h
  unfold i32Max at hlo hhi
  unfold Negatable i32Min i32Max
  omega

/-- A subtree search whose undisturbed runs are fail-soft bounds of `value`. -/
def Bounds (ctx : MoveOrderContext) (value : W → Int) (search : WindowSearch W) : Prop :=
  ∀ ⦃alpha beta s wb v s' wb'⦄, search alpha beta s wb = some (v, s', wb') →
    PlainSettings ctx s → Undisturbed s s' → Negatable alpha → Negatable beta → alpha < beta →
    FailSoft alpha beta v (value wb) ∧ Negatable v

/-- The sign and window flip. -/
theorem searchAfterMove_bounds {value : W → Int} {search : WindowSearch W}
    (h : Bounds ctx value search) {alpha beta before after v : Int} {s s' : Searcher} {wb wb' : W}
    (hrun : searchAfterMove search alpha beta before after s wb = some (v, s', wb'))
    (hplain : PlainSettings ctx s) (hquiet : Undisturbed s s') (ha : Negatable alpha)
    (hb : Negatable beta) (hlt : alpha < beta) :
    FailSoft alpha beta v (perspective before after (value wb)) ∧ Negatable v := by
  unfold searchAfterMove at hrun
  unfold perspective
  by_cases hside : after ≠ before
  · rw [if_pos hside] at hrun ⊢
    obtain ⟨⟨w, t, ub⟩, hsearch, heq⟩ := Option.map_eq_some_iff.1 hrun
    obtain ⟨rfl, rfl, rfl⟩ := by simpa using heq
    obtain ⟨hna, hea⟩ := ha.neg
    obtain ⟨hnb, heb⟩ := hb.neg
    rw [hea, heb] at hsearch
    obtain ⟨hsoft, hw⟩ := h hsearch (hplain.kept (Kept.opened s _))
      ⟨hquiet.ttHits, hquiet.repetitionCuts, hquiet.aborted⟩ hnb hna (by omega)
    rw [hw.neg.2]
    exact ⟨hsoft.neg, hw.neg.1⟩
  · rw [if_neg hside] at hrun ⊢
    exact h hrun hplain hquiet ha hb hlt

/-- **The move loop.** `m` is the best value among the moves already searched; the fold carries the
bound, and each move is one `FailSoftFold.step`. -/
theorem alphaBetaLoop_bounds {value : W → Int} {child : WindowSearch W}
    (hchild : Bounds ctx value child) (hrestore : Restores child)
    {key : BitVec 64} {depth oldAlpha beta : Int} {moves : List Action} {bestValue m v : Int}
    {bestAction : Action} {s s' : Searcher} {wb wb' : W}
    (hundo : ∀ a ∈ moves, g.undoMove (g.doMove wb a) = wb)
    (hrun : alphaBetaLoop g child key depth oldAlpha beta moves (max oldAlpha bestValue) bestValue
      bestAction s wb = some (v, s', wb'))
    (hplain : PlainSettings ctx s) (hquiet : Undisturbed s s') (ha : Negatable oldAlpha)
    (hb : Negatable beta) (hlt : oldAlpha < beta) (hbest : Negatable bestValue)
    (hfold : FailSoftFold oldAlpha beta bestValue m) :
    FailSoft oldAlpha beta v ((moves.map fun a => perspective (g.sideToMove wb)
      (g.sideToMove (g.doMove wb a)) (value (g.doMove wb a))).foldl max m) ∧ Negatable v := by
  induction moves generalizing bestValue m bestAction s with
  | nil =>
    obtain ⟨rfl, rfl, rfl⟩ := by simpa [alphaBetaLoop] using hrun
    exact ⟨hfold.failSoft, hbest⟩
  | cons action rest ih =>
    have hall := alphaBetaLoop_restores hrestore hundo hrun
    unfold alphaBetaLoop at hrun
    rcases hcheck : s.checkAbort (max bestValue (max oldAlpha bestValue)) .none with ⟨stop, t⟩
    obtain ⟨hstop, hkept⟩ := checkAbort_cases s hcheck
    simp only [hcheck] at hrun
    split at hrun
    · -- the abort was noticed here, against the assumption
      rename_i hyes
      obtain ⟨rfl, rfl, rfl⟩ := by simpa using hrun
      rw [hyes] at hstop
      exact absurd (hstop.trans hquiet.aborted) (by simp)
    split at hrun
    · cases hrun
    rename_i previous u hpush
    split at hrun
    · cases hrun
    rename_i score x xb hsearch
    obtain ⟨hsub, rfl⟩ := searchAfterMove_restores hrestore hsearch
    rw [hundo action (List.mem_cons_self ..)] at hrun
    have hpushed := pushed_of_push hpush
    have hopen := Kept.opened t (.move (max oldAlpha bestValue) beta bestValue rest.isEmpty)
    have hpop := hopen.trans (Kept.pop_push hpush hsub)
    have hclose := Kept.closed (x.popRepetitionAncestor key previous)
    generalize hy : (x.popRepetitionAncestor key previous).closed = y at hrun hclose
    have hyquiet : Undisturbed s y := by
      have hfinal : Kept y s' := by
        split at hrun
        · obtain ⟨-, rfl, -⟩ := by simpa using hrun
          exact Kept.saveTt _ _ _ _ _ _
        · exact (alphaBetaLoop_restores hrestore
            (fun a ha => hundo a (List.mem_cons_of_mem _ ha)) hrun).1
      exact (hquiet.split (hkept.trans (hpop.trans hclose)) hfinal).1
    have htquiet := ((hyquiet.split hkept (hpop.trans hclose))).2
    have hxquiet : Undisturbed u x := by
      subst hy
      exact ⟨htquiet.ttHits.trans hpushed.ttHits.symm,
        htquiet.repetitionCuts.trans hpushed.repetitionCuts.symm, htquiet.aborted⟩
    have hplainu := (hplain.kept (hkept.trans hopen)).pushed hpushed
    have hwindow : Negatable (max oldAlpha bestValue) := by
      rcases max_choice oldAlpha bestValue with h | h <;> rw [h]
      · exact ha
      · exact hbest
    obtain ⟨hsoft, hscore⟩ := searchAfterMove_bounds hchild hsearch hplainu hxquiet hwindow hb
      (max_lt hlt hfold.below)
    rw [List.map_cons, List.foldl_cons]
    generalize perspective (g.sideToMove wb) (g.sideToMove (g.doMove wb action))
      (value (g.doMove wb action)) = w at hsoft ⊢
    split at hrun
    · -- a cutoff: the score is a lower bound of this move, hence of the maximum
      rename_i hcut
      obtain ⟨rfl, -, -⟩ := by simpa using hrun
      have hle : ∀ l : List Int, score ≤ l.foldl max (max m w) := fun l =>
        le_trans (hsoft.high hcut) (le_trans (le_max_right m w) (le_foldl_max l _))
      exact ⟨{ low := fun h => by omega, high := fun _ => hle _, exact := fun _ h => by omega },
        hscore⟩
    · rename_i hcut
      have hlt' : score < beta := by omega
      rw [max_assoc] at hrun
      refine ih (fun a ha => hundo a (List.mem_cons_of_mem _ ha)) hrun
        (hplain.kept (hkept.trans (hpop.trans hclose))) ?_ ?_ (hfold.step hsoft hlt')
      · have hfinal := (alphaBetaLoop_restores hrestore
          (fun a ha => hundo a (List.mem_cons_of_mem _ ha)) hrun).1
        exact (hquiet.split (hkept.trans (hpop.trans hclose)) hfinal).2
      · rcases max_choice bestValue score with h | h <;> rw [h]
        · exact hbest
        · exact hscore

/-- A probe that missed leaves the window alone. -/
theorem probeTt_miss {key : BitVec 64} {depth alpha beta : Int}
    (h : (s.probeTt g key depth alpha beta).probe = .miss) :
    (s.probeTt g key depth alpha beta).alpha = alpha
      ∧ (s.probeTt g key depth alpha beta).beta = beta := by
  unfold probeTt at h ⊢
  cases hentry : (s.tt.probeEntryAtAge key depth s.ttAge).valueBound with
  | none => simp [hentry]
  | some entry =>
    obtain ⟨value, bound⟩ := entry
    simp only [hentry] at h
    cases bound with
    | exact => cases h
    | lower =>
      simp only at h
      split at h <;> cases h
    | upper =>
      simp only at h
      split at h <;> cases h

/-- **A node that is expanded** reports a bound of the maximum over its moves. -/
theorem expandNode_bounds (law : g.Reversible) (hin : ScoresInside g) {n : Nat}
    {child : Int → WindowSearch W} (hchild : Bounds ctx (minimaxPlies g ctx n) (child n))
    (hrestore : ∀ depth, Restores (child depth)) {probe : TtProbeResult} {v : Int}
    {s s' : Searcher} {wb wb' : W}
    (hterm : g.terminalScore wb (g.sideToMove wb) ((n + 1 : Nat) : Int) = none)
    (hrun : expandNode g child ((n + 1 : Nat) : Int) probe.alpha probe s wb = some (v, s', wb'))
    (hplain : PlainSettings ctx s) (hquiet : Undisturbed s s') (ha : Negatable probe.alpha)
    (hb : Negatable probe.beta) (hlt : probe.alpha < probe.beta) :
    FailSoft probe.alpha probe.beta v (minimaxPlies g ctx (n + 1) wb) ∧ Negatable v := by
  have hvalue : minimaxPlies g ctx (n + 1) wb
      = (((g.generateLegalCtx wb ctx).map fun action =>
        perspective (g.sideToMove wb) (g.sideToMove (g.doMove wb action))
          (minimaxPlies g ctx n (g.doMove wb action))).max?).getD (g.score wb) := by
    rw [minimaxPlies, hterm]
  rw [hvalue]
  unfold expandNode at hrun
  simp only at hrun
  split at hrun
  · -- a repetition cut is counted
    obtain ⟨-, rfl, -⟩ := by simpa using hrun
    exact absurd hquiet.repetitionCuts (by simp)
  split at hrun
  · rename_i hnull
    simp [nullMoveCut, hplain.allowNullMove] at hnull
  rw [hplain.context] at hrun
  have hperm := orderMovesWithTtMove_perm g s wb (g.key wb) (g.generateLegalCtx wb ctx)
    probe.ttMove
  generalize s.orderMovesWithTtMove g wb (g.key wb) (g.generateLegalCtx wb ctx)
    probe.ttMove = moves at hperm hrun
  split at hrun
  · rename_i hnil
    subst hnil
    obtain ⟨rfl, -, -⟩ := by simpa using hrun
    rw [List.nil_perm.1 hperm]
    exact ⟨FailSoft.of_eq rfl, negatable_of_inside (hin.score wb)⟩
  · rename_i hne
    have hdepth : ((n + 1 : Nat) : Int) - 1 + 0 = n := by
      push_cast
      omega
    simp only [hplain.depthExtension, Bool.false_eq_true, false_and, if_false, hdepth] at hrun
    have hundo : ∀ a ∈ moves, g.undoMove (g.doMove wb a) = wb := fun a ha =>
      law.legal wb ctx a (hperm.mem_iff.1 ha)
    have hbest : Negatable (i32Min + 1) := by
      unfold Negatable i32Min i32Max
      omega
    -- before the first move the best value is below every window and every score
    have hstart : max probe.alpha (i32Min + 1) = probe.alpha := by
      have := ha.1
      omega
    have hfold : FailSoftFold probe.alpha probe.beta (i32Min + 1) (i32Min + 1) :=
      { below := by have := ha.1; omega
        low := fun _ => le_refl _
        exact := fun _ => rfl }
    have hrun' : alphaBetaLoop g (child n) (g.key wb) ((n + 1 : Nat) : Int) probe.alpha probe.beta
        moves (max probe.alpha (i32Min + 1)) (i32Min + 1) .none s wb = some (v, s', wb') := by
      rw [hstart]
      exact hrun
    have hloop := alphaBetaLoop_bounds hchild (hrestore n) hundo hrun' hplain hquiet ha hb hlt
      hbest hfold
    have hmax : ((moves.map fun action =>
        perspective (g.sideToMove wb) (g.sideToMove (g.doMove wb action))
          (minimaxPlies g ctx n (g.doMove wb action))).max?) = some _ :=
      foldl_max_eq (m := i32Min + 1) (by simpa using hne) (by
        intro x hx
        obtain ⟨action, -, rfl⟩ := List.mem_map.1 hx
        have := (perspective_inside (g.sideToMove wb) (g.sideToMove (g.doMove wb action))
          (minimaxPlies_inside ctx hin n (g.doMove wb action))).1
        unfold i32Max at this
        unfold i32Min
        omega)
    rw [← max?_perm (hperm.map _), hmax]
    exact hloop

theorem searchNode_bounds (law : g.Reversible) (hin : ScoresInside g) {n : Nat}
    {child : Int → WindowSearch W} (hchild : Bounds ctx (minimaxPlies g ctx n) (child n))
    (hrestore : ∀ depth, Restores (child depth)) {alpha beta v : Int} {s s' : Searcher}
    {wb wb' : W} (hterm : g.terminalScore wb (g.sideToMove wb) ((n + 1 : Nat) : Int) = none)
    (hrun : searchNode g child ((n + 1 : Nat) : Int) alpha beta s wb = some (v, s', wb'))
    (hplain : PlainSettings ctx s) (hquiet : Undisturbed s s') (ha : Negatable alpha)
    (hb : Negatable beta) (hlt : alpha < beta) :
    FailSoft alpha beta v (minimaxPlies g ctx (n + 1) wb) ∧ Negatable v := by
  unfold searchNode at hrun
  simp only at hrun
  cases hprobe : (s.probeTt g (g.key wb) ((n + 1 : Nat) : Int) alpha beta).probe with
  | cutoff value =>
    -- a cutoff is a hit
    rw [hprobe] at hrun
    obtain ⟨-, rfl, -⟩ := by simpa using hrun
    exact absurd hquiet.ttHits (by simp [countTtHit])
  | hitNoCutoff =>
    rw [hprobe] at hrun
    have hkept := (expandNode_restores law hrestore hrun).1.ttHits
    have hsame := hquiet.ttHits
    simp only [countTtHit] at hkept
    omega
  | miss =>
    rw [hprobe] at hrun
    obtain ⟨halpha, hbeta⟩ := probeTt_miss hprobe
    have hkept := Kept.countTtMiss s (g.key wb)
    have hrest := (expandNode_restores law hrestore hrun).1
    have hquiet' := (hquiet.split hkept hrest).2
    generalize s.probeTt g (g.key wb) ((n + 1 : Nat) : Int) alpha beta = probe at *
    subst halpha hbeta
    exact expandNode_bounds law hin hchild hrestore hterm hrun (hplain.kept hkept) hquiet' ha hb
      hlt

/-- Without quiescence plies, a search at or below the horizon reports the static score. -/
theorem qsearchWithDepth_horizon {fuel : Nat} {depth alpha beta v : Int} {wb wb' : W}
    {s s' : Searcher} (hdepth : depth ≤ 0)
    (hrun : qsearchWithDepth g fuel depth alpha beta s wb = some (v, s', wb'))
    (hplain : PlainSettings ctx s) (hquiet : s'.aborted = false) :
    v = standPat (g.score wb) depth := by
  cases fuel with
  | zero => cases hrun
  | succ fuel =>
    unfold qsearchWithDepth at hrun
    rcases hcheck : ({ s with nodes := s.nodes + 1 } : Searcher).checkAbort (g.score wb) .none
        with ⟨stop, t⟩
    obtain ⟨hstop, hkept⟩ := checkAbort_cases _ hcheck
    replace hkept := (Kept.countNode s).trans hkept
    simp only [hcheck] at hrun
    split at hrun
    · rename_i hyes
      obtain ⟨-, rfl, -⟩ := by simpa using hrun
      rw [hyes] at hstop
      exact absurd (hstop.trans hquiet) (by simp)
    · have hmax : t.qsearchMaxDepth ≤ -depth := by
        rw [(hplain.kept hkept).qsearchMaxDepth]
        omega
      rw [if_pos hmax] at hrun
      obtain ⟨rfl, -, -⟩ := by simpa using hrun
      rfl

/-- At depth 0 an undisturbed search is exact, whatever the window. -/
theorem alphaBeta_zero {fuel : Nat} {alpha beta v : Int} {s s' : Searcher} {wb wb' : W}
    (hrun : alphaBeta g fuel 0 alpha beta s wb = some (v, s', wb'))
    (hplain : PlainSettings ctx s) (hquiet : s'.aborted = false) : v = minimaxPlies g ctx 0 wb := by
  cases fuel with
  | zero => cases hrun
  | succ fuel =>
    unfold alphaBeta at hrun
    rcases hcheck : ({ s with nodes := s.nodes + 1 } : Searcher).checkAbort (g.score wb) .none
        with ⟨stop, t⟩
    obtain ⟨hstop, hkept⟩ := checkAbort_cases _ hcheck
    replace hkept := (Kept.countNode s).trans hkept
    simp only [hcheck] at hrun
    split at hrun
    · rename_i hyes
      obtain ⟨-, rfl, -⟩ := by simpa using hrun
      rw [hyes] at hstop
      exact absurd (hstop.trans hquiet) (by simp)
    rw [minimaxPlies, horizonValue]
    cases hterm : g.terminalScore wb (g.sideToMove wb) 0 with
    | some score =>
      rw [hterm] at hrun
      obtain ⟨rfl, -, -⟩ := by simpa using hrun
      rfl
    | none =>
      rw [hterm] at hrun
      simp only [le_refl, if_true] at hrun
      exact qsearchWithDepth_horizon (le_refl 0) hrun (hplain.kept hkept) hquiet

/-- **Alpha-beta is fail-soft.** By induction on the fuel, over any tree: an undisturbed run at
depth `n` bounds the `n`-ply minimax value for its window. -/
theorem alphaBeta_bounds (law : g.Reversible) (hin : ScoresInside g)
    (hoverride : ∀ wb, g.searchAlphaOverride wb = none) (fuel n : Nat) :
    Bounds ctx (minimaxPlies g ctx n) (alphaBeta g fuel n) := by
  induction fuel generalizing n with
  | zero => intro alpha beta s wb v s' wb' hrun; cases hrun
  | succ fuel ih =>
    intro alpha beta s wb v s' wb' hrun hplain hquiet ha hb hlt
    -- at depth zero the answer is exact, whatever the window
    have hexact : n = 0 → v = minimaxPlies g ctx 0 wb := by
      rintro rfl
      exact alphaBeta_zero hrun hplain hquiet.aborted
    unfold alphaBeta at hrun
    rcases hcheck : ({ s with nodes := s.nodes + 1 } : Searcher).checkAbort (g.score wb) .none
        with ⟨stop, t⟩
    obtain ⟨hstop, hkept⟩ := checkAbort_cases _ hcheck
    replace hkept := (Kept.countNode s).trans hkept
    simp only [hcheck] at hrun
    split at hrun
    · rename_i hyes
      obtain ⟨-, rfl, -⟩ := by simpa using hrun
      rw [hyes] at hstop
      exact absurd (hstop.trans hquiet.aborted) (by simp)
    have hplaint := hplain.kept hkept
    cases n with
    | zero =>
      rw [hexact rfl]
      exact ⟨FailSoft.of_eq rfl, negatable_of_inside (minimaxPlies_inside ctx hin 0 wb)⟩
    | succ n =>
      cases hterm : g.terminalScore wb (g.sideToMove wb) ((n + 1 : Nat) : Int) with
      | some score =>
        rw [hterm] at hrun
        obtain ⟨rfl, -, -⟩ := by simpa using hrun
        rw [minimaxPlies, hterm]
        exact ⟨FailSoft.of_eq rfl, negatable_of_inside (hin.terminal _ _ _ _ hterm)⟩
      -- neither finished nor at the horizon: the node is searched
      | none =>
        rw [hterm] at hrun
        have hdeep : ¬((n + 1 : Nat) : Int) ≤ 0 := by omega
        simp only [if_neg hdeep, hoverride, Option.isSome_none, Option.getD_none,
          Bool.false_eq_true, false_and, if_false] at hrun
        have hrest := (searchNode_restores law (alphaBeta_restores law fuel) _ hrun).1
        exact searchNode_bounds law hin (ih n) (alphaBeta_restores law fuel) hterm hrun hplaint
          (hquiet.split hkept hrest).2 ha hb hlt

end Searcher

end Sanmill
