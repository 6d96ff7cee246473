import Sanmill.Proof.Search.RootMinimax

/-!
# What a search promises

The whole contract of the fixed-depth searches, in one statement: alpha-beta
bounds the minimax value for its window, the two roots return it with the first
move that attains it, and all of them come back as long as the repetition stack
has room.

Four limits are real, and each has its example below: one legal root move is
answered with a sentinel score, a score outside the root window cannot be
returned, a game whose terminal score ignores the player asked is misread by
principal variation search, and a line of more than 128 plies trips an
assertion.
-/

namespace Sanmill

namespace Searcher

variable {W : Type} {g : Game W} {ctx : MoveOrderContext} {s : Searcher}

/-- The alpha-beta half, at every depth. -/
theorem alphaBeta_minimax (law : g.Reversible) (hin : ScoresInside g)
    (hoverride : ∀ wb, g.searchAlphaOverride wb = none) (hplain : PlainSettings ctx s)
    {fuel : Nat} {depth alpha beta v : Int} {s' : Searcher} {wb wb' : W}
    (hlo : i32Min < alpha) (hlt : alpha < beta) (hhi : beta ≤ i32Max)
    (hrun : alphaBeta g fuel depth alpha beta s wb = some (v, s', wb'))
    (hquiet : Undisturbed s s') : FailSoft alpha beta v (minimax g ctx depth wb) := by
  -- below the horizon nothing is searched: a finished game has its score, any other the static one
  by_cases hdepth : depth < 0
  · refine FailSoft.of_eq ?_
    unfold minimax horizonValue
    rw [if_pos hdepth]
    cases fuel with
    | zero => cases hrun
    | succ fuel =>
      unfold alphaBeta at hrun
      rcases hcheck : ({ s with nodes := s.nodes + 1 } : Searcher).checkAbort (g.score wb) .none
          with ⟨stop, t⟩
      obtain ⟨hstop, hkept⟩ := checkAbort_cases _ hcheck
      replace hkept := (Kept.countNode s).trans hkept
      simp only [hcheck] at hrun
      split at hrun
      · rename_i hyes
        obtain ⟨-, rfl, -⟩ := by simpa using hrun
        rw [hyes] at hstop
        exact absurd (hstop.trans hquiet.aborted) (by simp)
      cases hterm : g.terminalScore wb (g.sideToMove wb) depth with
      | some score =>
        rw [hterm] at hrun
        obtain ⟨rfl, -, -⟩ := by simpa using hrun
        rfl
      | none =>
        have hle : depth ≤ 0 := by omega
        rw [hterm] at hrun
        simp only [hle, if_true] at hrun
        exact qsearchWithDepth_horizon hle hrun (hplain.kept hkept) hquiet.aborted
  · obtain ⟨n, rfl⟩ : ∃ n : Nat, depth = n := ⟨depth.toNat, by omega⟩
    unfold minimax
    rw [if_neg hdepth, Int.toNat_natCast]
    exact (alphaBeta_bounds law hin hoverride fuel n hrun hplain hquiet ⟨hlo, by omega⟩
      ⟨by omega, hhi⟩ hlt).1

/-- **The fixed-depth contract.** For any game whose moves can be taken back, any depth and any
window, and any run without a table hit, a repetition cut or an abort: alpha-beta reports a
fail-soft bound of minimax, and both roots report minimax with the first move that attains it. -/
theorem search_computes_minimax (law : g.Reversible) (hin : ScoresInside g)
    (hoverride : ∀ wb, g.searchAlphaOverride wb = none) (hplain : PlainSettings ctx s) :
    (∀ (depth alpha beta : Int) (wb : W), i32Min < alpha → alpha < beta → beta ≤ i32Max →
      (s.repetitionStack.length + depth.toNat ≤ repetitionStackCapacity →
        (alphaBeta g (depth.toNat + 2) depth alpha beta s wb).isSome)
      ∧ ∀ fuel v s' wb', alphaBeta g fuel depth alpha beta s wb = some (v, s', wb') →
        Undisturbed s s' →
        wb' = wb ∧ (v ≤ alpha → minimax g ctx depth wb ≤ v)
          ∧ (beta ≤ v → v ≤ minimax g ctx depth wb)
          ∧ (alpha < v → v < beta → v = minimax g ctx depth wb))
    ∧ ∀ (depth : Int) (wb : W), 1 ≤ depth →
      g.terminalScore wb (g.sideToMove wb) depth = none →
      2 ≤ (g.generateLegalCtx wb ctx).length →
      (orderedRootMoves g true depth s wb).Perm (g.generateLegalCtx wb ctx)
      ∧ (depth ≤ repetitionStackCapacity →
        (search g (depth.toNat + 2) s wb depth).isSome
          ∧ (searchPvs g (depth.toNat + 2) s wb depth).isSome)
      ∧ (∀ fuel result s' wb', search g fuel s wb depth = some (result, s', wb') →
        s'.ttHits = 0 → s'.repetitionCuts = 0 → s'.aborted = false →
        wb' = wb ∧ RootAnswer g ctx depth wb (orderedRootMoves g true depth s wb) result)
      ∧ (HonoursPerspective g ctx →
        ∀ fuel result s' wb', searchPvs g fuel s wb depth = some (result, s', wb') →
          s'.ttHits = 0 → s'.repetitionCuts = 0 → s'.aborted = false →
          wb' = wb ∧ RootAnswer g ctx depth wb (orderedRootMoves g true depth s wb) result) := by
  -- the window part is fail-soft exactness; the root part adds that two moves are there to choose
  -- from
  refine ⟨fun depth alpha beta wb hlo hlt hhi => ⟨fun hroom => ?_, ?_⟩,
    fun depth wb hdepth hterm hmoves => ?_⟩
  · exact alphaBeta_returns law depth.toNat _ (le_refl _) depth rfl alpha beta s wb hplain hroom
  · intro fuel v s' wb' hrun hquiet
    have hsoft := alphaBeta_minimax law hin hoverride hplain hlo hlt hhi hrun hquiet
    exact ⟨(alphaBeta_restores law fuel depth hrun).2, hsoft.low, hsoft.high, hsoft.exact⟩
  · obtain ⟨n, rfl⟩ : ∃ n : Nat, depth = ((n + 1 : Nat) : Int) := ⟨(depth - 1).toNat, by omega⟩
    obtain ⟨t, -, hready⟩ := rootStart_ready true hplain hterm hmoves
    refine ⟨hready.perm, fun hdeep => ?_, ?_, ?_⟩
    · exact search_returns law hplain hterm hmoves (by omega) (by omega)
    · exact fun fuel result s' wb' hrun =>
        search_answer law hin hoverride hplain hterm hmoves hrun
    · exact fun hperspective fuel result s' wb' hrun =>
        searchPvs_answer law hin hoverride hperspective hplain hterm hmoves hrun

/-! ## A game to evaluate on -/

/-- A place action, by number. -/
def pathMove (n : Int) : Action :=
  { kindTag := 0, fromNode := -1, toNode := n, aux := -1, payloadBits := 0 }

/-- A game tree given by its moves and scores: the workbench is the path, newest move first, and
the sides alternate. Keys tell short paths apart. -/
def pathGame (moves : List Action → List Action) (score : List Action → Int)
    (terminalScore : List Action → Int → Int → Option Int) : Game (List Action) where
  key path := BitVec.ofNat 64 (path.foldl (fun n a => 4 * n + a.toNode.toNat + 1) 1)
  sideToMove path := path.length % 2
  isTerminal path := moves path = []
  doMove path action := action :: path
  undoMove path := path.tail
  hasCurrentRepetition _ := false
  currentPositionResetsRepetition _ := false
  score := score
  generateLegalCtx path _ := moves path
  generateQuiescenceCtx path _ _ := moves path
  moveOrderBiasCtx _ _ _ := 0
  moveOrderScoresCtx _ _ _ := (fun _ => 0, false)
  terminalScore := terminalScore
  searchAlphaOverride _ := none
  uniqueRootMoveScore := 100
  nullMoveTerminalGuard := 40
  repetitionDrawBias := 1
  actionResetsRepetition _ := false
  packTtAction _ := none
  unpackTtAction _ := none
  mctsTerminalScore := score
  rootShortCircuitDraw _ := none

theorem pathGame_reversible (moves : List Action → List Action) (score : List Action → Int)
    (terminalScore : List Action → Int → Int → Option Int) :
    (pathGame moves score terminalScore).Reversible where
  legal _ _ _ _ := rfl
  quiescence _ _ _ _ _ := rfl

/-- Settings with no extension. -/
def plainSearcher : Searcher := { options := { depthExtension := false } }

theorem plainSearcher_settings : PlainSettings {} plainSearcher := ⟨rfl, rfl, rfl, rfl⟩

/-- Two moves for two plies; the second root move is the better one. -/
def twoPly : Game (List Action) :=
  pathGame (fun path => if path.length < 2 then [pathMove 0, pathMove 1] else [])
    (fun path => match path.map fun action => action.toNode.toNat with
      | [0, 0] => 3
      | [1, 0] => -4
      | [0, 1] => 1
      | [1, 1] => 2
      | _ => 0)
    (fun _ _ _ => none)

theorem twoPly_scoresInside : ScoresInside twoPly where
  score wb := by
    have hscore : ∀ path : List Nat, -4 ≤ (match path with
        | [0, 0] => 3 | [1, 0] => -4 | [0, 1] => 1 | [1, 1] => 2 | _ => (0 : Int))
        ∧ (match path with
        | [0, 0] => 3 | [1, 0] => -4 | [0, 1] => 1 | [1, 1] => 2 | _ => (0 : Int)) ≤ 3 := by
      intro path
      split <;> omega
    have h := hscore (wb.map fun action => action.toNode.toNat)
    unfold i32Max
    constructor
    · exact le_trans (by omega) h.1
    · exact le_trans h.2 (by omega)
  terminal _ _ _ _ h := by cases h

/-- On the two-ply game plain alpha-beta returns minimax, by the contract. -/
theorem search_computes_minimax_twoPly :
    (search twoPly 4 plainSearcher [] 2).map (fun r => (r.1.score, r.1.bestAction))
      = some (minimax twoPly {} 2 [], pathMove 1) := by
  have hsome : (search twoPly 4 plainSearcher [] 2).isSome := by decide
  have hquiet : (search twoPly 4 plainSearcher [] 2).map
      (fun r => (r.2.1.ttHits, r.2.1.repetitionCuts, r.2.1.aborted)) = some (0, 0, false) := by
    decide
  have hmove : (search twoPly 4 plainSearcher [] 2).map (fun r => r.1.bestAction)
      = some (pathMove 1) := by decide
  obtain ⟨⟨result, s', wb'⟩, hrun⟩ := Option.isSome_iff_exists.1 hsome
  rw [hrun] at hquiet hmove ⊢
  simp only [Option.map_some, Option.some.injEq, Prod.mk.injEq] at hquiet hmove ⊢
  have hanswer := ((search_computes_minimax (pathGame_reversible _ _ _) twoPly_scoresInside
    (fun _ => rfl) plainSearcher_settings).2 2 [] (by decide) rfl (by decide)).2.2.1 4 result s' wb'
    hrun hquiet.1 hquiet.2.1 hquiet.2.2
  exact ⟨hanswer.2.score, hmove⟩

/-! ## The limits -/

/-- One legal root move. -/
def forcedMove : Game (List Action) :=
  pathGame (fun path => if path.length < 1 then [pathMove 0] else []) (fun _ => 7)
    (fun _ _ _ => none)

/-- An evaluator that answers `i32::MIN`. -/
def extremeScore : Game (List Action) :=
  pathGame (fun path => if path.length < 1 then [pathMove 0] else []) (fun _ => i32Min)
    (fun _ _ _ => none)

/-- Finished after one ply, with the default terminal score. -/
def defaultTerminal : Game (List Action) :=
  pathGame (fun path => if path.length < 1 then [pathMove 0, pathMove 1] else []) (fun _ => 5)
    (defaultTerminalScore (fun path => path.length = 1) fun _ => 5)

/-- Never finished, and every position has its own key. -/
def endless : Game (List Action) :=
  { pathGame (fun _ => [pathMove 0]) (fun _ => 0) (fun _ _ _ => none) with
    key := fun path => BitVec.ofNat 64 (path.length + 1) }

/-- **The four limits.** A forced root move scores 100 and not its value, a score of `i32::MIN` is
reported as far below a window it exceeds, principal variation search takes the default terminal
score with the wrong sign, and 129 plies do not return. -/
theorem search_limits :
    ((search forcedMove 3 plainSearcher [] 1).map
        (fun r => (r.1.score, r.2.1.ttHits, r.2.1.repetitionCuts, r.2.1.aborted))
        = some (100, 0, 0, false) ∧ minimax forcedMove {} 1 [] = -7)
    ∧ ((alphaBeta extremeScore 3 1 (-10) 10 plainSearcher []).map
        (fun r => (r.1, r.2.1.ttHits, r.2.1.repetitionCuts, r.2.1.aborted))
        = some (i32Min + 1, 0, 0, false) ∧ minimax extremeScore {} 1 [] = 2147483648)
    ∧ ((searchPvs defaultTerminal 4 plainSearcher [] 2).map
        (fun r => (r.1.score, r.2.1.ttHits, r.2.1.repetitionCuts, r.2.1.aborted))
        = some (5, 0, 0, false) ∧ minimax defaultTerminal {} 2 [] = -5)
    ∧ (alphaBeta endless 131 129 (-10) 10 plainSearcher []).isNone := by
  refine ⟨by decide, by decide, by decide, by decide +kernel⟩

end Searcher

end Sanmill
