import Sanmill.Frb.DepthDriver
import Sanmill.Proof.MoveOrder
import Sanmill.Proof.Search.BestMove

/-!
# What the depth driver reports

The driver starts at depth 2. From there on it reports one completed depth after the other
and answers with the last one; a budget of a single depth is spent without a search.
-/

namespace Sanmill

open Searcher

variable {W : Type} {g : Game W} {fuel probes : Nat} {config : MillEngineConfigPlan}
  {searchContext : MoveOrderContext} {elapsedMs : Int → Nat}

/-- The algorithms that `run_ab_like_search` is for. -/
def MillSearchAlgorithmKind.isAbLike : MillSearchAlgorithmKind → Bool
  | .alphaBeta | .pvs | .mtdf => true
  | .mcts | .random => false

/-- No iteration was aborted, and at the start of none the time was up. -/
structure Uncut (config : MillEngineConfigPlan) (elapsedMs : Int → Nat) (maxDepth : Int)
    (outcome : DriverOutcome W) : Prop where
  aborted : outcome.searcher.aborted = false
  budget : ∀ d, 2 ≤ d → d ≤ maxDepth →
    remainingTimeLimitMs config.moveTimeMs (elapsedMs d) ≠ some 0

/-- What the driver promises of a run of `searcher` to `maxDepth` from `wb`. -/
structure DriverPromise (g : Game W) (fuel probes : Nat) (config : MillEngineConfigPlan)
    (searchContext : MoveOrderContext) (elapsedMs : Int → Nat) (maxDepth : Int)
    (searcher : Searcher) (wb : W) (outcome : DriverOutcome W) : Prop where
  /-- The reported depths follow each other without a gap. -/
  consecutive : (outcome.reports.map DepthReport.depth).IsChain fun d d' => d' = d + 1
  /-- Each report is of a search of that depth from the root that came to its end there. -/
  completed : ∀ report ∈ outcome.reports, report.searcher.aborted = false
    ∧ ∃ s guess, runSearcherAlgorithm g fuel probes config.algorithm s wb report.depth guess
      = some (report.result, report.searcher, wb)
  /-- The answer is that of the last report. -/
  last : ∀ report, outcome.reports.getLast? = some report → outcome.result = report.result
  /-- Without a report there is no answer, or that of an aborted iteration. -/
  first : outcome.reports = [] →
    outcome.result = .defaultNone ∨ outcome.searcher.aborted = true
  /-- A run that nothing cuts short reaches the depth. -/
  full : Uncut config elapsedMs maxDepth outcome →
    outcome.reports.getLast?.map DepthReport.depth = some maxDepth
  /-- The answer has a move where a search of that depth has one, however the run ends. -/
  solved : searcher.aborted = false →
    ∀ fuel' probes' s guess result s' wb', s.options.moveOrderContext = searchContext →
      runSearcherAlgorithm g fuel' probes' config.algorithm s wb maxDepth guess
        = some (result, s', wb') →
      result.bestAction.isNone = false → outcome.result.bestAction.isNone = false

/-- Whether an iteration that starts with `searcher` and the answer `result` searches: the
searcher is not aborted, and with an answer at hand there is time left. -/
structure Searches (config : MillEngineConfigPlan) (elapsedMs : Int → Nat) (d : Int)
    (result : SearchResult) (searcher : Searcher) : Prop where
  aborted : searcher.aborted = false
  budget : remainingTimeLimitMs config.moveTimeMs (elapsedMs d) = some 0 →
    result.bestAction.isNone = true

/-- The iterations that a run of `searcher` from `wb` comes to: the depth of each, the answer at
hand and the searcher it starts with. -/
inductive Iterates (g : Game W) (fuel probes : Nat) (config : MillEngineConfigPlan)
    (searchContext : MoveOrderContext) (elapsedMs : Int → Nat) (searcher : Searcher) (wb : W) :
    Int → SearchResult → Searcher → Prop
  | first : Iterates g fuel probes config searchContext elapsedMs searcher wb 2
    .defaultNone searcher
  | next {d : Int} {result iteration : SearchResult} {s s' : Searcher} :
      Iterates g fuel probes config searchContext elapsedMs searcher wb d result s →
      Searches config elapsedMs d result s →
      runSearcherAlgorithm g fuel probes config.algorithm
        (setIterationSearchOptions s config searchContext (elapsedMs d)).2 wb d result.score
        = some (iteration, s', wb) →
      Iterates g fuel probes config searchContext elapsedMs searcher wb (d + 1) iteration s'

/-! ## One iteration -/

@[simp] theorem setIterationSearchOptions_fst (s : Searcher) (elapsed : Nat) :
    (setIterationSearchOptions s config searchContext elapsed).1
      = remainingTimeLimitMs config.moveTimeMs elapsed := rfl

theorem setIterationSearchOptions_context (s : Searcher) (elapsed : Nat) :
    (setIterationSearchOptions s config searchContext elapsed).2.options.moveOrderContext
      = searchContext := by
  unfold setIterationSearchOptions
  simp only
  split <;> rfl

theorem runSearcherAlgorithm_finds (hg : g.Playable) {algorithm : MillSearchAlgorithmKind}
    (halgorithm : algorithm.isAbLike = true) {s s' : Searcher} {wb wb' : W} {depth guess : Int}
    {result : SearchResult}
    (hrun : runSearcherAlgorithm g fuel probes algorithm s wb depth guess
      = some (result, s', wb')) :
    wb' = wb
      ∧ (result.bestAction.isNone = true ↔ RootFinished g s.options.moveOrderContext wb) := by
  cases algorithm with
  | alphaBeta => exact ⟨search_restores hg.reversible hrun, search_finds hg hrun⟩
  | pvs => exact ⟨search_restores hg.reversible hrun, search_finds hg hrun⟩
  | mtdf => exact searchMtdfWithGuess_finds hg hrun
  | mcts => cases halgorithm
  | random => cases halgorithm

/-! ## The loop -/

variable {count : Nat} {d guess : Int} {result : SearchResult} {s : Searcher} {wb : W}
  {outcome : DriverOutcome W}

/-- How an iteration goes on or ends the loop. -/
theorem runDepths_succ
    (hrun : runDepths g fuel probes config searchContext elapsedMs (count + 1) d result guess s wb
      = some outcome) :
    (s.aborted = true ∧ outcome = { result, reports := [], searcher := s, wb })
    ∨ (remainingTimeLimitMs config.moveTimeMs (elapsedMs d) = some 0
        ∧ outcome.result = result ∧ result.bestAction.isNone = false ∧ outcome.reports = [])
    ∨ s.aborted = false ∧ ∃ iteration t wb',
        runSearcherAlgorithm g fuel probes config.algorithm
            (setIterationSearchOptions s config searchContext (elapsedMs d)).2 wb d guess
          = some (iteration, t, wb')
        ∧ ((t.aborted = true ∧ outcome.reports = [] ∧ outcome.searcher = t
            ∧ outcome.result
              = if result.bestAction.isNone ∧ iteration.bestAction.isNone = false then iteration
                else result)
          ∨ (t.aborted = false ∧ ∃ rest,
              runDepths g fuel probes config searchContext elapsedMs count (d + 1) iteration
                iteration.score t wb' = some rest
              ∧ outcome = { rest with
                  reports := { searcher := t, depth := d, result := iteration }
                    :: rest.reports })) := by
  unfold runDepths at hrun
  split at hrun
  · rename_i haborted
    -- an abort from outside ends the loop before the depth is tried
    exact Or.inl ⟨haborted, (Option.some.inj hrun).symm⟩
  rename_i hs
  simp only [setIterationSearchOptions_fst] at hrun
  split at hrun
  · rename_i hbudget
    obtain rfl := Option.some.inj hrun
    -- a spent budget ends it too, once some move is known
    exact Or.inr (Or.inl ⟨hbudget.2.1, rfl, hbudget.2.2, rfl⟩)
  split at hrun
  · cases hrun
  rename_i iteration t wb' hiteration
  refine Or.inr (Or.inr ⟨Bool.eq_false_iff.2 hs, iteration, t, wb', hiteration, ?_⟩)
  split at hrun
  -- an aborted depth is dropped, unless nothing better is there
  · rename_i haborted
    obtain rfl := Option.some.inj hrun
    exact Or.inl ⟨haborted, rfl, rfl, rfl⟩
  · rename_i haborted
    obtain ⟨rest, hrest, heq⟩ := Option.map_eq_some_iff.1 hrun
    exact Or.inr ⟨Bool.eq_false_iff.2 haborted, rest, hrest, heq.symm⟩

/-- The reports are of consecutive depths, from the first one on. -/
theorem runDepths_consecutive
    (hrun : runDepths g fuel probes config searchContext elapsedMs count d result guess s wb
      = some outcome) :
    outcome.reports.map DepthReport.depth
      = (List.range outcome.reports.length).map fun i : Nat => d + i := by
  induction count generalizing d result guess s wb outcome with
  | zero =>
    obtain rfl := Option.some.inj hrun
    rfl
  | succ count ih =>
    rcases runDepths_succ hrun with ⟨-, rfl⟩ | ⟨-, -, -, hnil⟩ |
      ⟨-, iteration, t, wb', -, ⟨-, hnil, -, -⟩ | ⟨-, rest, hrest, rfl⟩⟩
    · rfl
    · rw [hnil]
      rfl
    · rw [hnil]
      rfl
    · rw [List.map_cons, List.length_cons, List.range_succ_eq_map, List.map_cons, List.map_map,
        ih hrest]
      congr 1
      · exact (Int.add_zero d).symm
      · refine List.map_congr_left fun i _ => ?_
        show d + 1 + (i : Int) = d + ((i + 1 : Nat) : Int)
        push_cast
        omega

theorem runDepths_completed (hg : g.Playable) (halgorithm : config.algorithm.isAbLike = true)
    (hrun : runDepths g fuel probes config searchContext elapsedMs count d result guess s wb
      = some outcome) :
    ∀ report ∈ outcome.reports, report.searcher.aborted = false
      ∧ ∃ s guess, runSearcherAlgorithm g fuel probes config.algorithm s wb report.depth guess
        = some (report.result, report.searcher, wb) := by
  induction count generalizing d result guess s outcome with
  | zero =>
    obtain rfl := Option.some.inj hrun
    intro report hreport
    cases hreport
  | succ count ih =>
    intro report hreport
    rcases runDepths_succ hrun with ⟨-, rfl⟩ | ⟨-, -, -, hnil⟩ |
      ⟨-, iteration, t, wb', hiteration, ⟨-, hnil, -, -⟩ | ⟨haborted, rest, hrest, rfl⟩⟩
    · cases hreport
    · rw [hnil] at hreport
      cases hreport
    · rw [hnil] at hreport
      cases hreport
    · obtain ⟨rfl, -⟩ := runSearcherAlgorithm_finds hg halgorithm hiteration
      rcases List.mem_cons.1 hreport with rfl | hreport
      · exact ⟨haborted, _, _, hiteration⟩
      · exact ih hrest report hreport

/-- Where nothing cuts in, every depth is reported. -/
theorem runDepths_length
    (hrun : runDepths g fuel probes config searchContext elapsedMs count d result guess s wb
      = some outcome) (haborted : outcome.searcher.aborted = false)
    (hbudget : ∀ d', d ≤ d' → d' < d + count →
      remainingTimeLimitMs config.moveTimeMs (elapsedMs d') ≠ some 0) :
    outcome.reports.length = count := by
  induction count generalizing d result guess s wb outcome with
  | zero =>
    obtain rfl := Option.some.inj hrun
    rfl
  | succ count ih =>
    rcases runDepths_succ hrun with ⟨hs, rfl⟩ | ⟨hspent, -⟩ |
      ⟨-, iteration, t, wb', -, ⟨ht, -, rfl, -⟩ | ⟨-, rest, hrest, rfl⟩⟩
    · rw [hs] at haborted
      cases haborted
    · exact absurd hspent (hbudget d (Int.le_refl d) (by omega))
    · rw [ht] at haborted
      cases haborted
    · have hlater := ih hrest haborted fun d' hle hlt => hbudget d' (by omega) (by omega)
      rw [List.length_cons, hlater]

/-- After a completed depth the answer is the last completed one. A completed depth without a
move shows that the root is finished, so no aborted iteration has one either. -/
theorem runDepths_answer (hg : g.Playable) (halgorithm : config.algorithm.isAbLike = true)
    (hresult : result.bestAction.isNone = true ↔ RootFinished g searchContext wb)
    (hrun : runDepths g fuel probes config searchContext elapsedMs count d result guess s wb
      = some outcome) :
    outcome.result = (outcome.reports.getLast?.map DepthReport.result).getD result
      ∧ (outcome.result.bestAction.isNone = true ↔ RootFinished g searchContext wb) := by
  -- one depth at a time: the answer is the last report, or what the loop was given
  induction count generalizing d result guess s wb outcome with
  | zero =>
    obtain rfl := Option.some.inj hrun
    exact ⟨rfl, hresult⟩
  | succ count ih =>
    rcases runDepths_succ hrun with ⟨-, rfl⟩ | ⟨-, hsame, -, hnil⟩ |
      ⟨-, iteration, t, wb', hiteration, hrest⟩
    · exact ⟨rfl, hresult⟩
    · rw [hsame, hnil]
      exact ⟨rfl, hresult⟩
    obtain ⟨hwb, hfinds⟩ := runSearcherAlgorithm_finds hg halgorithm hiteration
    rw [setIterationSearchOptions_context] at hfinds
    rcases hrest with ⟨-, hnil, -, hanswer⟩ | ⟨-, rest, hrest, rfl⟩
    -- the aborted depth could only have been kept for its move, and a finished root has none
    · have hsame : outcome.result = result := by
        rw [hanswer, if_neg]
        rintro ⟨hnone, hmove⟩
        rw [hfinds.2 (hresult.1 hnone)] at hmove
        cases hmove
      rw [hsame, hnil]
      exact ⟨rfl, hresult⟩
    · subst hwb
      obtain ⟨hlast, hmove⟩ := ih hfinds hrest
      refine ⟨?_, hmove⟩
      rw [List.getLast?_cons]
      show rest.result = _
      rw [hlast]
      cases rest.reports.getLast? <;> rfl

/-! ## The driver -/

theorem isChain_depths (d : Int) (n : Nat) :
    ((List.range n).map fun i : Nat => d + i).IsChain fun a b => b = a + 1 := by
  refine List.isChain_iff_getElem.2 fun i hi => ?_
  rw [List.getElem_map, List.getElem_map, List.getElem_range, List.getElem_range]
  push_cast
  omega

variable {maxDepth : Int}

theorem driverPromise_of_two_le (hg : g.Playable) (halgorithm : config.algorithm.isAbLike = true)
    (hdepth : 2 ≤ maxDepth)
    (hrun : runAbLikeSearch g fuel probes config searchContext elapsedMs maxDepth s wb
      = some outcome) :
    DriverPromise g fuel probes config searchContext elapsedMs maxDepth s wb outcome := by
  unfold runAbLikeSearch at hrun
  obtain ⟨count, hcount⟩ : ∃ count, (maxDepth - 1).toNat = count + 1 :=
    ⟨(maxDepth - 1).toNat - 1, by omega⟩
  rw [hcount] at hrun
  have hlength : Uncut config elapsedMs maxDepth outcome → outcome.reports.length = count + 1 :=
    fun huncut => runDepths_length hrun huncut.aborted fun d' hle hlt =>
      huncut.budget d' hle (by omega)
  have hdepths := runDepths_consecutive hrun
  -- the first iteration settles whether there is a move, completed or not
  have hanswer : s.aborted = false →
      (outcome.reports ≠ [] → outcome.result
        = (outcome.reports.getLast?.map DepthReport.result).getD outcome.result)
      ∧ (outcome.result.bestAction.isNone = true ↔ RootFinished g searchContext wb) := by
    intro hs
    rcases runDepths_succ hrun with ⟨haborted, -⟩ | ⟨-, -, hmove, -⟩ |
      ⟨-, iteration, t, wb', hiteration, hrest⟩
    · rw [hs] at haborted
      cases haborted
    · cases hmove
    obtain ⟨rfl, hfinds⟩ := runSearcherAlgorithm_finds hg halgorithm hiteration
    rw [setIterationSearchOptions_context] at hfinds
    rcases hrest with ⟨-, hnil, -, hresult⟩ | ⟨-, rest, hrest, rfl⟩
    · refine ⟨fun hne => absurd hnil hne, ?_⟩
      by_cases hmove : iteration.bestAction.isNone = false
      · rw [hresult, if_pos ⟨rfl, hmove⟩]
        exact hfinds
      · rw [hresult, if_neg fun h => hmove h.2]
        exact iff_of_true rfl (hfinds.1 (Bool.eq_true_of_not_eq_false hmove))
    · obtain ⟨hlast, hmove⟩ := runDepths_answer hg halgorithm hfinds hrest
      refine ⟨fun _ => ?_, hmove⟩
      rw [List.getLast?_cons]
      show rest.result = _
      rw [hlast]
      cases rest.reports.getLast? <;> rfl
  constructor
  · rw [hdepths]
    exact isChain_depths 2 _
  · exact runDepths_completed hg halgorithm hrun
  · intro report hlast
    have hne : outcome.reports ≠ [] := by
      intro hnil
      rw [hnil] at hlast
      cases hlast
    have hs : s.aborted = false := by
      rcases runDepths_succ hrun with ⟨-, rfl⟩ | ⟨-, -, hmove, -⟩ | ⟨hs, -⟩
      · cases hlast
      · cases hmove
      · exact hs
    rw [(hanswer hs).1 hne, hlast]
    rfl
  · intro hnil
    rcases runDepths_succ hrun with ⟨-, rfl⟩ | ⟨-, -, hmove, -⟩ |
      ⟨-, iteration, t, wb', -, ⟨haborted, -, hsearcher, -⟩ | ⟨-, rest, -, rfl⟩⟩
    · exact Or.inl rfl
    · cases hmove
    · exact Or.inr (hsearcher ▸ haborted)
    · cases hnil
  · intro huncut
    have hlast := congrArg List.getLast? hdepths
    rw [List.getLast?_map, hlength huncut, List.range_succ, List.map_append, List.map_singleton,
      List.getLast?_concat] at hlast
    rw [hlast]
    congr 1
    omega
  · intro hs fuel' probes' s' guess' result s'' wb' hcontext hsearch hmove
    have hfinds := (runSearcherAlgorithm_finds hg halgorithm hsearch).2
    rw [hcontext] at hfinds
    refine Bool.eq_false_iff.2 fun hnone => ?_
    rw [hfinds.2 ((hanswer hs).2.1 hnone)] at hmove
    cases hmove

/-- The loop returns when the searches of the iterations it comes to do. -/
theorem runDepths_isSome (hg : g.Playable) (halgorithm : config.algorithm.isAbLike = true)
    {start : Searcher}
    (hiterates : Iterates g fuel probes config searchContext elapsedMs start wb d result s)
    (hsearch : ∀ d' result s,
      Iterates g fuel probes config searchContext elapsedMs start wb d' result s →
      d' < d + count → Searches config elapsedMs d' result s →
      (runSearcherAlgorithm g fuel probes config.algorithm
        (setIterationSearchOptions s config searchContext (elapsedMs d')).2 wb d'
          result.score).isSome) :
    (runDepths g fuel probes config searchContext elapsedMs count d result result.score s
      wb).isSome := by
  induction count generalizing d result s with
  | zero => rfl
  | succ count ih =>
    unfold runDepths
    split
    · rfl
    rename_i haborted
    simp only [setIterationSearchOptions_fst]
    split
    · rfl
    rename_i hbudget
    -- the loop did not stop here, which is what `Searches` asks of the depth
    have hsearches : Searches config elapsedMs d result s := by
      refine ⟨Bool.eq_false_iff.2 haborted, fun hspent => Bool.eq_true_of_not_eq_false ?_⟩
      intro hmove
      refine hbudget ⟨?_, hspent, hmove⟩
      refine Nat.pos_of_ne_zero fun hzero => ?_
      rw [remainingTimeLimitMs, if_pos hzero] at hspent
      cases hspent
    have hfirst := hsearch d result s hiterates (by omega) hsearches
    obtain ⟨⟨iteration, t, wb'⟩, hiteration⟩ := Option.isSome_iff_exists.1 hfirst
    -- a search gives the workbench back, so the next depth starts from the same root
    obtain ⟨rfl, -⟩ := runSearcherAlgorithm_finds hg halgorithm hiteration
    rw [hiteration]
    simp only
    split
    · rfl
    · rw [Option.isSome_map]
      exact ih (hiterates.next hsearches hiteration) fun d' result s hlater hlt =>
        hsearch d' result s hlater (by omega)

/-- **The depth driver keeps its promise exactly from a depth of 2 on**, at whatever moment the
searcher's abort condition becomes true, unless the searcher was aborted before the driver
started. It returns when the searches that it comes to do. -/
theorem runAbLikeSearch_promise (hg : g.Playable) (halgorithm : config.algorithm.isAbLike = true)
    (hdepth : 1 ≤ maxDepth) (s : Searcher) (wb : W) :
    ((∀ d result s',
        Iterates g fuel probes config searchContext elapsedMs s wb d result s' → d ≤ maxDepth →
        Searches config elapsedMs d result s' →
        (runSearcherAlgorithm g fuel probes config.algorithm
          (setIterationSearchOptions s' config searchContext (elapsedMs d)).2 wb d
            result.score).isSome) →
      (runAbLikeSearch g fuel probes config searchContext elapsedMs maxDepth s wb).isSome)
    ∧ ∀ outcome,
      runAbLikeSearch g fuel probes config searchContext elapsedMs maxDepth s wb = some outcome →
      (DriverPromise g fuel probes config searchContext elapsedMs maxDepth s wb outcome
        ↔ 2 ≤ maxDepth ∨ s.aborted = true) := by
  constructor
  · intro hsearch
    exact runDepths_isSome hg halgorithm .first fun d result s' hiterates hlt =>
      hsearch d result s' hiterates (by omega)
  intro outcome hrun
  by_cases htwo : 2 ≤ maxDepth
  · exact iff_of_true (driverPromise_of_two_le hg halgorithm htwo hrun) (Or.inl htwo)
  -- a single depth: the loop has no iteration
  obtain rfl : maxDepth = 1 := by omega
  obtain rfl := Option.some.inj hrun
  constructor
  · intro hpromise
    refine Or.inr (Bool.eq_true_of_not_eq_false fun haborted => ?_)
    have hfull := hpromise.full ⟨haborted, fun d hle hlt => by omega⟩
    cases hfull
  · rintro (hle | haborted)
    · exact absurd hle htwo
    have hcut : ∀ {P : Prop}, Uncut config elapsedMs 1
        ({ result := .defaultNone, reports := [], searcher := s, wb } : DriverOutcome W) → P := by
      intro P huncut
      have := huncut.aborted
      rw [haborted] at this
      cases this
    exact
      { consecutive := List.IsChain.nil
        completed := fun report hreport => absurd hreport List.not_mem_nil
        last := fun report hlast => by cases hlast
        first := fun _ => Or.inl rfl
        full := hcut
        solved := fun hs => absurd hs (by simp [haborted]) }

/-! ## The game of the bridge -/

theorem twoPly_playable : twoPly.Playable where
  reversible := pathGame_reversible _ _ _
  real := by
    intro wb ctx a ha
    have hlist : a ∈ (if wb.length < 2 then [pathMove 0, pathMove 1] else []) := ha
    split at hlist
    · simp only [List.mem_cons, List.not_mem_nil, or_false] at hlist
      rcases hlist with rfl | rfl <;> rfl
    · cases hlist
  finished := fun _ _ _ _ => rfl

/-- A run of the two-ply game to depth 3. -/
theorem runAbLikeSearch_promise_twoPly :
    ∃ outcome, runAbLikeSearch twoPly 5 40 {} {} (fun _ => 0) 3 {} [] = some outcome
      ∧ DriverPromise twoPly 5 40 {} {} (fun _ => 0) 3 {} [] outcome := by
  have hsome : (runAbLikeSearch twoPly 5 40 {} {} (fun _ => 0) 3 {} []).isSome := by
    decide +kernel
  obtain ⟨outcome, hrun⟩ := Option.isSome_iff_exists.1 hsome
  exact ⟨outcome, hrun, ((runAbLikeSearch_promise twoPly_playable rfl (by decide) {} []).2 outcome
    hrun).2 (Or.inl (by decide))⟩

/-- A lazy side asked for three plies gets one, and at one ply the driver answers without a
search, in every position. -/
theorem runAbLikeSearch_depth_one :
    originDepth { aiIsLazy := true, lastBestValue := 10 } 3 = 1
    ∧ ∀ (game : Game MillWorkbench) (wb : MillWorkbench) (fuel probes : Nat)
      (searchContext : MoveOrderContext) (elapsedMs : Int → Nat),
      ∃ outcome, runAbLikeSearch game fuel probes { aiIsLazy := true, lastBestValue := 10 }
          searchContext elapsedMs 1 {} wb = some outcome
        ∧ outcome.result = .defaultNone
        ∧ ¬ DriverPromise game fuel probes { aiIsLazy := true, lastBestValue := 10 } searchContext
          elapsedMs 1 {} wb outcome := by
  refine ⟨by decide, fun game wb fuel probes searchContext elapsedMs => ⟨_, rfl, rfl, ?_⟩⟩
  intro hpromise
  have hfull := hpromise.full ⟨rfl, fun d hle hlt => by omega⟩
  cases hfull

end Sanmill
