import Sanmill.Search.Root

/-!
# The depth driver

`run_ab_like_search` of the Flutter bridge: one root search for each depth, each with what is
left of the time budget, until one is aborted or the budget is spent. The wall clock is read
once at the start of each iteration. A panic of a search is `none`.
-/

namespace Sanmill

/-- The algorithms that the front end can choose. -/
inductive MillSearchAlgorithmKind where
  | alphaBeta
  | pvs
  | mtdf
  | mcts
  | random
deriving DecidableEq, Repr

/-- The part of `MillEngineConfigPlan` that the driver and its depth depend on. -/
structure MillEngineConfigPlan where
  algorithm : MillSearchAlgorithmKind := .mtdf
  moveTimeMs : Nat := 0
  aiIsLazy : Bool := false
  lastBestValue : Int := 0

/-- `VALUE_EACH_PIECE`. -/
def valueEachPiece : Int := 5

/-- `origin_depth`: a side that is clearly ahead looks less deep. -/
def originDepth (config : MillEngineConfigPlan) (requestedDepth : Int) : Int :=
  if config.aiIsLazy then
    let np := Int.tdiv config.lastBestValue valueEachPiece
    if 1 < np then if requestedDepth < 4 then 1 else 4 else max requestedDepth 1
  else max requestedDepth 1

/-- `SearchResult::default_none`. -/
def SearchResult.defaultNone : SearchResult where
  bestAction := .none
  score := 0
  nodes := 0

/-- `remaining_time_limit_ms`. -/
def remainingTimeLimitMs (moveTimeMs elapsedMs : Nat) : Option Nat :=
  if moveTimeMs = 0 then none else some (moveTimeMs - elapsedMs)

/-- `configured_search_options`. -/
def configuredSearchOptions (config : MillEngineConfigPlan) (searchContext : MoveOrderContext) :
    SearchOptions :=
  { timeLimitMs := if 0 < config.moveTimeMs then some config.moveTimeMs else none
    moveOrderContext := searchContext }

/-- `set_iteration_search_options`. -/
def setIterationSearchOptions (s : Searcher) (config : MillEngineConfigPlan)
    (searchContext : MoveOrderContext) (elapsedMs : Nat) : Option Nat × Searcher :=
  let options := configuredSearchOptions config searchContext
  let remainingMs := remainingTimeLimitMs config.moveTimeMs elapsedMs
  let options :=
    match remainingMs with
    | some remainingMs => { options with timeLimitMs := some remainingMs }
    | none => options
  (remainingMs, { s with options })

/-- One call of `on_info`. -/
structure DepthReport where
  searcher : Searcher
  depth : Int
  result : SearchResult

/-- What the driver answers, what it reported, and what it leaves behind. -/
structure DriverOutcome (W : Type) where
  result : SearchResult
  reports : List DepthReport
  searcher : Searcher
  wb : W

variable {W : Type} (g : Game W)

/-- `run_searcher_algorithm`. -/
def runSearcherAlgorithm (fuel probes : Nat) (algorithm : MillSearchAlgorithmKind) (s : Searcher)
    (wb : W) (depth firstGuess : Int) : Searcher.Run W SearchResult :=
  match algorithm with
  | .alphaBeta | .pvs => Searcher.search g fuel s wb depth
  | .mtdf => Searcher.searchMtdfWithGuess g fuel probes s wb depth firstGuess
  | .mcts | .random => some (.defaultNone, s, wb)

/-- The remaining `count` iterations of `run_ab_like_search`, from depth `d` on. -/
def runDepths (fuel probes : Nat) (config : MillEngineConfigPlan) (searchContext : MoveOrderContext)
    (elapsedMs : Int → Nat) :
    Nat → Int → SearchResult → Int → Searcher → W → Option (DriverOutcome W)
  | 0, _, result, _, searcher, wb => some { result, reports := [], searcher, wb }
  | count + 1, d, result, firstGuess, searcher, wb =>
    if searcher.aborted then some { result, reports := [], searcher, wb }
    else
      let (remainingMs, searcher) :=
        setIterationSearchOptions searcher config searchContext (elapsedMs d)
      if 0 < config.moveTimeMs ∧ remainingMs = some 0 ∧ result.bestAction.isNone = false then
        some { result, reports := [], searcher, wb }
      else
        match runSearcherAlgorithm g fuel probes config.algorithm searcher wb d firstGuess with
        | none => none
        | some (iteration, searcher, wb) =>
          if searcher.aborted then
            -- kept only when nothing better is at hand
            let result :=
              if result.bestAction.isNone ∧ iteration.bestAction.isNone = false then iteration
              else result
            some { result, reports := [], searcher, wb }
          else
            (runDepths fuel probes config searchContext elapsedMs count (d + 1) iteration
              iteration.score searcher wb).map fun outcome =>
                { outcome with
                  reports := { searcher, depth := d, result := iteration } :: outcome.reports }

/-- `run_ab_like_search`; the depths are those of `2..=max_depth`. -/
def runAbLikeSearch (fuel probes : Nat) (config : MillEngineConfigPlan)
    (searchContext : MoveOrderContext) (elapsedMs : Int → Nat) (maxDepth : Int)
    (searcher : Searcher) (wb : W) : Option (DriverOutcome W) :=
  runDepths g fuel probes config searchContext elapsedMs (maxDepth - 1).toNat 2 .defaultNone 0
    searcher wb

end Sanmill
