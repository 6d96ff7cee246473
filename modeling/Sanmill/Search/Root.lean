import Sanmill.Search.AlphaBeta

/-!
# Root searches

The entry points: plain alpha-beta (`search`), principal variation search, iterative deepening
over it with optional aspiration windows, and MTD(f). All of them share the root prologue: a
finished position, an empty move list and a single legal move are answered without a search.
-/

namespace Sanmill

/-- What a search answers. -/
structure SearchResult where
  bestAction : Action
  score : Int
  nodes : Nat
  drawReason : Option String := none
deriving DecidableEq, Repr

namespace Searcher

variable {W : Type} (g : Game W)

/-! ## The prologue -/

/-- How a search starts. -/
inductive RootStart where
  /-- The result is known without a search. -/
  | done (result : SearchResult) (s : Searcher)
  /-- At least two ordered root moves. -/
  | moves (moves : List Action) (s : Searcher)

/-- The root shuffle, where the entry point obeys `shuffle_root`. -/
def shuffleRootMoves (s : Searcher) (shuffles : Bool) (moves : List Action) :
    List Action × Searcher :=
  if shuffles ∧ s.options.shuffleRoot then s.shuffleMoves moves else (moves, s)

/-- The root prologue; `shuffles` says whether this entry point obeys `shuffle_root`. -/
def rootStart (shuffles : Bool) (depth : Int) (s : Searcher) (wb : W) : RootStart :=
  let s := s.beginRootSearchAt g wb
  match g.terminalScore wb (g.sideToMove wb) depth with
  | some score => .done { bestAction := .none, score, nodes := s.nodes } s
  | none =>
    let moves := g.generateLegalCtx wb s.options.moveOrderContext
    let (moves, s) := s.shuffleRootMoves shuffles moves
    let moves := s.orderMoves g wb (g.key wb) moves
    match moves with
    | [] => .done { bestAction := .none, score := g.score wb, nodes := s.nodes } s
    | [action] =>
      .done { bestAction := action, score := g.uniqueRootMoveScore, nodes := s.nodes }
        (s.recordRootMove action g.uniqueRootMoveScore 0 false)
    | moves => .moves moves s

/-- One root move: make it, search it, take it back. `best` is the score it has to beat, the one
of `bestAction`. -/
def searchRootMove (search : Int → Int → Searcher → W → Run W Int) (rootKey : BitVec 64)
    (best : Int) (bestAction action : Action) (s : Searcher) (wb : W) : Run W Int :=
  let before := g.sideToMove wb
  let s := s.opened (.rootMove action best bestAction)
  match s.pushRepetitionAncestor g rootKey action with
  | none => none
  | some (previous, s) =>
    let wb := g.doMove wb action
    let after := g.sideToMove wb
    match search before after s wb with
    | none => none
    | some (score, s, wb) =>
      some (score, (s.popRepetitionAncestor rootKey previous).closed, g.undoMove wb)

/-! ## Plain alpha-beta -/

/-- The root loop of `search`: every move gets the full window. -/
def searchLoop (child : WindowSearch W) (rootKey : BitVec 64) :
    List Action → Int → Action → Searcher → W → Run W (Int × Action)
  | [], bestScore, bestAction, s, wb => some ((bestScore, bestAction), s, wb)
  | action :: rest, bestScore, bestAction, s, wb =>
    let (stop, s) := s.checkAbort bestScore bestAction
    if stop then some ((bestScore, bestAction), s, wb)
    else
      let nodesBefore := s.nodes
      match searchRootMove g
          (fun before after => searchAfterMove child (i32Min + 1) (i32Max - 1) before after)
          rootKey bestScore bestAction action s wb with
      | none => none
      | some (score, s, wb) =>
        let s := s.recordRootMove action score (s.nodes - nodesBefore) false
        if bestScore < score then
          searchLoop child rootKey rest score action (s.note (.chosen action score s.struck)) wb
        else searchLoop child rootKey rest bestScore bestAction s wb

/-- `search`: every root move with a full window. -/
def search (fuel : Nat) (s : Searcher) (wb : W) (depth : Int) : Run W SearchResult :=
  match rootStart g true depth s wb with
  | .done result s => some (result, s, wb)
  | .moves moves s =>
    (searchLoop g (alphaBeta g fuel (depth - 1)) (g.key wb) moves (i32Min + 1)
      (moves.headD .none) s wb).map fun ((score, bestAction), s, wb) =>
        ({ bestAction, score, nodes := s.nodes }, s, wb)

/-! ## Principal variation search -/

/-- `pvs_after_move`. -/
def pvsAfterMove (child : WindowSearch W) (depth alpha beta : Int) (moveIndex : Nat)
    (before after : Int) (s : Searcher) (wb : W) : Run W Int :=
  if depth ≤ 0 then searchAfterMove child alpha beta before after s wb
  else
    match g.terminalScore wb before depth with
    | some score => some (score, s, wb)
    | none =>
      if moveIndex = 0 then searchAfterMove child alpha beta before after s wb
      else
        let s := s.opened (.nullWindow alpha beta (decide (after ≠ before)) (g.score wb))
        let nullWindow :=
          if after ≠ before then
            (child (wrapI32 (wrapI32 (-alpha) - 1)) (wrapI32 (-alpha)) s wb).map
              fun (value, s, wb) => (wrapI32 (-value), s, wb)
          else child alpha (wrapI32 (alpha + 1)) s wb
        match nullWindow with
        | none => none
        | some (value, s, wb) =>
          let s := s.closed
          if alpha < value ∧ value < beta then searchAfterMove child alpha beta before after s wb
          else some (value, s, wb)

/-- The root loop of `search_pvs`. -/
def pvsLoop (child : WindowSearch W) (depth beta : Int) (rootKey : BitVec 64) :
    Nat → List Action → Int → Action → Searcher → W → Run W (Int × Action)
  | _, [], alpha, bestAction, s, wb => some ((alpha, bestAction), s, wb)
  | i, action :: rest, alpha, bestAction, s, wb =>
    let (stop, s) := s.checkAbort alpha bestAction
    if stop then some ((alpha, bestAction), s, wb)
    else
      let nodesBefore := s.nodes
      match searchRootMove g (fun before after =>
        pvsAfterMove g child depth alpha beta i before after)
          rootKey alpha bestAction action s wb with
      | none => none
      | some (value, s, wb) =>
        let s := s.recordRootMove action value (s.nodes - nodesBefore) false
        if alpha < value then
          pvsLoop child depth beta rootKey (i + 1) rest value action
            (s.note (.chosen action value s.struck)) wb
        else pvsLoop child depth beta rootKey (i + 1) rest alpha bestAction s wb

/-- `search_pvs`: a null window after the first root move. -/
def searchPvs (fuel : Nat) (s : Searcher) (wb : W) (depth : Int) : Run W SearchResult :=
  match rootStart g true depth s wb with
  | .done result s => some (result, s, wb)
  | .moves moves s =>
    (pvsLoop g (alphaBeta g fuel (depth - 1)) (depth - 1) (i32Max - 1) (g.key wb) 0 moves
      (i32Min + 1) (moves.headD .none) s wb).map fun ((score, bestAction), s, wb) =>
        ({ bestAction, score, nodes := s.nodes }, s, wb)

/-- The root loop of `search_pvs_windowed`: a cutoff ends it. -/
def pvsWindowedLoop (child : WindowSearch W) (depth beta : Int) (rootKey : BitVec 64) :
    Nat → List Action → Int → Action → Searcher → W → Run W (Int × Action)
  | _, [], bestAlpha, bestAction, s, wb => some ((bestAlpha, bestAction), s, wb)
  | i, action :: rest, bestAlpha, bestAction, s, wb =>
    let (stop, s) := s.checkAbort bestAlpha bestAction
    if stop then some ((bestAlpha, bestAction), s, wb)
    else
      let nodesBefore := s.nodes
      match searchRootMove g
          (fun before after => pvsAfterMove g child depth bestAlpha beta i before after)
          rootKey bestAlpha bestAction action s wb with
      | none => none
      | some (value, s, wb) =>
        let cutoff : Bool := beta ≤ value
        let s := s.recordRootMove action value (s.nodes - nodesBefore) cutoff
        let s := if bestAlpha < value then s.note (.chosen action value s.struck) else s
        let bestAction := if bestAlpha < value then action else bestAction
        let bestAlpha := max bestAlpha value
        if cutoff then some ((bestAlpha, bestAction), s, wb)
        else pvsWindowedLoop child depth beta rootKey (i + 1) rest bestAlpha bestAction s wb

/-- `search_pvs_windowed`: the same in a window of the caller. -/
def searchPvsWindowed (fuel : Nat) (s : Searcher) (wb : W) (depth alpha beta : Int) :
    Run W SearchResult :=
  match rootStart g false depth s wb with
  | .done result s => some (result, s, wb)
  | .moves moves s =>
    (pvsWindowedLoop g (alphaBeta g fuel (depth - 1)) (depth - 1) beta (g.key wb) 0 moves alpha
      (moves.headD .none) s wb).map fun ((score, bestAction), s, wb) =>
        ({ bestAction, score, nodes := s.nodes }, s, wb)

/-! ## Iterative deepening -/

/-- `ASPIRATION_DELTA`. -/
def aspirationDelta : Int := 15

/-- `ASPIRATION_MAX_WINDOW`. -/
def aspirationMaxWindow : Int := 200

/-- The aspiration loop of one depth. -/
def aspirationLoop (searchFuel : Nat) (depth : Int) :
    Nat → Int → Int → Int → Searcher → W → Run W SearchResult
  | 0, _, _, _, _, _ => none
  | fuel + 1, alpha, beta, delta, s, wb =>
    match searchPvsWindowed g searchFuel s wb depth alpha beta with
    | none => none
    | some (candidate, s, wb) =>
      let next (alpha beta : Int) : Run W SearchResult :=
        let delta := saturateI32 (delta * 2)
        if aspirationMaxWindow ≤ delta then searchPvs g searchFuel s wb depth
        else aspirationLoop searchFuel depth fuel alpha beta delta s wb
      if candidate.score ≤ alpha then next (max (wrapI32 (alpha - delta)) (i32Min + 1)) beta
      else if beta ≤ candidate.score then next alpha (min (wrapI32 (beta + delta)) (i32Max - 1))
      else some (candidate, s, wb)

/-- One depth of `iterative_deepening`, given the result of the depth before. -/
def deepen (fuel : Nat) (depth : Int) (result : SearchResult) (s : Searcher) (wb : W) :
    Run W SearchResult :=
  if ¬s.options.enableAspirationWindow ∨ depth < 3
      ∨ aspirationMaxWindow ≤ wrapI32 result.score.natAbs then
    searchPvs g fuel s wb depth
  else
    aspirationLoop g fuel depth fuel (max (wrapI32 (result.score - aspirationDelta)) (i32Min + 1))
      (min (wrapI32 (result.score + aspirationDelta)) (i32Max - 1)) aspirationDelta s wb

/-- The remaining `count` depths, from `depth` on. -/
def deepenFrom (fuel : Nat) : Nat → Int → SearchResult → Searcher → W → Run W SearchResult
  | 0, _, result, s, wb => some (result, s, wb)
  | count + 1, depth, result, s, wb =>
    match deepen g fuel depth result s wb with
    | none => none
    | some (result, s, wb) =>
      if s.aborted then some (result, s, wb)
      else deepenFrom fuel count (depth + 1) result s wb

/-- `iterative_deepening`: one depth after the other. -/
def iterativeDeepening (fuel : Nat) (s : Searcher) (wb : W) (maxDepth : Int) :
    Run W SearchResult :=
  match g.rootShortCircuitDraw wb with
  | some reason =>
    some ({ bestAction := .none, score := 0, nodes := 0, drawReason := some reason }, s, wb)
  | none =>
    match searchPvs g fuel s wb 1 with
    | none => none
    | some (result, s, wb) => deepenFrom g fuel (max maxDepth 1 - 1).toNat 2 result s wb

/-! ## MTD(f) -/

/-- The zero-window loop, over any probe; `none` is `fuel` probes that did not close the bounds,
or a probe that did not return. -/
def mtdfLoop (probe : Int → Action → Searcher → W → Run W (Int × Action)) :
    Nat → Int → Int → Int → Action → Searcher → W → Run W (Int × Action)
  | 0, _, _, _, _, _, _ => none
  | fuel + 1, g, lower, upper, bestAction, s, wb =>
    if lower < upper then
      let beta := if g = lower then wrapI32 (g + 1) else g
      match probe beta bestAction s wb with
      | none => none
      | some ((g, bestAction), s, wb) =>
        let (lower, upper) := if g < beta then (lower, g) else (g, upper)
        if s.aborted then some ((g, bestAction), s, wb)
        else mtdfLoop probe fuel g lower upper bestAction s wb
    else some ((g, bestAction), s, wb)

/-- One zero-window probe, as `on_iteration` reports it, with the searcher it started from. -/
structure MtdfRow where
  beta : Int
  value : Int
  bestAction : Action
  start : Searcher

/-- The probes of `mtdfLoop`, in order. -/
def mtdfRows (probe : Int → Action → Searcher → W → Run W (Int × Action)) :
    Nat → Int → Int → Int → Action → Searcher → W → List MtdfRow
  | 0, _, _, _, _, _, _ => []
  | fuel + 1, g, lower, upper, bestAction, s, wb =>
    if lower < upper then
      let beta := if g = lower then wrapI32 (g + 1) else g
      match probe beta bestAction s wb with
      | none => []
      | some ((g, bestAction), t, wb) =>
        let row := { beta, value := g, bestAction, start := s }
        let (lower, upper) := if g < beta then (lower, g) else (g, upper)
        if t.aborted then [row] else row :: mtdfRows probe fuel g lower upper bestAction t wb
    else []

/-- `promote_root_pv_move`. -/
def promoteRootPvMove (moves : List Action) (bestAction : Action) : List Action :=
  if bestAction.isNone ∨ moves.head? = some bestAction then moves
  else
    match moves.findIdx? (· = bestAction) with
    | some index => (moves.toArray.swapIfInBounds 0 index).toList
    | none => moves

/-- The move loop of `mtdf_root_traced`: best value, best action. -/
def mtdfRootLoop (child : WindowSearch W) (rootKey : BitVec 64) (beta : Int) :
    List Action → Int → Int → Action → Searcher → W → Run W (Int × Action)
  | [], _, bestValue, bestAction, s, wb => some ((bestValue, bestAction), s, wb)
  | action :: rest, alpha, bestValue, bestAction, s, wb =>
    let (stop, s) := s.checkAbort bestValue bestAction
    if stop then some ((bestValue, bestAction), s, wb)
    else
      let nodesBefore := s.nodes
      match searchRootMove g
          (fun before after => searchAfterMove child alpha beta before after)
          rootKey (max bestValue alpha) bestAction action s wb with
      | none => none
      | some (value, s, wb) =>
        let s := s.recordRootMove action value (s.nodes - nodesBefore) (decide (beta ≤ value))
        if bestValue < value ∧ alpha < value then
          let s := s.note (.chosen action value s.struck)
          if beta ≤ value then some ((value, action), s, wb)
          else mtdfRootLoop child rootKey beta rest value value action s wb
        else
          mtdfRootLoop child rootKey beta rest alpha (max bestValue value) bestAction s wb

/-- `mtdf_root_traced` with the window `(beta - 1, beta)`. -/
def mtdfRootTraced (fuel : Nat) (depth : Int) (beta : Int) (bestAction : Action) (s : Searcher)
    (wb : W) : Run W (Int × Action) :=
  let s := { s with nodes := s.nodes + 1 }
  let rootKey := g.key wb
  let oldAlpha := wrapI32 (beta - 1)
  let probe := s.probeTt g rootKey depth oldAlpha beta
  match probe.probe with
  | .cutoff value => some ((value, bestAction), s.countTtHit, wb)
  | outcome =>
    let s := if outcome = .hitNoCutoff then s.countTtHit else s.countTtMiss rootKey
    let s := { s with rootMoves := [] }
    let s := s.opened .probe
    let moves := g.generateLegalCtx wb s.options.moveOrderContext
    let moves := s.orderMovesWithTtMove g wb rootKey moves probe.ttMove
    let moves := promoteRootPvMove moves bestAction
    (mtdfRootLoop g (alphaBeta g fuel (depth - 1)) rootKey probe.beta moves probe.alpha
      (i32Min + 1) bestAction s wb).map fun ((bestValue, bestAction), s, wb) =>
        ((bestValue, bestAction),
          s.closed.saveTt g rootKey depth bestValue (boundOf bestValue oldAlpha probe.beta)
            bestAction,
          wb)

/-- `search_mtdf_with_guess`: null windows around the guess until the bounds meet. -/
def searchMtdfWithGuess (fuel probes : Nat) (s : Searcher) (wb : W) (depth firstGuess : Int) :
    Run W SearchResult :=
  match rootStart g true depth s wb with
  | .done result s => some (result, s, wb)
  | .moves moves s =>
    (mtdfLoop (mtdfRootTraced g fuel depth) probes firstGuess (i32Min + 1) (i32Max - 1)
      (moves.headD .none) s wb).map fun ((score, bestAction), s, wb) =>
        ({ bestAction, score, nodes := s.nodes }, s, wb)

/-- The rows `search_mtdf_with_guess_traced` reports. -/
def searchMtdfTrace (fuel probes : Nat) (s : Searcher) (wb : W) (depth firstGuess : Int) :
    List MtdfRow :=
  match rootStart g true depth s wb with
  | .done _ _ => []
  | .moves moves s =>
    mtdfRows (mtdfRootTraced g fuel depth) probes firstGuess (i32Min + 1) (i32Max - 1)
      (moves.headD .none) s wb

/-- A probe of `mtdf`: `alpha_beta` itself. -/
def mtdfProbe (fuel : Nat) (depth : Int) (beta : Int) (bestAction : Action) (s : Searcher)
    (wb : W) : Run W (Int × Action) :=
  (alphaBeta g fuel depth (wrapI32 (beta - 1)) beta s wb).map fun (score, s, wb) =>
    ((score, bestAction), s, wb)

/-- `mtdf`: the same loop, score only. -/
def mtdf (fuel probes : Nat) (s : Searcher) (wb : W) (firstGuess depth : Int) : Run W Int :=
  (mtdfLoop (mtdfProbe g fuel depth) probes firstGuess (i32Min + 1) (i32Max - 1) .none s wb).map
    fun ((score, _), s, wb) => (score, s, wb)

end Searcher

end Sanmill
