import Sanmill.Search.Searcher

/-!
# Alpha-beta and the quiescence search

`alphaBeta` is the fail-soft recursion below the root. Its move loop is a
function of its own that takes the child search as an argument, so the recursion
is on `fuel` alone: one unit for each nested call.

Scores are negated and the window is flipped only when the side to move has
changed; after a move that keeps the side (a mill that still owes a removal) the
child is searched with the window as it is.
-/

namespace Sanmill

namespace Searcher

variable {W : Type} (g : Game W)

/-- What a search hands back: its score, the searcher and the workbench; or it panicked or ran
out of fuel. -/
abbrev Run (W : Type) (α : Type) : Type := Option (α × Searcher × W)

/-- A search of one subtree, by window. -/
abbrev WindowSearch (W : Type) : Type := Int → Int → Searcher → W → Run W Int

/-- `search_after_move`, over the search of the child. -/
def searchAfterMove (search : WindowSearch W) (alpha beta before after : Int) (s : Searcher)
    (wb : W) : Run W Int :=
  if after ≠ before then
    (search (wrapI32 (-beta)) (wrapI32 (-alpha)) (s.opened .negation) wb).map
      fun (score, s, wb) => (wrapI32 (-score), s.closed, wb)
  else search alpha beta s wb

/-! ## Quiescence search -/

/-- The static score, moved towards zero for each ply below the horizon. -/
def standPat (score depth : Int) : Int :=
  if 0 < score then saturateI32 (score + depth) else saturateI32 (score - depth)

/-- The loop of the quiescence search over the moves of a node. -/
def qsearchLoop (child : WindowSearch W) (beta : Int) :
    List Action → Int → Searcher → W → Run W Int
  | [], alpha, s, wb => some (alpha, s, wb)
  | action :: rest, alpha, s, wb =>
    let (stop, s) := s.checkAbort alpha .none
    if stop then some (alpha, s, wb)
    else
      let before := g.sideToMove wb
      let s := s.opened (.quiescence alpha beta)
      let wb := g.doMove wb action
      let after := g.sideToMove wb
      match searchAfterMove child alpha beta before after s wb with
      | none => none
      | some (value, s, wb) =>
        let wb := g.undoMove wb
        let s := s.closed
        if alpha < value then
          if beta ≤ value then some (beta, s, wb) else qsearchLoop child beta rest value s wb
        else qsearchLoop child beta rest alpha s wb

/-- `qsearch_with_depth`: only actions of the extended kind are tried. -/
def qsearchWithDepth : Nat → Int → WindowSearch W
  | 0, _, _, _, _, _ => none
  | fuel + 1, depth, alpha, beta, s, wb =>
    let s := { s with nodes := s.nodes + 1 }
    let (stop, s) := s.checkAbort (g.score wb) .none
    if stop then some (g.score wb, s, wb)
    else
      let standPat := standPat (g.score wb) depth
      if s.qsearchMaxDepth ≤ -depth then some (standPat, s, wb)
      else if beta ≤ standPat then some (beta, s, wb)
      else
        let alpha := max alpha standPat
        if g.isTerminal wb then some (standPat, s, wb)
        else
          match s.policy.quiescenceKindTag with
          | none => some (alpha, s, wb)
          | some kindTag =>
            let moves := g.generateQuiescenceCtx wb s.options.moveOrderContext kindTag
            if moves = [] then some (alpha, s, wb)
            else
              let moves := s.orderMoves g wb (g.key wb) moves
              qsearchLoop g (qsearchWithDepth fuel (depth - 1)) beta moves alpha s wb

/-! ## Alpha-beta -/

/-- The move loop of `alpha_beta`. -/
def alphaBetaLoop (child : WindowSearch W) (key : BitVec 64) (depth oldAlpha beta : Int) :
    List Action → Int → Int → Action → Searcher → W → Run W Int
  | [], _, bestValue, bestAction, s, wb =>
    some (bestValue,
      s.saveTt g key depth bestValue (boundOf bestValue oldAlpha beta) bestAction, wb)
  | action :: rest, alpha, bestValue, bestAction, s, wb =>
    let (stop, s) := s.checkAbort (max bestValue alpha) .none
    if stop then some (max bestValue alpha, s, wb)
    else
      let before := g.sideToMove wb
      let s := s.opened (.move alpha beta bestValue rest.isEmpty)
      match s.pushRepetitionAncestor g key action with
      | none => none
      | some (previous, s) =>
        let wb := g.doMove wb action
        let after := g.sideToMove wb
        match searchAfterMove child alpha beta before after s wb with
        | none => none
        | some (score, s, wb) =>
          let wb := g.undoMove wb
          let s := (s.popRepetitionAncestor key previous).closed
          if beta ≤ score then some (score, s.saveTt g key depth score .lower action, wb)
          else
            alphaBetaLoop child key depth oldAlpha beta rest (max alpha score)
              (max bestValue score) (if bestValue < score then action else bestAction) s wb

/-- `NULL_MOVE_MIN_DEPTH`. -/
def nullMoveMinDepth : Int := 3

/-- The null-move proxy of `alpha_beta`. -/
def nullMoveCut (s : Searcher) (wb : W) (depth beta : Int) : Bool :=
  s.options.allowNullMove ∧ nullMoveMinDepth ≤ depth ∧ beta < i32Max - 1
    ∧ wrapI32 (g.score wb).natAbs < g.nullMoveTerminalGuard ∧ beta ≤ wrapI32 (-g.score wb)

/-- The part of `alpha_beta` after a table probe that did not cut: `probe` holds the narrowed
window, `oldAlpha` the one before. `child` searches at the given depth. -/
def expandNode (child : Int → WindowSearch W) (depth oldAlpha : Int) (probe : TtProbeResult)
    (s : Searcher) (wb : W) : Run W Int :=
  let key := g.key wb
  if key ≠ 0 ∧ (s.pathRepeatsSinceReset key ∨ g.hasCurrentRepetition wb) then
    some (g.repetitionDrawBias, { s with repetitionCuts := s.repetitionCuts + 1 }, wb)
  else if s.nullMoveCut g wb depth probe.beta then some (probe.beta, s, wb)
  else
    let moves := g.generateLegalCtx wb s.options.moveOrderContext
    let moves := s.orderMovesWithTtMove g wb key moves probe.ttMove
    if moves = [] then some (g.score wb, s, wb)
    else
      let depthExtension := if s.options.depthExtension ∧ moves.length = 1 then 1 else 0
      alphaBetaLoop g (child (depth - 1 + depthExtension)) key depth oldAlpha probe.beta moves
        probe.alpha (i32Min + 1) .none s wb

/-- `alpha_beta` below the horizon and override checks. -/
def searchNode (child : Int → WindowSearch W) (depth alpha beta : Int) (s : Searcher) (wb : W) :
    Run W Int :=
  let key := g.key wb
  let probe := s.probeTt g key depth alpha beta
  match probe.probe with
  | .cutoff value => some (value, s.countTtHit, wb)
  | .hitNoCutoff => expandNode g child depth alpha probe s.countTtHit wb
  | .miss => expandNode g child depth alpha probe (s.countTtMiss key) wb

/-- `alpha_beta`: the leaves, the table, the moves in their order. -/
def alphaBeta : Nat → Int → WindowSearch W
  | 0, _, _, _, _, _ => none
  | fuel + 1, depth, alpha, beta, s, wb =>
    let s := { s with nodes := s.nodes + 1 }
    let (stop, s) := s.checkAbort (g.score wb) .none
    if stop then some (g.score wb, s, wb)
    else
      match g.terminalScore wb (g.sideToMove wb) depth with
      | some score => some (score, s, wb)
      | none =>
        if depth ≤ 0 then qsearchWithDepth g fuel depth alpha beta s wb
        else
          let alpha := (g.searchAlphaOverride wb).getD alpha
          if (g.searchAlphaOverride wb).isSome ∧ beta ≤ alpha then some (alpha, s, wb)
          else searchNode g (alphaBeta fuel) depth alpha beta s wb

end Searcher

end Sanmill
