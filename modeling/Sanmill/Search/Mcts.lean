import Sanmill.Search.Root

/-!
# Monte-Carlo tree search

The tree is an arena of nodes. One iteration descends from the root to a leaf,
expands it, simulates from there, takes the moves back and credits the result to
every node of the path, turning it over at each step up.

Which child has the largest UCT value is a matter of floating point; here it is
whatever `rank` says, and the clock is a function of the iteration. The list of
playouts at the end of `MctsState` is not in the source and nothing reads it: it
records what each iteration did, so that a theorem can speak of it.
-/

namespace Sanmill

/-- A node of the tree. -/
structure MctsNode where
  action : Action
  children : List Nat := []
  untried : List Action
  visits : Nat := 0
  wins : Nat := 0
  moveIndex : Nat := 0
deriving DecidableEq, Repr

namespace MctsNode

/-- The root, with all its moves untried. -/
def root (untried : List Action) : MctsNode := { action := .none, untried }

/-- A node that was just added under its parent. -/
def child (action : Action) (untried : List Action) (moveIndex : Nat) : MctsNode :=
  { action, untried, moveIndex }

/-- `record_simulation`. -/
def recordSimulation (node : MctsNode) (win : Bool) : MctsNode :=
  { node with visits := node.visits + 1, wins := if win then node.wins + 1 else node.wins }

end MctsNode

/-- The vector of nodes. -/
structure MctsArena where
  size : Nat
  node : Nat → MctsNode

namespace MctsArena

/-- The arena with one more node. -/
def push (arena : MctsArena) (node : MctsNode) : MctsArena :=
  { size := arena.size + 1, node := Function.update arena.node arena.size node }

/-- The arena with one node changed. -/
def modify (arena : MctsArena) (i : Nat) (f : MctsNode → MctsNode) : MctsArena :=
  { arena with node := Function.update arena.node i (f (arena.node i)) }

end MctsArena

/-- What a search answers. -/
structure MctsResult where
  bestAction : Action
  visits : Nat
  wins : Nat
  score : Int
deriving DecidableEq, Repr

/-- The budgets and weights of a search. -/
structure MctsOptions where
  iterations : Nat := 2048
  playoutDepth : Int := 6
  timeLimitMs : Option Nat := none
  abAssistDepth : Int := 6
  moveOrderContext : MoveOrderContext := { algorithm := .mcts }

/-- A node on the way down, with the side that moved into it; the root has no such side. -/
structure MctsStep where
  node : Nat
  mover : Int
deriving DecidableEq, Repr

/-- What an iteration did: its path, leaf first, the side to move at the leaf, and what `simulate`
returned there. -/
structure Playout where
  path : List MctsStep
  leafSide : Int
  win : Bool
deriving DecidableEq, Repr

/-- The tree, the random state and the workbench. -/
structure MctsState (W : Type) where
  arena : MctsArena
  rngState : BitVec 64
  wb : W
  playouts : List Playout := []

/-- `MCTS_PATH_CAPACITY`. -/
def mctsPathCapacity : Nat := 128

namespace MctsSearcher

variable {W : Type} (g : Game W)

/-- `order_mcts_moves`: a stable sort by descending bias. -/
def orderMctsMoves (wb : W) (context : MoveOrderContext) (moves : List Action) : List Action :=
  Searcher.sortMoves moves fun i => g.moveOrderBiasCtx wb (moves.getD i .none) context

/-- The ordered legal moves of a position. -/
def mctsMoves (options : MctsOptions) (wb : W) : List Action :=
  orderMctsMoves g wb options.moveOrderContext (g.generateLegalCtx wb options.moveOrderContext)

/-- `next_random_index`: a step of xorshift. -/
def nextRandomIndex (rngState : BitVec 64) (len : Nat) : Nat × BitVec 64 :=
  let x := rngState
  let x := x ^^^ (x >>> 12)
  let x := x ^^^ (x <<< 25)
  let x := x ^^^ (x >>> 27)
  ((x * 0x2545F4914F6CDD1D#64).toNat % len, x)

/-- `simulate`, from `depth` plies above the horizon; `true` is a win for the side to move. -/
def simulate (fuel : Nat) (policy : SearchPolicy) (options : MctsOptions) :
    Nat → BitVec 64 → W → Option (Bool × BitVec 64 × W)
  | depth, rngState, wb =>
    if 0 < options.abAssistDepth ∧ ¬g.isTerminal wb then
      let sub : Searcher :=
        { policy, options := { moveOrderContext := options.moveOrderContext } }
      (Searcher.search g fuel sub wb options.abAssistDepth).map fun (result, _, wb) =>
        (decide (0 < result.score), rngState, wb)
    else
      match depth with
      | 0 => some (decide (0 < g.score wb), rngState, wb)
      | depth + 1 =>
        if g.isTerminal wb then some (decide (0 < g.score wb), rngState, wb)
        else
          let moves := mctsMoves g options wb
          if moves = [] then some (decide (0 < g.score wb), rngState, wb)
          else
            let (idx, rngState) := nextRandomIndex rngState moves.length
            let wb := g.doMove wb (moves.getD idx .none)
            match simulate fuel policy options depth rngState wb with
            | none => none
            | some (win, rngState, wb) => some (!win, rngState, g.undoMove wb)

/-- `best_uct_child`: some child, the one `rank` picks. -/
def bestUctChild (rank : MctsArena → Nat → Nat) (arena : MctsArena) (nodeIdx : Nat) : Nat :=
  let children := (arena.node nodeIdx).children
  children.getD (rank arena nodeIdx % children.length) 0

/-- Selection: the path and the workbench at its end. `room` is what is left of the path's capacity;
without room the source asserts. -/
def select (rank : MctsArena → Nat → Nat) (arena : MctsArena) :
    Nat → Nat → List MctsStep → W → Option (Nat × List MctsStep × W)
  | room, nodeIdx, path, wb =>
    if (arena.node nodeIdx).untried = [] ∧ (arena.node nodeIdx).children ≠ [] then
      let childIdx := bestUctChild rank arena nodeIdx
      let mover := g.sideToMove wb
      let wb := g.doMove wb (arena.node childIdx).action
      match room with
      | 0 => none
      | room + 1 => select rank arena room childIdx ({ node := childIdx, mover } :: path) wb
    else some (nodeIdx, path, wb)

/-- The loop that adds one child for each action. -/
def expandLoop (options : MctsOptions) (nodeIdx : Nat) :
    List Action → MctsArena → W → MctsArena × W
  | [], arena, wb => (arena, wb)
  | action :: rest, arena, wb =>
    let wb := g.doMove wb action
    let childMoves := mctsMoves g options wb
    let wb := g.undoMove wb
    let moveIndex := (arena.node nodeIdx).children.length
    let childIdx := arena.size
    let arena := arena.push (.child action childMoves moveIndex)
    let arena := arena.modify nodeIdx fun node =>
      { node with children := node.children ++ [childIdx] }
    expandLoop options nodeIdx rest arena wb

/-- Expansion: every untried action gets a child, and the path goes on to the first of them. -/
def expand (options : MctsOptions) (arena : MctsArena) (nodeIdx : Nat) (path : List MctsStep)
    (wb : W) : Option (MctsArena × List MctsStep × W) :=
  let actions := (arena.node nodeIdx).untried
  if actions = [] then some (arena, path, wb)
  else
    let firstChildIdx := arena.size
    let arena := arena.modify nodeIdx fun node => { node with untried := [] }
    let (arena, wb) := expandLoop g options nodeIdx actions arena wb
    let mover := g.sideToMove wb
    let wb := g.doMove wb (arena.node firstChildIdx).action
    if path.length < mctsPathCapacity then
      some (arena, { node := firstChildIdx, mover } :: path, wb)
    else none

/-- The loop that takes back the applied moves. -/
def undoMoves : Nat → W → W
  | 0, wb => wb
  | n + 1, wb => undoMoves n (g.undoMove wb)

/-- Back-propagation, from the leaf up. -/
def backpropagate : List MctsStep → Bool → MctsArena → MctsArena
  | [], _, arena => arena
  | step :: rest, win, arena =>
    backpropagate rest (!win) (arena.modify step.node (·.recordSimulation win))

/-- One iteration. -/
def iterate (fuel : Nat) (policy : SearchPolicy) (options : MctsOptions)
    (rank : MctsArena → Nat → Nat) (state : MctsState W) : Option (MctsState W) :=
  let path : List MctsStep := [{ node := 0, mover := 0 }]
  match select g rank state.arena (mctsPathCapacity - 1) 0 path state.wb with
  | none => none
  | some (nodeIdx, path, wb) =>
    match expand g options state.arena nodeIdx path wb with
    | none => none
    | some (arena, path, wb) =>
      let leafSide := g.sideToMove wb
      match simulate g fuel policy options options.playoutDepth.toNat state.rngState wb with
      | none => none
      | some (win, rngState, wb) =>
        some
          { arena := backpropagate path win arena
            rngState
            wb := undoMoves g (path.length - 1) wb
            playouts := { path, leafSide, win } :: state.playouts }

/-- The iterations `i`, `i + 1`, ..., `count` of them; the clock is not looked at before the
first. -/
def iterateFrom (fuel : Nat) (policy : SearchPolicy) (options : MctsOptions)
    (rank : MctsArena → Nat → Nat) (elapsedMs : Nat → Nat) :
    Nat → Nat → MctsState W → Option (MctsState W)
  | 0, _, state => some state
  | count + 1, i, state =>
    if 0 < i ∧ options.timeLimitMs.any (fun limit => limit ≤ elapsedMs i) then some state
    else
      match iterate g fuel policy options rank state with
      | none => none
      | some state => iterateFrom fuel policy options rank elapsedMs count (i + 1) state

/-- The tree `search_with_options` builds; a root without moves builds none. -/
def buildTree (fuel : Nat) (policy : SearchPolicy) (options : MctsOptions)
    (rank : MctsArena → Nat → Nat) (elapsedMs : Nat → Nat) (rngState : BitVec 64) (wb : W) :
    Option (MctsState W) :=
  iterateFrom g fuel policy options rank elapsedMs (max options.iterations 1) 0
    { arena := { size := 1, node := fun _ => .root (mctsMoves g options wb) }, rngState, wb }

/-- The last of the children with the most visits. -/
def mostVisited (arena : MctsArena) : List Nat → Option Nat
  | [] => none
  | first :: rest =>
    some (rest.foldl (fun best i =>
      if (arena.node best).visits ≤ (arena.node i).visits then i else best) first)

/-- `search_with_options`: playouts until a budget is used up. -/
def searchWithOptions (fuel : Nat) (policy : SearchPolicy) (options : MctsOptions)
    (rank : MctsArena → Nat → Nat) (elapsedMs : Nat → Nat) (rngState : BitVec 64) (wb : W) :
    Option (MctsResult × BitVec 64 × W) :=
  if mctsMoves g options wb = [] then
    some ({ bestAction := .none, visits := 0, wins := 0, score := g.mctsTerminalScore wb },
      rngState, wb)
  else
    (buildTree g fuel policy options rank elapsedMs rngState wb).map fun state =>
      match mostVisited state.arena (state.arena.node 0).children with
      | none =>
        ({ bestAction := .none, visits := 0, wins := 0,
           score := g.mctsTerminalScore state.wb }, state.rngState, state.wb)
      | some best =>
        ({ bestAction := (state.arena.node best).action
           visits := (state.arena.node best).visits
           wins := (state.arena.node best).wins
           score := g.mctsTerminalScore state.wb }, state.rngState, state.wb)

end MctsSearcher

end Sanmill
