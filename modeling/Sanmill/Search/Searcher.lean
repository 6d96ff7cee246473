import Sanmill.Lib.I32
import Sanmill.Search.Tt

/-!
# The searcher

`Searcher` is the mutable record a search threads through the tree, next to the
workbench. A method that can trip an assertion, or that recurses, returns an
`Option`: `none` is a panic, or `fuel` nested calls were not enough.

What a search reads of the outside world, the clock and the shared stop flag, is
an arbitrary function of the number of times it has looked. The last three fields
are not in the source and no search reads them: they record the table stores, the
choices of the roots and the moment an abort is noticed, with the calls that are
open then, so that a theorem can speak of them.
-/

namespace Sanmill

/-- What a search does beyond its depth. -/
structure SearchPolicy where
  /-- Kind of action the quiescence search extends, if any. -/
  quiescenceKindTag : Option Int := none

/-- The budgets and switches of a search. -/
structure SearchOptions where
  depthExtension : Bool := true
  nodeLimit : Option Nat := none
  timeLimitMs : Option Nat := none
  allowNullMove : Bool := false
  shuffleRoot : Bool := false
  enableAspirationWindow : Bool := false
  moveOrderContext : MoveOrderContext := {}

/-- What is kept of a root move. -/
structure RootMoveSummary where
  action : Action
  value : Int
  nodes : Nat
  cutoff : Bool
deriving DecidableEq, Repr

/-- An open call, by what it will do with the value that comes back to it. -/
inductive OpenNode where
  /-- The side to move has changed: the value is negated. -/
  | negation
  /-- A move of the quiescence search. -/
  | quiescence (alpha beta : Int)
  /-- A move of a node of alpha-beta; `last`: no sibling is left. -/
  | move (alpha beta bestValue : Int) (last : Bool)
  /-- A null-window search of a root move, which is searched again if the value falls into the
  window; `static` is the static score after the move. -/
  | nullWindow (alpha beta : Int) (negated : Bool) (static : Int)
  /-- A root move, with the best one so far. -/
  | rootMove (action : Action) (bestScore : Int) (bestAction : Action)
  /-- A probe of the root by MTD(f). -/
  | probe
deriving DecidableEq, Repr

/-- The state at the check that notices an abort: the open calls, innermost first, and what the
innermost one goes back with. -/
structure Moment where
  openNodes : List OpenNode
  value : Int
  action : Action
deriving DecidableEq, Repr

/-- A journal entry. `cutShort` says whether a check of this root search has noticed an abort. -/
inductive SearchEvent where
  /-- A check is the first to notice the abort. -/
  | struck (moment : Moment)
  /-- A table store. -/
  | stored (key : BitVec 64) (depth value : Int) (bound : Bound) (cutShort : Bool)
  /-- A root move became the best one. -/
  | chosen (action : Action) (score : Int) (cutShort : Bool)
deriving DecidableEq, Repr

/-- A searcher with its table, its budgets and the path it stands on. -/
structure Searcher where
  nodes : Nat := 0
  ttHits : Nat := 0
  ttMisses : Nat := 0
  repetitionCuts : Nat := 0
  rootMoves : List RootMoveSummary := []
  rootMoveSummariesEnabled : Bool := false
  rngState : BitVec 64 := 0x9E3779B97F4A7C15
  tt : ClusteredTt := .default
  ttAge : BitVec 8 := 0
  policy : SearchPolicy := {}
  options : SearchOptions := {}
  qsearchMaxDepth : Int := 0
  fixedDepthNoBudget : Bool := false
  aborted : Bool := false
  /-- Innermost ancestor first: its key, and whether it was reached by a resetting action. -/
  repetitionStack : List (BitVec 64 × Bool) := []
  repetitionCurrentIncomingReset : Bool := false
  /-- Milliseconds since `search_started_at`, at the n-th look. -/
  elapsedMs : Nat → Nat := fun _ => 0
  /-- The shared stop flag, at the n-th look. -/
  abortFlag : Nat → Bool := fun _ => false
  /-- Looks so far. -/
  looks : Nat := 0
  /-- Newest first. -/
  journal : List SearchEvent := []
  /-- Whether a check of this root search has noticed an abort. -/
  struck : Bool := false
  /-- Innermost first. -/
  openNodes : List OpenNode := []

/-- `REPETITION_STACK_CAPACITY`. -/
def repetitionStackCapacity : Nat := 128

namespace Searcher

variable {W : Type} (g : Game W)

/-! ## Bookkeeping -/

/-- Notes an event of the run. -/
def note (s : Searcher) (event : SearchEvent) : Searcher :=
  { s with journal := event :: s.journal }

/-- A node of the tree is entered. -/
def opened (s : Searcher) (node : OpenNode) : Searcher :=
  { s with openNodes := node :: s.openNodes }

/-- The last node entered is left. -/
def closed (s : Searcher) : Searcher := { s with openNodes := s.openNodes.tail }

/-- `should_abort`; once true it stays true. -/
def shouldAbort (s : Searcher) : Bool × Searcher :=
  if s.aborted then (true, s)
  else if s.fixedDepthNoBudget then
    if s.nodes % 1024 ≠ 0 then (false, s)
    else
      let stop := s.abortFlag s.looks
      (stop, { s with aborted := stop, looks := s.looks + 1 })
  else
    let overNodes : Bool := s.options.nodeLimit.any fun limit => limit ≤ s.nodes
    let overTime : Bool := s.options.timeLimitMs.any fun limit => limit ≤ s.elapsedMs s.looks
    let stop := overNodes || overTime || s.abortFlag s.looks
    (stop, { s with aborted := stop, looks := s.looks + 1 })

/-- Records the first time a check of a root search says yes. -/
def strike (s : Searcher) (value : Int) (action : Action) : Searcher :=
  if s.struck then s
  else { s.note (.struck { openNodes := s.openNodes, value, action }) with struck := true }

/-- `should_abort`, asked by a call that goes back with `value` and `action` if the answer is
yes. -/
def checkAbort (s : Searcher) (value : Int) (action : Action) : Bool × Searcher :=
  let (stop, s) := s.shouldAbort
  (stop, if stop then s.strike value action else s)

/-- `begin_root_search_at`. -/
def beginRootSearchAt (s : Searcher) (wb : W) : Searcher :=
  { s with
    nodes := 0
    ttHits := 0
    ttMisses := 0
    repetitionCuts := 0
    rootMoves := []
    aborted := s.abortFlag s.looks
    looks := s.looks + 1
    ttAge := s.tt.age
    repetitionStack := []
    fixedDepthNoBudget := s.options.nodeLimit.isNone && s.options.timeLimitMs.isNone
    repetitionCurrentIncomingReset := g.currentPositionResetsRepetition wb
    struck := false
    openNodes := [] }

/-- `record_root_move`, where the summaries are asked for. -/
def recordRootMove (s : Searcher) (action : Action) (value : Int) (nodes : Nat) (cutoff : Bool) :
    Searcher :=
  if s.rootMoveSummariesEnabled then
    { s with rootMoves := s.rootMoves ++ [{ action, value, nodes, cutoff }] }
  else s

/-- `none` where the source asserts: the stack is full. -/
def pushRepetitionAncestor (s : Searcher) (key : BitVec 64) (actionToChild : Action) :
    Option (Bool × Searcher) :=
  let previous := s.repetitionCurrentIncomingReset
  if key ≠ 0 ∧ ¬s.repetitionStack.length < repetitionStackCapacity then none
  else
    some (previous,
      { s with
        repetitionStack :=
          if key ≠ 0 then (key, previous) :: s.repetitionStack else s.repetitionStack
        repetitionCurrentIncomingReset := g.actionResetsRepetition actionToChild })

/-- The path without its last node. -/
def popRepetitionAncestor (s : Searcher) (key : BitVec 64) (previousIncomingReset : Bool) :
    Searcher :=
  { s with
    repetitionStack := if key ≠ 0 then s.repetitionStack.tail else s.repetitionStack
    repetitionCurrentIncomingReset := previousIncomingReset }

/-- Innermost first, up to the nearest ancestor reached by a resetting action. -/
def pathRepeats (key : BitVec 64) : List (BitVec 64 × Bool) → Bool
  | [] => false
  | (ancestorKey, resetAfterAction) :: rest =>
    if resetAfterAction then false
    else if ancestorKey = key then true
    else pathRepeats key rest

/-- The key stands on the path since the last reset. -/
def pathRepeatsSinceReset (s : Searcher) (key : BitVec 64) : Bool :=
  pathRepeats key s.repetitionStack

/-! ## Random numbers and move order -/

/-- `next_random_index`: one step of xorshift64*. -/
def nextRandomIndex (s : Searcher) (len : Nat) : Nat × Searcher :=
  let x := s.rngState
  let x := x ^^^ (x >>> 12)
  let x := x ^^^ (x <<< 25)
  let x := x ^^^ (x >>> 27)
  ((x * 0x2545F4914F6CDD1D#64).toNat % len, { s with rngState := x })

/-- The loop of `shuffle_moves`, from index `i` down to 1. -/
def shuffleFrom : Nat → Array Action → Searcher → Array Action × Searcher
  | 0, moves, s => (moves, s)
  | i + 1, moves, s =>
    let (j, s) := s.nextRandomIndex (i + 2)
    shuffleFrom i (moves.swapIfInBounds (i + 1) j) s

/-- `shuffle_moves`: Fisher and Yates with the random state of the searcher. -/
def shuffleMoves (s : Searcher) (moves : List Action) : List Action × Searcher :=
  let (shuffled, s) := shuffleFrom (moves.length - 1) moves.toArray s
  (shuffled.toList, s)

/-- `legal_hash_move_index`. -/
def legalHashMoveIndex (s : Searcher) (key : BitVec 64) (moves : List Action)
    (ttMove : Option Action) (probeTtMove : Bool) : Option Nat :=
  let indexOf (action : Option Action) : Option Nat :=
    action.bind fun action => moves.findIdx? (· = action)
  match indexOf s.options.moveOrderContext.hashMove with
  | some index => some index
  | none =>
    match indexOf ttMove with
    | some index => some index
    | none =>
      if probeTtMove then
        indexOf ((s.tt.probeTtMoveAtAge key s.ttAge).bind g.unpackTtAction)
      else none

/-- One pass of the insertion sort: `sorted` is the sorted prefix, last element first. -/
def insertMove (scored : Action × Int) : List (Action × Int) → List (Action × Int)
  | [] => [scored]
  | prev :: rest =>
    if prev.2 < scored.2 then prev :: insertMove scored rest else scored :: prev :: rest

/-- The stable descending insertion sort. -/
def sortMoves (moves : List Action) (scores : Nat → Int) : List Action :=
  let scored := moves.zipIdx.map fun (action, i) => (action, scores i)
  ((scored.foldl (fun sorted move => insertMove move sorted) []).reverse).map Prod.fst

/-- `MoveOrderScore::MAX`. -/
def moveOrderScoreMax : Int := 32767

/-- `order_moves_impl`. -/
def orderMovesImpl (s : Searcher) (wb : W) (key : BitVec 64) (moves : List Action)
    (ttMove : Option Action) (probeTtMove : Bool) : List Action :=
  if moves.length < 2 then moves
  else
    let (scores, needsSort) := g.moveOrderScoresCtx wb moves s.options.moveOrderContext
    match s.legalHashMoveIndex g key moves ttMove probeTtMove with
    | some index =>
      if needsSort then sortMoves moves (Function.update scores index moveOrderScoreMax)
      else (moves.toArray.swapIfInBounds 0 index).toList
    | none => if needsSort then sortMoves moves scores else moves

/-- `order_moves`: the move of the table comes from its own probe. -/
def orderMoves (s : Searcher) (wb : W) (key : BitVec 64) (moves : List Action) : List Action :=
  s.orderMovesImpl g wb key moves none true

/-- `order_moves` where the caller has probed the table already. -/
def orderMovesWithTtMove (s : Searcher) (wb : W) (key : BitVec 64) (moves : List Action)
    (ttMove : Option Action) : List Action :=
  s.orderMovesImpl g wb key moves ttMove false

/-! ## The table -/

/-- What the table says of a node. -/
inductive TtProbe where
  | miss
  | hitNoCutoff
  | cutoff (value : Int)
deriving DecidableEq, Repr

/-- What a probe leaves of the window. -/
structure TtProbeResult where
  probe : TtProbe
  ttMove : Option Action
  alpha : Int
  beta : Int

/-- `probe_tt`: the answer, and the window it leaves. -/
def probeTt (s : Searcher) (key : BitVec 64) (depth alpha beta : Int) : TtProbeResult :=
  let entry := s.tt.probeEntryAtAge key depth s.ttAge
  let ttMove := entry.ttMove.bind g.unpackTtAction
  match entry.valueBound with
  | none => { probe := .miss, ttMove, alpha, beta }
  | some (value, .exact) => { probe := .cutoff value, ttMove, alpha, beta }
  | some (value, .lower) =>
    let alpha := max alpha value
    { probe := if beta ≤ alpha then .cutoff value else .hitNoCutoff, ttMove, alpha, beta }
  | some (value, .upper) =>
    let beta := min beta value
    { probe := if beta ≤ alpha then .cutoff value else .hitNoCutoff, ttMove, alpha, beta }

/-- One more hit. -/
def countTtHit (s : Searcher) : Searcher := { s with ttHits := s.ttHits + 1 }

/-- One more miss, if the node has a key. -/
def countTtMiss (s : Searcher) (key : BitVec 64) : Searcher :=
  { s with ttMisses := if key ≠ 0 then s.ttMisses + 1 else s.ttMisses }

/-- Stores what a node found. -/
def saveTt (s : Searcher) (key : BitVec 64) (depth value : Int) (bound : Bound)
    (bestAction : Action) : Searcher :=
  let ttMove :=
    if s.tt.ttMoveEnabled then (g.packTtAction bestAction).getD ttMoveNone else ttMoveNone
  { s with
    tt := s.tt.saveAtAge key { value, depth, bound, ttMove } s.ttAge
    journal := .stored key depth value bound s.struck :: s.journal }

/-- The bound a finished move loop has established. -/
def boundOf (bestValue oldAlpha beta : Int) : Bound :=
  if bestValue ≤ oldAlpha then .upper else if beta ≤ bestValue then .lower else .exact

end Searcher

end Sanmill
