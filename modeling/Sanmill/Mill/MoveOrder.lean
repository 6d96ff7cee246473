import Sanmill.Core.Game
import Sanmill.Mill.Workbench

/-!
# The order of the moves

The order in which the search tries the nodes is a static table, shuffled group by group when
the context asks for it; the generators of the search are the shared generator at that order.

Then each action has a static score: the lines it completes or blocks and, for a removal, what
stands around its target. `moveOrderBiasCtx` scores one action. `moveOrderScoresCtx` fills the
score buffer of a list and shares what the actions of one kind have in common; it may also
leave the buffer alone.
-/

namespace Sanmill

open Bits

/-! ## Priority and generators -/

/-- The order of the lowest skill. -/
def prioritySkill1 : List Node := List.finRange 24

/-- `static_move_priority_for_search`. -/
def staticMovePriorityForSearchCtx (options : MillVariantOptions) (ctx : MoveOrderContext) :
    List Node :=
  if ctx.skillLevel = 1 then prioritySkill1 else staticMovePriorityForSearch options

/-- One step of the generator the shuffle draws from. -/
def splitmix64 (value : BitVec 64) : BitVec 64 :=
  let z := value + 0x9E3779B97F4A7C15
  let z := (z ^^^ (z >>> 30)) * 0xBF58476D1CE4E5B9
  let z := (z ^^^ (z >>> 27)) * 0x94D049BB133111EB
  z ^^^ (z >>> 31)

/-- The swaps at the indices `i, i - 1, .., 1`; `usize` is 64 bits wide. -/
def shuffleDown (state : BitVec 64) : Nat → Array Node → Array Node
  | 0, slice => slice
  | i + 1, slice =>
    let state := splitmix64 state
    shuffleDown state i (slice.swapIfInBounds (i + 1) (state.toNat % (i + 2)))

/-- A shuffle by a seeded generator. -/
def shufflePrioritySlice (slice : List Node) (seed : BitVec 64) : List Node :=
  if slice.length < 2 then slice
  else
    let state := if seed = 0 then 0x9E3779B97F4A7C15 else seed
    (shuffleDown state (slice.length - 1) slice.toArray).toList

/-- `&priority[lo..hi]`. -/
def prioritySlice (priority : List Node) (lo hi : Nat) : List Node := (priority.take hi).drop lo

/-- The lowest skill shuffles the whole board; the others keep the four rating groups apart. -/
def movePriorityListForSearch (options : MillVariantOptions) (ctx : MoveOrderContext) :
    List Node :=
  let priority := staticMovePriorityForSearchCtx options ctx
  if !ctx.shuffling then priority
  else if ctx.skillLevel = 1 then shufflePrioritySlice priority ctx.shuffleSeed
  else
    let seed0 := ctx.shuffleSeed
    let seed1 := splitmix64 seed0
    let seed2 := splitmix64 seed1
    let seed3 := splitmix64 seed2
    shufflePrioritySlice (prioritySlice priority 0 4) seed0
      ++ shufflePrioritySlice (prioritySlice priority 4 12) seed1
      ++ shufflePrioritySlice (prioritySlice priority 12 16) seed2
      ++ shufflePrioritySlice (prioritySlice priority 16 24) seed3

/-- The order a search context asks for. -/
def priorityForCtx (options : MillVariantOptions) (ctx : MoveOrderContext) : List Node :=
  if ctx.shuffling then movePriorityListForSearch options ctx
  else staticMovePriorityForSearchCtx options ctx

/-- The actions `legal_actions_ctx` pushes, in their order. -/
def legalPushesCtx (state : MillState) (options : MillVariantOptions) (ctx : MoveOrderContext) :
    List Action :=
  legalActionsWithPriority state options (priorityForCtx options ctx)

/-- `legal_actions_ctx`, into an empty list of the given capacity. -/
def legalActionsCtx (capacity : Nat) (state : MillState) (options : MillVariantOptions)
    (ctx : MoveOrderContext) : Option (List Action) :=
  ActionList.pushAll capacity [] (legalPushesCtx state options ctx)

namespace MillGame

/-- What the generator pushes on a workbench. -/
def legalPushes (wb : MillWorkbench) (ctx : MoveOrderContext) : List Action :=
  legalPushesCtx wb.state wb.rules.options ctx

/-- `none` where the 73rd push panics. -/
def generateLegalCtx (wb : MillWorkbench) (ctx : MoveOrderContext) : Option (List Action) :=
  legalActionsCtx searchActionCapacity wb.state wb.rules.options ctx

/-- Removals have a path of their own; of other kinds all legal actions are pushed first. -/
def hasRemovalPath (wb : MillWorkbench) (kindTag : Int) : Bool :=
  kindTag = MillActionKind.remove.toI16 ∧ wb.state.actionForLegalGeneration = .remove
    ∧ 0 ≤ wb.state.sideToMove

/-- What the removal path of `generate_quiescence_ctx` pushes. -/
def removalPushes (wb : MillWorkbench) (ctx : MoveOrderContext) : List Action :=
  if ¬wb.state.sideToMove < 2 ∨ wb.state.pendingRemovals (sideIndex wb.state.sideToMove) = 0 then
    []
  else
    generateRemoveActions wb.state wb.rules.options (priorityForCtx wb.rules.options ctx)

/-- What the quiescence generator leaves in a list that holds every push. -/
def quiescencePushes (wb : MillWorkbench) (ctx : MoveOrderContext) (kindTag : Int) :
    List Action :=
  if hasRemovalPath wb kindTag then removalPushes wb ctx
  else (legalPushes wb ctx).filter fun action => action.kindTag = kindTag

/-- The legal actions are filtered after all of them have been pushed. -/
def generateQuiescenceCtx (wb : MillWorkbench) (ctx : MoveOrderContext) (kindTag : Int) :
    Option (List Action) :=
  if hasRemovalPath wb kindTag then
    ActionList.pushAll searchActionCapacity [] (removalPushes wb ctx)
  else
    (generateLegalCtx wb ctx).map fun out => out.filter fun action => action.kindTag = kindTag

end MillGame

/-! ## Scores -/

def ratingBlockOneMill : Int := 10
def ratingOneMill : Int := 11
def ratingStarSquare : Int := 11

def starSquaresNoDiagonal : Bitboard := 0x005500
def starSquaresDiagonal : Bitboard := 0x00aa00

/-- The node is one of the well connected ones. -/
def isStarSquare (options : MillVariantOptions) (node : Node) : Bool :=
  testBit (if options.hasDiagonalLines then starSquaresDiagonal else starSquaresNoDiagonal) node

/-- `score as MoveOrderScore`, an `i16`. -/
def packMoveOrderScore (score : Int) : Int := Int.bmod score (2 ^ 16)

/-- The mills that a move would close for one side, and keep the other from closing. -/
def potentialMillsCountStandardUnrestrictedPair (ourBb theirBb : Bitboard) (target : Node)
    (ourSource : Option Node) : Nat × Nat :=
  let ourBb := match ourSource with
    | some ourSource => ourBb &&& ~~~nodeBit ourSource
    | none => ourBb
  let peerMasks := buildMillLinePeerMasksByNode standardMillLines target
  let ourCount := (if ourBb &&& peerMasks.getD 0 0 = peerMasks.getD 0 0 then 1 else 0)
    + (if ourBb &&& peerMasks.getD 1 0 = peerMasks.getD 1 0 then 1 else 0)
  let theirCount := (if theirBb &&& peerMasks.getD 0 0 = peerMasks.getD 0 0 then 1 else 0)
    + (if theirBb &&& peerMasks.getD 1 0 = peerMasks.getD 1 0 then 1 else 0)
  (ourCount, theirCount)

/-- `0..2` holds the side to move. -/
def isValidSide (side : Int) : Bool := 0 ≤ side ∧ side < 2

/-- What stands around `node`: own pieces, pieces of the opponent, empty nodes. -/
def surroundedPiecesCount (state : MillState) (options : MillVariantOptions) (node : Node) :
    Int × Int × Int :=
  if !isValidSide state.sideToMove then (0, 0, 0)
  else
    let side := sideIndex state.sideToMove
    let neighborMask := neighborMaskFor node options.hasDiagonalLines
    (countOnes (neighborMask &&& state.byColorBb side),
      countOnes (neighborMask &&& state.byColorBb side.opponent),
      countOnes (neighborMask &&& ~~~state.boardOccupiedBitboard))

/-- How good a removal looks. -/
def removeMoveScore (state : MillState) (options : MillVariantOptions) (target : Node) : Int :=
  let side := state.sideToMove
  if !isValidSide side then 0
  else
    let opponent := xorOne side
    let (ourMills, theirMills) :=
      if state.delayedMarkedPieces = 0 ∧ !options.hasDiagonalLines ∧ !options.oneTimeUseMill then
        potentialMillsCountStandardUnrestrictedPair (state.byColorBb (sideIndex side))
          (state.byColorBb (sideIndex opponent)) target none
      else
        (potentialMillsCountAt state options target side none,
          potentialMillsCountAt state options target opponent none)
    let (ourCount, theirCount, emptyCount) := surroundedPiecesCount state options target
    let score : Int :=
      if ourMills > 0 ∧ theirCount = 0 then
        if ourCount > 0 then 1 + ourCount else 1
      else 0
    let score :=
      if theirMills > 0 ∧ theirCount ≥ 2 then
        if ourCount = 0 then score - theirCount - 1 else score - theirCount
      else score
    score + emptyCount

/-! ## One action -/

/-- What the scores of a move list share. -/
structure MillMoveOrderScorer where
  state : MillState
  options : MillVariantOptions
  side : Int
  validSide : Bool
  opponent : Int
  sideBb : Bitboard
  opponentBb : Bitboard
  sidePieceCount : Nat
  opponentPieceCount : Nat
  blackPieceCount : Nat
  standardPlaceNoMove : Bool
  standardNoDiagonalNoOneTime : Bool
  algorithmIsMcts : Bool

namespace MillMoveOrderScorer

/-- Marked pieces stay on the board and are no live pieces, so marks switch the counts. -/
def new (wb : MillWorkbench) (ctx : MoveOrderContext) : MillMoveOrderScorer :=
  let state := wb.state
  let options := wb.rules.options
  let sideIdx := sideIndex state.sideToMove
  let pieceCounts : Side → Nat :=
    if state.delayedMarkedPieces = 0 then state.piecesOnBoard
    else fun color => countOnes (state.byColorBb color)
  { state := state
    options := options
    side := state.sideToMove
    validSide := isValidSide state.sideToMove
    opponent := xorOne state.sideToMove
    sideBb := state.byColorBb sideIdx
    opponentBb := state.byColorBb sideIdx.opponent
    sidePieceCount := pieceCounts sideIdx
    opponentPieceCount := pieceCounts sideIdx.opponent
    blackPieceCount := pieceCounts 1
    standardPlaceNoMove :=
      state.phase = .placing ∧ !options.hasDiagonalLines ∧ !options.mayMoveInPlacingPhase
        ∧ !options.oneTimeUseMill ∧ ctx.algorithm ≠ .mcts
    standardNoDiagonalNoOneTime := !options.hasDiagonalLines && !options.oneTimeUseMill
    algorithmIsMcts := ctx.algorithm = .mcts }

/-- The block bonus depends on the colour of the node in the old square numbering. -/
def parityMatch (target : Node) (theirs : Int) : Bool :=
  if target.val % 2 = 0 then theirs = 3 else theirs = 2

/--
The end of `score`, the same text on the standard and on the general board: there they differ
in how the lines are counted, and in whether diagonal lines alone earn the star bonus.
-/
def lineScore (scorer : MillMoveOrderScorer) (target : Node) (ourMills theirMills : Nat)
    (canBlockMill starBonus : Bool) : Int :=
  let phase := scorer.state.phase
  let mayMove := scorer.options.mayMoveInPlacingPhase
  let score : Int :=
    if ourMills > 0 then ratingOneMill * ourMills
    else if phase = .placing ∧ !mayMove then
      if canBlockMill then ratingBlockOneMill * theirMills else 0
    else if canBlockMill ∧ (phase = .moving ∨ (phase = .placing ∧ mayMove)) then
      let (_, theirs, _) := surroundedPiecesCount scorer.state scorer.options target
      if theirMills > 0 ∧ parityMatch target theirs then ratingBlockOneMill * theirMills else 0
    else 0
  if phase = .placing ∧ scorer.side = 1 ∧ starBonus ∧ scorer.blackPieceCount < 2
      ∧ isStarSquare scorer.options target then
    score + ratingStarSquare
  else score

/-- How good an action looks. -/
def score (scorer : MillMoveOrderScorer) (action : Action) : Int :=
  match boardNode? action.toNode with
  | none => 0
  | some target =>
    if action.kindTag = MillActionKind.remove.toI16 then
      removeMoveScore scorer.state scorer.options target
    else if action.kindTag ≠ MillActionKind.place.toI16
        ∧ action.kindTag ≠ MillActionKind.move.toI16 then 0
    else if !scorer.validSide then 0
    else
      let isPlace : Bool := action.kindTag = MillActionKind.place.toI16
      let canFormMill : Bool :=
        if isPlace then scorer.sidePieceCount ≥ 2 else scorer.sidePieceCount ≥ 3
      let canBlockMill : Bool := scorer.opponentPieceCount ≥ 2
      if isPlace ∧ scorer.standardPlaceNoMove then
        if !canFormMill ∧ !canBlockMill then 0
        else
          let (ourMills, theirMills) :=
            if canFormMill ∧ canBlockMill then
              potentialMillsCountStandardUnrestrictedPair scorer.sideBb scorer.opponentBb target
                none
            else if canFormMill then
              (potentialMillsCountStandardUnrestricted scorer.sideBb target none, 0)
            else (0, potentialMillsCountStandardUnrestricted scorer.opponentBb target none)
          if ourMills > 0 then ratingOneMill * ourMills else ratingBlockOneMill * theirMills
      else
        -- a shift reads its amount modulo the width
        let source := if isPlace then none else boardNode? (action.fromNode % 32)
        if scorer.standardNoDiagonalNoOneTime then
          scorer.lineScore target
            (if canFormMill then
              potentialMillsCountStandardUnrestricted scorer.sideBb target source else 0)
            (potentialMillsCountStandardUnrestricted scorer.opponentBb target none)
            canBlockMill scorer.algorithmIsMcts
        else
          scorer.lineScore target
            (if canFormMill then
              potentialMillsCountAt scorer.state scorer.options target scorer.side source else 0)
            (potentialMillsCountAt scorer.state scorer.options target scorer.opponent none)
            canBlockMill (scorer.options.hasDiagonalLines || scorer.algorithmIsMcts)

end MillMoveOrderScorer

/-! ## A list of actions -/

/-- The variables of a scoring loop: the slots written so far, the score before, the flag. -/
structure ScoreLoop where
  written : List Int := []
  previousScore : Int := 0
  hasPrevious : Bool := false
  needsSort : Bool := false
deriving DecidableEq, Repr

/-- `scores[i].write(..)` and the bookkeeping after it. -/
def ScoreLoop.push (loop : ScoreLoop) (score : Int) : ScoreLoop where
  written := loop.written ++ [packMoveOrderScore score]
  previousScore := score
  hasPrevious := true
  needsSort := loop.needsSort || (loop.hasPrevious && loop.previousScore < score)

/-- The written slots and the return value. -/
def ScoreLoop.finish (loop : ScoreLoop) : List Int × Bool := (loop.written, loop.needsSort)

/-- `STANDARD_BLOCK_SCORE_UNKNOWN`, `i32::MIN`. -/
def standardBlockScoreUnknown : Int := -2147483648

/-- The score of a block at `target`, from the cache if it is known. -/
def standardMovingBlockScore (cache : Node → Int) (opponentBb : Bitboard) (target : Node) :
    Int × (Node → Int) :=
  let cached := cache target
  if cached ≠ standardBlockScoreUnknown then (cached, cache)
  else
    let theirMills := potentialMillsCountStandardUnrestricted opponentBb target none
    let score : Int :=
      if theirMills = 0 then 0
      else
        let theirNeighbors : Int := countOnes (standardNeighborMaskFor target &&& opponentBb)
        if MillMoveOrderScorer.parityMatch target theirNeighbors then
          ratingBlockOneMill * theirMills
        else 0
    (score, setAt cache target score)

namespace MillMoveOrderScorer

/-- One turn of the loop over standard moves; the block scores are cached by destination. -/
def scoreStandardMove (scorer : MillMoveOrderScorer) (canFormMill canBlockMill : Bool)
    (blockScores : Node → Int) (action : Action) : Int × (Node → Int) :=
  match boardNode? action.toNode, boardNode? action.fromNode with
  | some target, some source =>
    let ourMills :=
      if canFormMill then
        potentialMillsCountStandardUnrestricted scorer.sideBb target (some source)
      else 0
    if ourMills > 0 then (ratingOneMill * ourMills, blockScores)
    else if canBlockMill then standardMovingBlockScore blockScores scorer.opponentBb target
    else (0, blockScores)
  | _, _ => (scorer.score action, blockScores)

/-- The scores of moves on the standard board, and whether they need sorting. -/
def scoreStandardMovingActions (scorer : MillMoveOrderScorer) (actions : List Action) :
    List Int × Bool :=
  let canFormMill : Bool := scorer.sidePieceCount ≥ 3
  let canBlockMill : Bool := scorer.opponentPieceCount ≥ 2
  if !canFormMill ∧ !canBlockMill then ([], false)
  else
    (actions.foldl (fun (loop : ScoreLoop × (Node → Int)) action =>
      let scored := scorer.scoreStandardMove canFormMill canBlockMill loop.2 action
      (loop.1.push scored.1, scored.2)) ({}, fun _ => standardBlockScoreUnknown)).1.finish

/-- `node_scores`, the score of a placement at each node. -/
def nodeScores (scorer : MillMoveOrderScorer) (canFormMill canBlockMill : Bool) (target : Node) :
    Int :=
  let (ourMills, theirMills) :=
    if canFormMill ∧ canBlockMill then
      potentialMillsCountStandardUnrestrictedPair scorer.sideBb scorer.opponentBb target none
    else if canFormMill then
      (potentialMillsCountStandardUnrestricted scorer.sideBb target none, 0)
    else (0, potentialMillsCountStandardUnrestricted scorer.opponentBb target none)
  if ourMills > 0 then ratingOneMill * ourMills else ratingBlockOneMill * theirMills

/-- The scores of placements on the standard board, and whether they need sorting. -/
def scoreStandardPlaceNoMoveActions (scorer : MillMoveOrderScorer) (actions : List Action) :
    List Int × Bool :=
  let canFormMill : Bool := scorer.sidePieceCount ≥ 2
  let canBlockMill : Bool := scorer.opponentPieceCount ≥ 2
  if !canFormMill ∧ !canBlockMill then ([], false)
  else
    let nodeScores := scorer.nodeScores canFormMill canBlockMill
    let scoreOf (action : Action) : Int :=
      match boardNode? action.toNode with
      | some target =>
        if action.kindTag = MillActionKind.place.toI16 then nodeScores target
        else scorer.score action
      | none => scorer.score action
    (actions.foldl (fun loop action => loop.push (scoreOf action)) ({} : ScoreLoop)).finish

/-- The scores of a list, by the way that suits its first action. -/
def scoreActions (scorer : MillMoveOrderScorer) (actions : List Action) : List Int × Bool :=
  let startsWithMove : Bool := match actions with
    | action :: _ => action.kindTag = MillActionKind.move.toI16
    | [] => false
  if scorer.standardPlaceNoMove then scorer.scoreStandardPlaceNoMoveActions actions
  else if scorer.standardNoDiagonalNoOneTime ∧ scorer.validSide ∧ scorer.state.phase = .moving
      ∧ startsWithMove then
    scorer.scoreStandardMovingActions actions
  else
    (actions.foldl (fun loop action => loop.push (scorer.score action)) ({} : ScoreLoop)).finish

end MillMoveOrderScorer

/-! ## A list of removals -/

/-- What the scores of a list of removals share. -/
structure MillRemoveOrderScorer where
  state : MillState
  options : MillVariantOptions
  validSide : Bool
  side : Int
  opponent : Int
  sideBb : Bitboard
  opponentBb : Bitboard
  occupied : Bitboard
  standardUnrestricted : Bool

namespace MillRemoveOrderScorer

/-- The scorer of a state. -/
def new (state : MillState) (options : MillVariantOptions) : MillRemoveOrderScorer :=
  let sideIdx := sideIndex state.sideToMove
  { state := state
    options := options
    validSide := isValidSide state.sideToMove
    side := state.sideToMove
    opponent := xorOne state.sideToMove
    sideBb := state.byColorBb sideIdx
    opponentBb := state.byColorBb sideIdx.opponent
    occupied := state.boardOccupiedBitboard
    standardUnrestricted :=
      state.delayedMarkedPieces = 0 ∧ !options.hasDiagonalLines ∧ !options.oneTimeUseMill }

/-- How good the removal of a piece looks. -/
def score (scorer : MillRemoveOrderScorer) (target : Node) : Int :=
  if !scorer.validSide then 0
  else
    let (ourMills, theirMills) :=
      if scorer.standardUnrestricted then
        potentialMillsCountStandardUnrestrictedPair scorer.sideBb scorer.opponentBb target none
      else
        (potentialMillsCountAt scorer.state scorer.options target scorer.side none,
          potentialMillsCountAt scorer.state scorer.options target scorer.opponent none)
    let neighborMask :=
      if scorer.options.hasDiagonalLines then diagonalNeighborMaskFor target
      else standardNeighborMaskFor target
    let ourCount : Int := countOnes (neighborMask &&& scorer.sideBb)
    let theirCount : Int := countOnes (neighborMask &&& scorer.opponentBb)
    let emptyCount : Int := countOnes (neighborMask &&& ~~~scorer.occupied)
    let score : Int :=
      if ourMills > 0 ∧ theirCount = 0 then
        if ourCount > 0 then 1 + ourCount else 1
      else 0
    let score :=
      if theirMills > 0 ∧ theirCount ≥ 2 then
        if ourCount = 0 then score - theirCount - 1 else score - theirCount
      else score
    score + emptyCount

end MillRemoveOrderScorer

/-- The scores of removals, and whether they need sorting. -/
def scoreRemoveActions (state : MillState) (options : MillVariantOptions)
    (actions : List Action) : List Int × Bool :=
  let scorer := MillRemoveOrderScorer.new state options
  let scoreOf (action : Action) : Int :=
    match boardNode? action.toNode with
    | some target => scorer.score target
    | none => 0
  (actions.foldl (fun loop action => loop.push (scoreOf action)) ({} : ScoreLoop)).finish

namespace MillGame

/-- The score of an action in the context of a search. -/
def moveOrderBiasCtx (wb : MillWorkbench) (action : Action) (ctx : MoveOrderContext) : Int :=
  (MillMoveOrderScorer.new wb ctx).score action

/-- What is written to the score buffer from its first slot on, and the return value. -/
def moveOrderScoresCtx (wb : MillWorkbench) (actions : List Action) (ctx : MoveOrderContext) :
    List Int × Bool :=
  let startsWithRemove : Bool := match actions with
    | action :: _ => action.kindTag = MillActionKind.remove.toI16
    | [] => false
  if startsWithRemove then scoreRemoveActions wb.state wb.rules.options actions
  else (MillMoveOrderScorer.new wb ctx).scoreActions actions

end MillGame

end Sanmill
