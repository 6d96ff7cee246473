import Sanmill.Mill.MoveOrder

/-!
# Mill for the searcher

The evaluator of the rules engine, the hooks of the generic search (terminal score, soft
draws, the packed table move), and `MillGame.game`, which gathers them into the record the
search is generic in.

Scores are exact integers: with weights of any size the engine can use they stay far inside
`i32`.
-/

namespace Sanmill

open Bits

/-! ## Weights and features -/

/-- The weights of one phase. -/
structure MillPhaseEvalWeights where
  pieceValue : Int
  mobility : Int
  millCount : Int
  positionValue : Int
  cardinalMill : Int
  nearFlyBonus : Int
deriving DecidableEq, Repr

/-- `MillPhaseEvalWeights::LEGACY`. -/
def MillPhaseEvalWeights.legacy : MillPhaseEvalWeights where
  pieceValue := 5
  mobility := 1
  millCount := 1
  positionValue := 0
  cardinalMill := 0
  nearFlyBonus := 0

/-- The weights of the evaluation. -/
structure MillEvalWeights where
  placing : MillPhaseEvalWeights
  movingOpen : MillPhaseEvalWeights
  preFly : MillPhaseEvalWeights
  flying : MillPhaseEvalWeights
deriving DecidableEq, Repr

/-- `MillEvalWeights::TUNED`, the default. -/
def MillEvalWeights.tuned : MillEvalWeights where
  placing := .legacy
  movingOpen := { MillPhaseEvalWeights.legacy with mobility := 2 }
  preFly := .legacy
  flying := { MillPhaseEvalWeights.legacy with mobility := 0 }

/-- Differences between White and Black. -/
structure MillEvalFeatureSet where
  materialDiff : Int
  mobilityDiff : Int
  millCountDiff : Int
  positionValueDiff : Int
  cardinalMillDiff : Int
  nearFlyDiff : Int
deriving DecidableEq, Repr

/-- The nodes with four neighbours. -/
def degree4NodeMask : Bitboard := nodeBit 8 ||| nodeBit 10 ||| nodeBit 12 ||| nodeBit 14

/-- The nodes with three neighbours. -/
def degree3NodeMask : Bitboard :=
  nodeBit 0 ||| nodeBit 2 ||| nodeBit 4 ||| nodeBit 6 ||| nodeBit 16 ||| nodeBit 18 ||| nodeBit 20
    ||| nodeBit 22

/-- The four lines across the rings. -/
def cardinalLineMasks : List Bitboard :=
  [nodeBit 0 ||| nodeBit 8 ||| nodeBit 16, nodeBit 2 ||| nodeBit 10 ||| nodeBit 18,
    nodeBit 4 ||| nodeBit 12 ||| nodeBit 20, nodeBit 6 ||| nodeBit 14 ||| nodeBit 22]

/-- The value of the squares a side holds. -/
def positionValue (colorBb : Bitboard) : Int :=
  2 * countOnes (colorBb &&& degree4NodeMask) + countOnes (colorBb &&& degree3NodeMask)

/-- White's nodes less black's, by their worth. -/
def positionValueDiff (state : MillState) : Int :=
  positionValue (state.byColorBb 0) - positionValue (state.byColorBb 1)

/-- The lines across the rings that a colour holds. -/
def cardinalMills (colorBb : Bitboard) : Nat :=
  cardinalLineMasks.countP fun mask => colorBb &&& mask = mask

/-- White's lines across the rings less black's. -/
def cardinalMillDiff (state : MillState) : Int :=
  (cardinalMills (state.byColorBb 0) : Int) - cardinalMills (state.byColorBb 1)

/-- Who is about to fly. -/
def nearFlyDiff (state : MillState) (options : MillVariantOptions) : Int :=
  if !options.mayFly then 0
  else
    (if state.piecesOnBoard 0 = options.flyPieceCount then 1 else 0)
      - (if state.piecesOnBoard 1 = options.flyPieceCount then 1 else 0)

/-- The lines white has closed less black's. -/
def millsPiecesCountDifference (state : MillState) : Int :=
  (countOnes (state.formedMillsBb 0) : Int) - countOnes (state.formedMillsBb 1)

/-- The side that still owes an own piece when only one does, and the other owes nothing. -/
def legacyPendingSide (state : MillState) : Option Side :=
  let ownPending (side : Side) : Bool :=
    state.flags.removeOwnPiece side && decide (state.pendingRemovals side > 0)
  match ownPending 0, ownPending 1 with
  | true, false =>
    if state.pendingRemovals 1 ≠ 0 ∨ state.flags.removeOwnPiece 1 then none else some 0
  | false, true =>
    if state.pendingRemovals 0 ≠ 0 ∨ state.flags.removeOwnPiece 0 then none else some 1
  | _, _ => none

/-- The piece counts as the retired engine saw them between two removals of one exchange. -/
def legacyRemovalCountView (state : MillState) (options : MillVariantOptions) : Side → Nat :=
  let counts := state.piecesOnBoard
  if options.millFormationActionInPlacingPhase ≠ .removalBasedOnMillCounts
      ∨ state.phase ≠ .moving then counts
  else
    match legacyPendingSide state with
    | none => counts
    | some pendingSide =>
      let counts := setAt counts pendingSide (counts pendingSide - 1)
      setAt counts pendingSide.opponent (saturatingAddU8 (counts pendingSide.opponent) 1)

/-- `eval_features`, white less black throughout. -/
def evalFeatures (state : MillState) (options : MillVariantOptions) : MillEvalFeatureSet :=
  let effectiveOnBoard := legacyRemovalCountView state options
  let inHandDiff : Int := (state.piecesInHand 0 : Int) - state.piecesInHand 1
  let onBoardDiff : Int := (effectiveOnBoard 0 : Int) - effectiveOnBoard 1
  { materialDiff :=
      match state.phase with
      | .placing => inHandDiff + onBoardDiff
      | .moving => onBoardDiff
      | _ => 0
    mobilityDiff := state.mobilityDiff
    millCountDiff := millsPiecesCountDifference state
    positionValueDiff := positionValueDiff state
    cardinalMillDiff := cardinalMillDiff state
    nearFlyDiff := nearFlyDiff state options }

/-- A side has few enough pieces to fly. -/
def flyingPhaseActive (state : MillState) (options : MillVariantOptions) : Bool :=
  options.mayFly
    && (decide (state.piecesOnBoard 0 ≤ options.flyPieceCount)
      || decide (state.piecesOnBoard 1 ≤ options.flyPieceCount))

/-- A side has one piece more than that. -/
def preFlyPhaseActive (state : MillState) (options : MillVariantOptions) : Bool :=
  let preFly := saturatingAddU8 options.flyPieceCount 1
  options.mayFly
    && (decide (state.piecesOnBoard 0 = preFly) || decide (state.piecesOnBoard 1 = preFly))

/-- The weights for the phase; the moving phase has three sets. -/
def phaseWeights (state : MillState) (options : MillVariantOptions) (weights : MillEvalWeights) :
    MillPhaseEvalWeights :=
  match state.phase with
  | .placing => weights.placing
  | .moving =>
    if flyingPhaseActive state options then weights.flying
    else if preFlyPhaseActive state options then weights.preFly
    else weights.movingOpen
  | _ => weights.movingOpen

/-- The weighted sum. -/
def evaluateFeatures (features : MillEvalFeatureSet) (weights : MillPhaseEvalWeights) : Int :=
  weights.pieceValue * features.materialDiff
    + weights.mobility * features.mobilityDiff
    + weights.millCount * features.millCountDiff
    + weights.positionValue * features.positionValueDiff
    + weights.cardinalMill * features.cardinalMillDiff
    + weights.nearFlyBonus * features.nearFlyDiff

/-- Blocking matters while placing, and when the opponent is one capture from flying. -/
def shouldFocusOnBlockingPaths (state : MillState) (options : MillVariantOptions) : Bool :=
  if !options.focusOnBlockingPaths then false
  else
    match state.phase with
    | .placing => true
    | .moving =>
      if !options.mayFly then false
      else if ¬(0 ≤ state.sideToMove ∧ state.sideToMove < 2) then false
      else
        let side := sideIndex state.sideToMove
        let oppThreshold := saturatingAddU8 options.piecesAtLeastCount 1
        let ourMinPieces := options.pieceCount - 2
        decide (state.piecesOnBoard side.opponent = oppThreshold)
          && decide (state.piecesOnBoard side ≥ ourMinPieces)
    | _ => false

/-! ## The evaluator -/

/-- What white owes less what black owes; own pieces count against. -/
def signedPendingRemovalsDiff (state : MillState) : Int :=
  let signed (side : Side) : Int :=
    if state.flags.removeOwnPiece side then -(state.pendingRemovals side : Int)
    else state.pendingRemovals side
  signed 0 - signed 1

/-- The score of a finished game by its board alone. -/
def gameoverValue (state : MillState) (options : MillVariantOptions) (mate draw : Int) : Int :=
  let onBoardTotal := state.piecesOnBoard 0 + state.piecesOnBoard 1
  if options.pieceCount = 12 ∧ onBoardTotal ≥ 24 then
    match options.boardFullAction with
    | .firstPlayerLose => -mate
    | .agreeToDraw => draw
    | _ => 0
  else if options.stalemateAction = .endWithStalemateLoss ∧ state.phase = .gameOver
      ∧ state.pendingRemovals 0 = 0 ∧ state.pendingRemovals 1 = 0
      ∧ (state.sideToMove = 0 ∨ state.sideToMove = 1)
      ∧ isAllSurrounded state options state.sideToMove then
    if state.sideToMove = 0 then -mate else mate
  else if state.piecesOnBoard 0 < options.piecesAtLeastCount then -mate
  else if state.piecesOnBoard 1 < options.piecesAtLeastCount then mate
  else 0

/-- The score from White's side. -/
def whiteScore (state : MillState) (options : MillVariantOptions) (weights : MillEvalWeights) :
    Int :=
  let removalsDiff := signedPendingRemovalsDiff state
  let actionIsRemove : Bool := state.pendingRemovals 0 > 0 ∨ state.pendingRemovals 1 > 0
  let weights := phaseWeights state options weights
  let features := evalFeatures state options
  let positional : Int :=
    if shouldFocusOnBlockingPaths state options then weights.mobility * features.mobilityDiff
    else
      evaluateFeatures features weights
        + (if actionIsRemove then weights.pieceValue * removalsDiff else 0)
  match state.phase with
  | .ready => 0
  | .placing =>
    if options.millFormationActionInPlacingPhase = .removalBasedOnMillCounts then
      if actionIsRemove then weights.pieceValue * removalsDiff
      else
        weights.millCount * features.millCountDiff
          + weights.positionValue * features.positionValueDiff
          + weights.cardinalMill * features.cardinalMillDiff
          + weights.nearFlyBonus * features.nearFlyDiff
    else positional
  | .moving => positional
  | .gameOver => gameoverValue state options 80 0

/-- `MillEvaluator::score`, from the side to move. -/
def millScore (state : MillState) (options : MillVariantOptions) (weights : MillEvalWeights) :
    Int :=
  if state.sideToMove = 1 then -whiteScore state options weights
  else whiteScore state options weights

/-! ## Hooks of the search -/

/-- The cached key, or the key computed anew. -/
def positionKey (state : MillState) : Key :=
  if state.zobristKey ≠ 0 then state.zobristKey else fullStateKey state

/-- The position has occurred before in the history it was loaded with. -/
def hasCurrentRepetition (state : MillState) : Bool :=
  let key := positionKey state
  if key = 0 then false
  else (state.keyHistory.take (state.keyHistory.length - 1)).any (· = key)

/-- The inactivity rule of the search raises alpha to the draw; an owed removal is waited for. -/
def searchNMoveDrawAlphaOverride (state : MillState) (options : MillVariantOptions) : Option Int :=
  if state.pendingRemovals 0 > 0 ∨ state.pendingRemovals 1 > 0 then none
  else if ¬(state.phase = .moving
      ∨ (state.phase = .placing ∧ options.mayMoveInPlacingPhase = true)) then none
  else
    let isEndgame : Bool :=
      options.endgameNMoveRule > 0 ∧ options.endgameNMoveRule < options.nMoveRule
        ∧ (state.piecesOnBoard 0 = 3 ∨ state.piecesOnBoard 1 = 3)
    let draws : Bool :=
      if isEndgame then state.plySinceCapture ≥ options.endgameNMoveRule
      else options.nMoveRule > 0 ∧ state.plySinceCapture > options.nMoveRule
    if draws then some 0 else none

/-- The material a search by simulation reports. -/
def mctsTerminalScore (state : MillState) : Int :=
  if ¬(0 ≤ state.sideToMove ∧ state.sideToMove < 2) then 0
  else
    let stm := sideIndex state.sideToMove
    let opp := stm.opponent
    ((state.piecesOnBoard stm : Int) + state.piecesInHand stm - state.piecesOnBoard opp
      - state.piecesInHand opp) * 5

/-! ## The packed table move -/

/-- Five bits, 31 for no node. -/
def packMillTtNode (node : Int) : Option (BitVec 16) :=
  if node = -1 then some 31
  else if 0 ≤ node ∧ node < 24 then some (BitVec.ofInt 16 node) else none

/-- The node of five bits. -/
def unpackMillTtNode (code : BitVec 16) : Option Int :=
  if code = 31 then some (-1) else if code.toNat < 24 then some code.toNat else none

/-- Kind in two bits, the nodes in five bits each; code 0 is kept for "no move". -/
def packMillTtAction (action : Action) : Option (BitVec 16) :=
  if action.isNone ∨ action.aux ≠ -1 ∨ action.payloadBits ≠ 0 then none
  else if ¬(0 ≤ action.kindTag ∧ action.kindTag ≤ 2) then none
  else
    (packMillTtNode action.fromNode).bind fun (source : BitVec 16) =>
      (packMillTtNode action.toNode).map fun (target : BitVec 16) =>
        (BitVec.ofInt 16 action.kindTag ||| source <<< 2 ||| target <<< 7) + 1

/-- The action of a table entry; 0 stands for none. -/
def unpackMillTtAction (packed : BitVec 16) : Option Action :=
  if packed = 0 then none
  else
    let raw := packed - 1
    let kind := raw &&& 3
    if ¬kind.toNat ≤ 2 then none
    else
      (unpackMillTtNode ((raw >>> 2) &&& 0x1f)).bind fun source =>
        (unpackMillTtNode ((raw >>> 7) &&& 0x1f)).map fun target =>
          { kindTag := kind.toNat, fromNode := source, toNode := target, aux := -1,
            payloadBits := 0 }

/-! ## The game -/

namespace MillWorkbench

/-- `do_move` while the undo stack has room. -/
def push (wb : MillWorkbench) (a : Action) : MillWorkbench :=
  { wb with
    state := wb.rules.applySearchToState wb.state a
    undoStack :=
      MillUndoState.capture wb.state a wb.rules.options wb.rules.standardFastPath
        :: wb.undoStack }

theorem doMove_eq (wb : MillWorkbench) (a : Action) :
    wb.doMove a
      = if wb.undoStack.length < millSearchStackCapacity then some (wb.push a) else none := rfl

end MillWorkbench

/-- Mill as a search sees it in which no hook panics: a list that holds every push, and room on the
undo stack; `MillGame.gameWith` has the panics. `weights` and `rootPositionResetsRepetition` are set
when the workbench is built and do not change during a search. -/
def MillGame.game (weights : MillEvalWeights) (rootPositionResetsRepetition : Bool) :
    Game MillWorkbench where
  key wb := positionKey wb.state
  sideToMove wb := wb.sideToMove
  isTerminal wb := wb.isTerminal
  doMove wb a := wb.push a
  undoMove wb := wb.undoMove
  hasCurrentRepetition wb := Sanmill.hasCurrentRepetition wb.state
  currentPositionResetsRepetition _ := rootPositionResetsRepetition
  score wb := millScore wb.state wb.rules.options weights
  generateLegalCtx := MillGame.legalPushes
  generateQuiescenceCtx := MillGame.quiescencePushes
  moveOrderBiasCtx := moveOrderBiasCtx
  moveOrderScoresCtx wb actions ctx :=
    let (scores, needsSort) := moveOrderScoresCtx wb actions ctx
    (fun i => scores.getD i 0, needsSort)
  terminalScore := MillGame.terminalScore
  searchAlphaOverride wb := searchNMoveDrawAlphaOverride wb.state wb.rules.options
  uniqueRootMoveScore := 100
  nullMoveTerminalGuard := 40
  repetitionDrawBias := MillGame.repetitionDrawBias
  actionResetsRepetition action := action.kindTag = MillActionKind.remove.toI16
  packTtAction := packMillTtAction
  unpackTtAction := unpackMillTtAction
  mctsTerminalScore wb := mctsTerminalScore wb.state
  rootShortCircuitDraw _ := none

/-- What stands for the panic of a hook. -/
structure MillGame.Panics where
  doMove : MillWorkbench → Action → MillWorkbench
  generateLegalCtx : MillWorkbench → MoveOrderContext → List Action
  generateQuiescenceCtx : MillWorkbench → MoveOrderContext → Int → List Action

/-- Mill with the hooks of the source: the list of the search holds 72 actions and the undo stack
128 moves. A panic has no answer, so `panics` stands for any: what a search does whatever they are,
it does without meeting one. -/
def MillGame.gameWith (panics : MillGame.Panics) (weights : MillEvalWeights)
    (rootPositionResetsRepetition : Bool) : Game MillWorkbench :=
  { MillGame.game weights rootPositionResetsRepetition with
    doMove := fun wb a => (wb.doMove a).getD (panics.doMove wb a)
    generateLegalCtx := fun wb ctx =>
      (MillGame.generateLegalCtx wb ctx).getD (panics.generateLegalCtx wb ctx)
    generateQuiescenceCtx := fun wb ctx kindTag =>
      (MillGame.generateQuiescenceCtx wb ctx kindTag).getD
        (panics.generateQuiescenceCtx wb ctx kindTag) }

end Sanmill
