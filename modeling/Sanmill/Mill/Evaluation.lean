import Sanmill.Mill.Mills

/-!
# Mobility and surrounded sides

The parts of the evaluator the rules themselves depend on: the cached mobility
term, kept incrementally by every board write and recomputed at the snapshot
boundary, and `isAllSurrounded`, which decides when a side is stalemated.
-/

namespace Sanmill

open Bits

/-- Mobility counts in this phase. -/
def shouldConsiderMobility (options : MillVariantOptions) : Bool :=
  options.considerMobility || options.focusOnBlockingPaths

/-- `(1 << 24) - 1`. -/
def millBoardMask : Bitboard := 0xffffff

/-- The empty neighbours of the pieces in `colorBb`, with multiplicity. -/
def mobilityOf (options : MillVariantOptions) (colorBb liveEmpty : Bitboard) : Int :=
  (maskNodes colorBb).foldl
    (fun total node =>
      total + (countOnes (neighborMaskFor node options.hasDiagonalLines &&& liveEmpty) : Int)) 0

/-- White's empty neighbours less black's, counted afresh. -/
def calculateMobilityDiff (position : MillPosition) (options : MillVariantOptions) : Int :=
  let liveEmpty := ~~~position.liveOccupiedBitboard &&& millBoardMask
  mobilityOf options (position.byColorBb 0) liveEmpty
    - mobilityOf options (position.byColorBb 1) liveEmpty

/-- What the cached mobility term stands for. -/
def mobilityTerm (position : MillPosition) (options : MillVariantOptions) : Int :=
  if shouldConsiderMobility options then calculateMobilityDiff position options else 0

/-- The cached term is set to what it stands for. -/
def recomputeMobilityDiff (state : MillState) (options : MillVariantOptions) : MillState :=
  { state with mobilityDiff := mobilityTerm state.toMillPosition options }

/-- White neighbours, black neighbours and live-empty neighbours of `node`. -/
def adjacentMobilityCounts (position : MillPosition) (options : MillVariantOptions)
    (node : Node) : Int × Int × Int :=
  let neighborMask := neighborMaskFor node options.hasDiagonalLines
  (countOnes (neighborMask &&& position.byColorBb 0),
    countOnes (neighborMask &&& position.byColorBb 1),
    countOnes (neighborMask &&& ~~~position.liveOccupiedBitboard))

/-- Called after the piece has been put on `node`. -/
def updateMobilityPlace (state : MillState) (options : MillVariantOptions) (node : Node)
    (side : Side) : MillState :=
  let (adjacentWhite, adjacentBlack, adjacentEmpty) :=
    adjacentMobilityCounts state.toMillPosition options node
  { state with
    mobilityDiff :=
      if shouldConsiderMobility options then
        state.mobilityDiff - adjacentWhite + adjacentBlack
          + (if side = 0 then adjacentEmpty else -adjacentEmpty)
      else state.mobilityDiff }

/-- Called before the piece is taken from `node`. -/
def updateMobilityRemove (state : MillState) (options : MillVariantOptions) (node : Node) :
    MillState :=
  let (adjacentWhite, adjacentBlack, adjacentEmpty) :=
    adjacentMobilityCounts state.toMillPosition options node
  { state with
    mobilityDiff :=
      if shouldConsiderMobility options then
        state.mobilityDiff + adjacentWhite - adjacentBlack
          + (if state.livePiece node = 1 then -adjacentEmpty else adjacentEmpty)
      else state.mobilityDiff }

/-- A line through `node` is covered by `colorBb` and not used up by `side`. -/
def inUsableMill (state : MillState) (options : MillVariantOptions) (colorBb : Bitboard)
    (node : Node) (side : Side) : Bool :=
  (millLinePeerMasksForNode options node).any fun peerMask =>
    colorBb &&& peerMask = peerMask
      && (!options.oneTimeUseMill
        || (nodeBit node ||| peerMask) &&& state.formedMillsBb side ≠ nodeBit node ||| peerMask)

/-- Moving back from `source` to `target` is forbidden by the repeated-mill rule. -/
def isShuttleMoveRestricted (state : MillState) (options : MillVariantOptions)
    (source target : Node) (side : Side) : Bool :=
  let colorBb := state.byColorBb side
  inUsableMill state options colorBb source side
    && inUsableMill state options (colorBb &&& ~~~nodeBit source) target side

/-- One piece counts as surrounded: no empty neighbour, or only the forbidden one. -/
def isPieceSurrounded (state : MillState) (options : MillVariantOptions) (side : Side)
    (source : Node) : Bool :=
  let emptyAdjacent :=
    neighborMaskFor source options.hasDiagonalLines &&& ~~~state.boardOccupiedBitboard
  emptyAdjacent = 0
    || options.restrictRepeatedMillsFormation
      && match boardNode? (state.lastMillTo side), boardNode? (state.lastMillFrom side) with
        | some lastTo, some lastFrom =>
          source = lastTo && emptyAdjacent = nodeBit lastFrom
            && isShuttleMoveRestricted state options source lastFrom side
        | _, _ => false

/-- `side` has no board move; with flying, only a full board surrounds. -/
def isAllSurrounded (state : MillState) (options : MillVariantOptions) (side : Int) : Bool :=
  if ¬(0 ≤ side ∧ side ≤ 1) then false
  else
    let s := sideIndex side
    if state.piecesOnBoard 0 + state.piecesOnBoard 1 ≥ 24 then true
    else if options.mayFly && state.piecesOnBoard s ≤ options.flyPieceCount then false
    else
      (maskNodes (state.byColorBb s)).all fun source => isPieceSurrounded state options s source

end Sanmill
