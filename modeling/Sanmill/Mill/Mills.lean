import Sanmill.Mill.State

/-!
# Mills

Which lines a piece completes, which it could complete, and which pieces stand in
a mill. A set of lines is a mask over line indices (`millBits`); a set of nodes is
a mask over nodes. The source unrolls its line loops over sentinel-terminated
tables; the tables here are lists without the sentinel.
-/

namespace Sanmill

open Bits

/-- The lines of the board in use. -/
def millLines (options : MillVariantOptions) : List Line :=
  if options.hasDiagonalLines then diagonalMillLines else standardMillLines

/-- The lines through a node, by number. -/
def millLineIndicesForNode (options : MillVariantOptions) (node : Node) : List Nat :=
  buildMillLineIndicesByNode (millLines options) node

/-- What the lines through a node have besides it. -/
def millLinePeerMasksForNode (options : MillVariantOptions) (node : Node) : List Bitboard :=
  buildMillLinePeerMasksByNode (millLines options) node

/-- The lines as masks. -/
def millLineMasks (options : MillVariantOptions) : List Bitboard :=
  (millLines options).map Line.mask

/-- `1_u32 << line_idx`. -/
def lineBit (lineIdx : Nat) : Bitboard := bit 32 lineIdx

/-- The union of the bits of the listed lines. -/
def lineBits (lineIdxs : List Nat) : Bitboard :=
  lineIdxs.foldl (fun bits lineIdx => bits ||| lineBit lineIdx) 0

/-- The lines through `node` that are complete for the side to move. -/
def formedMillBitsAt (state : MillState) (options : MillVariantOptions) (node : Node)
    (sideToMove : Int) : Bitboard :=
  if state.delayedMarkedPieces = 0 then
    match colorIndexForPiece (sideToMove + 1) with
    | none => 0
    | some color =>
      let colorBb := state.byColorBb color
      if testBit colorBb node then
        lineBits (((millLineIndicesForNode options node).zip
          (millLinePeerMasksForNode options node)).filterMap fun p =>
            if colorBb &&& p.2 = p.2 then some p.1 else none)
      else 0
  else
    lineBits ((millLineIndicesForNode options node).filter fun lineIdx =>
      match (millLines options)[lineIdx]? with
      | some line => line.nodes.all fun idx => state.livePiece idx = sideToMove + 1
      | none => false)

/-- The fixed-width probe of the standard board; the target is known to be occupied. -/
def formedMillBitsStandardOccupied (colorBb : Bitboard) (node : Node) : Bitboard :=
  let peerMasks := buildMillLinePeerMasksByNode standardMillLines node
  let lineIndices := buildMillLineIndicesByNode standardMillLines node
  let slot (k : Nat) : Bitboard :=
    if colorBb &&& peerMasks.getD k 0 = peerMasks.getD k 0 then lineBit (lineIndices.getD k 0)
    else 0
  slot 0 ||| slot 1

/-- The two-line count of the standard board. -/
def potentialMillsCountStandardUnrestricted (colorBb : Bitboard) (target : Node)
    (source : Option Node) : Nat :=
  let colorBb := match source with
    | some source => colorBb &&& ~~~nodeBit source
    | none => colorBb
  let peerMasks := buildMillLinePeerMasksByNode standardMillLines target
  (if colorBb &&& peerMasks.getD 0 0 = peerMasks.getD 0 0 then 1 else 0)
    + (if colorBb &&& peerMasks.getD 1 0 = peerMasks.getD 1 0 then 1 else 0)

/--
The lines through `target` whose other two nodes `side` already holds, with the
node `source` vacated. Under `oneTimeUseMill` a line whose three nodes the side
has already used does not count.
-/
def potentialMillsCountAt (state : MillState) (options : MillVariantOptions) (target : Node)
    (side : Int) (source : Option Node) : Nat :=
  match colorIndexForPiece (side + 1) with
  | none => 0
  | some color =>
    let formedBb := state.formedMillsBb color
    let colorBb := match source with
      | some source => state.byColorBb color &&& ~~~nodeBit source
      | none => state.byColorBb color
    if !options.hasDiagonalLines && !options.oneTimeUseMill then
      potentialMillsCountStandardUnrestricted colorBb target none
    else
      (millLinePeerMasksForNode options target).countP fun peerMask =>
        colorBb &&& peerMask = peerMask
          ∧ ¬(options.oneTimeUseMill = true
            ∧ (nodeBit target ||| peerMask) &&& formedBb = nodeBit target ||| peerMask)

/-- The live pieces of `color` that stand in a mill, as a node mask. -/
def millMembersMaskForColor (state : MillState) (options : MillVariantOptions)
    (color : Side) : Bitboard :=
  (millLineMasks options).foldl
    (fun members lineMask =>
      if state.byColorBb color &&& lineMask = lineMask then members ||| lineMask else members) 0

/-- The pieces of a colour that stand in mills. -/
def millMembersMaskForPiece (state : MillState) (options : MillVariantOptions)
    (piece : Int) : Bitboard :=
  match colorIndexForPiece piece with
  | some color => millMembersMaskForColor state options color
  | none => 0

/-- The mills of a side. -/
def totalMillsCount (state : MillState) (options : MillVariantOptions) (side : Int) : Nat :=
  (millLines options).countP fun line =>
    line.nodes.all fun idx => state.livePiece idx = side + 1

/-- The number of removals a set of completed lines earns. -/
def removalCountForBits (bits : Bitboard) (options : MillVariantOptions) : Nat :=
  if options.mayRemoveMultiple then max (countOnes bits) 1 else 1

/-- Under `oneTimeUseMill`, drop the lines the side to move has used before. -/
def usableMillBits (state : MillState) (options : MillVariantOptions) (bits : Bitboard) :
    Bitboard :=
  if !options.oneTimeUseMill then bits
  else if ¬(0 ≤ state.sideToMove ∧ state.sideToMove < 2) then bits
  else
    let formed := state.formedMillsBb (sideIndex state.sideToMove)
    (millLines options).zipIdx.foldl
      (fun usable p =>
        if testBit bits p.2 && (p.1.mask &&& formed = p.1.mask) then usable &&& ~~~lineBit p.2
        else usable) bits

/-- The nodes of the lines in `bits`. -/
def nodesOfLines (options : MillVariantOptions) (bits : Bitboard) : Bitboard :=
  (millLines options).zipIdx.foldl
    (fun nodes p => if testBit bits p.2 then nodes ||| p.1.mask else nodes) 0

/-- Record the mill that `side` has just formed by moving `source` to `target`. -/
def noteMillFormation (state : MillState) (side : Side) (source target : Int) (bits : Bitboard)
    (options : MillVariantOptions) : MillState :=
  let recorded := options.restrictRepeatedMillsFormation
  { state with
    lastMillFrom := setAt state.lastMillFrom side (if recorded then source else -1)
    lastMillTo := setAt state.lastMillTo side (if recorded then target else -1)
    usedMillLines := state.usedMillLines ||| bits
    formedMillsBb :=
      if options.oneTimeUseMill then
        setAt state.formedMillsBb side (state.formedMillsBb side ||| nodesOfLines options bits)
      else state.formedMillsBb }

end Sanmill
