import Sanmill.Lib.Bits

/-!
# Board geometry

The 24 board nodes in the master-normalized layout (inner, middle, outer ring;
each ring starts at 12 o'clock and proceeds clockwise), the adjacency tables, and
the three-in-a-row lines.

Adjacency is stored twice, as an ordered list and as a bit mask: the list fixes
the order in which moves are generated, the mask answers membership questions.
-/

namespace Sanmill

open Bits

/-- A dense board node, `0..24`. -/
abbrev Node : Type := Fin 24

/-- A `u32` board mask: bit `n` stands for node `n`. -/
abbrev Bitboard : Type := BitVec 32

/-- `1_u32 << node`. -/
def nodeBit (node : Node) : Bitboard := bit 32 node.val

/-- The nodes a `trailing_zeros` loop over `mask` visits, in its order. -/
def maskNodes (mask : Bitboard) : List Node :=
  (List.finRange 24).filter fun node : Node => testBit mask node

/-! ## Adjacency -/

/-- The neighbours of each node, in the order they are tried. -/
def neighbors : List (List Node) :=
  [[8, 1, 7], [2, 0], [10, 3, 1], [4, 2], [12, 5, 3], [6, 4], [14, 7, 5], [0, 6], [0, 16, 9, 15],
    [10, 8], [2, 18, 11, 9], [12, 10], [4, 20, 13, 11], [14, 12], [6, 22, 15, 13], [8, 14],
    [8, 17, 23], [18, 16], [10, 19, 17], [20, 18], [12, 21, 19], [22, 20], [14, 23, 21], [16, 22]]

/-- The same as masks. -/
def neighborMasks : List Bitboard :=
  [0x000182, 0x000005, 0x00040a, 0x000014, 0x001028, 0x000050, 0x0040a0, 0x000041, 0x018201,
    0x000500, 0x040a04, 0x001400, 0x102810, 0x005000, 0x40a040, 0x004100, 0x820100, 0x050000,
    0x0a0400, 0x140000, 0x281000, 0x500000, 0xa04000, 0x410000]

/-- The neighbours of each node on the board with diagonals. -/
def neighborsDiagonal : List (List Node) :=
  [[1, 7, 8], [9, 0, 2], [1, 3, 10], [11, 2, 4], [3, 5, 12], [13, 4, 6], [5, 7, 14], [15, 0, 6],
    [9, 15, 0, 16], [1, 17, 8, 10], [9, 11, 2, 18], [3, 19, 10, 12], [11, 13, 4, 20],
    [5, 21, 12, 14], [13, 15, 6, 22], [7, 23, 8, 14], [8, 17, 23], [9, 16, 18], [17, 19, 10],
    [11, 18, 20], [19, 21, 12], [13, 20, 22], [21, 23, 14], [15, 16, 22]]

/-- The same as masks. -/
def neighborMasksDiagonal : List Bitboard :=
  [0x000182, 0x000205, 0x00040a, 0x000814, 0x001028, 0x002050, 0x0040a0, 0x008041, 0x018201,
    0x020502, 0x040a04, 0x081408, 0x102810, 0x205020, 0x40a040, 0x804180, 0x820100, 0x050200,
    0x0a0400, 0x140800, 0x281000, 0x502000, 0xa04000, 0x418000]

/-- The neighbours of a node without diagonals. -/
def standardNeighborMaskFor (node : Node) : Bitboard := neighborMasks.getD node.val 0

/-- The neighbours of a node on the board with diagonals, as bits. -/
def diagonalNeighborMaskFor (node : Node) : Bitboard := neighborMasksDiagonal.getD node.val 0

/-- The neighbours of a node on the board in use. -/
def neighborMaskFor (node : Node) (hasDiagonalLines : Bool) : Bitboard :=
  if hasDiagonalLines then diagonalNeighborMaskFor node else standardNeighborMaskFor node

/-- The neighbours of a node in order, without diagonals. -/
def standardNeighborsFor (node : Node) : List Node := neighbors.getD node.val []

/-- The neighbours of a node on the board with diagonals, in the order of the source. -/
def diagonalNeighborsFor (node : Node) : List Node := neighborsDiagonal.getD node.val []

/-- `MillTopology::neighbors`, the ordered neighbour slice. -/
def topologyNeighbors (hasDiagonalLines : Bool) (node : Node) : List Node :=
  if hasDiagonalLines then diagonalNeighborsFor node else standardNeighborsFor node

/-! ## Lines -/

/-- A three-in-a-row line `[line[0], line[1], line[2]]`; `b` is the middle node. -/
structure Line where
  a : Node
  b : Node
  c : Node
deriving DecidableEq, Repr

/-- The standard 16 mill lines: twelve ring edges plus four cross spokes. -/
def standardMillLines : List Line :=
  [⟨7, 0, 1⟩, ⟨1, 2, 3⟩, ⟨3, 4, 5⟩, ⟨5, 6, 7⟩,
    ⟨15, 8, 9⟩, ⟨9, 10, 11⟩, ⟨11, 12, 13⟩, ⟨13, 14, 15⟩,
    ⟨23, 16, 17⟩, ⟨17, 18, 19⟩, ⟨19, 20, 21⟩, ⟨21, 22, 23⟩,
    ⟨0, 8, 16⟩, ⟨2, 10, 18⟩, ⟨4, 12, 20⟩, ⟨6, 14, 22⟩]

/-- The diagonal variant: the standard lines plus four corner diagonals. -/
def diagonalMillLines : List Line :=
  [⟨7, 0, 1⟩, ⟨1, 2, 3⟩, ⟨3, 4, 5⟩, ⟨5, 6, 7⟩,
    ⟨15, 8, 9⟩, ⟨9, 10, 11⟩, ⟨11, 12, 13⟩, ⟨13, 14, 15⟩,
    ⟨23, 16, 17⟩, ⟨17, 18, 19⟩, ⟨19, 20, 21⟩, ⟨21, 22, 23⟩,
    ⟨0, 8, 16⟩, ⟨2, 10, 18⟩, ⟨4, 12, 20⟩, ⟨6, 14, 22⟩,
    ⟨23, 15, 7⟩, ⟨1, 9, 17⟩, ⟨21, 13, 5⟩, ⟨3, 11, 19⟩]

/-- Capture lines along the outer, middle and inner square edges. -/
def captureSquareEdgeLines : List Line :=
  [⟨23, 16, 17⟩, ⟨15, 8, 9⟩, ⟨7, 0, 1⟩, ⟨5, 4, 3⟩, ⟨13, 12, 11⟩, ⟨21, 20, 19⟩,
    ⟨23, 22, 21⟩, ⟨15, 14, 13⟩, ⟨7, 6, 5⟩, ⟨1, 2, 3⟩, ⟨9, 10, 11⟩, ⟨17, 18, 19⟩]

/-- Capture lines along the four cross spokes. -/
def captureCrossLines : List Line :=
  [⟨22, 14, 6⟩, ⟨2, 10, 18⟩, ⟨16, 8, 0⟩, ⟨4, 12, 20⟩]

/-- Diagonal three-point capture lines. -/
def captureDiagonalLines : List Line :=
  [⟨23, 15, 7⟩, ⟨1, 9, 17⟩, ⟨21, 13, 5⟩, ⟨3, 11, 19⟩]

/-! ## Line tables by node -/

/-- The mask of the two other nodes of `line`, when `node` is on it. -/
def Line.peerMask? (line : Line) (node : Node) : Option Bitboard :=
  if node = line.a then some (nodeBit line.b ||| nodeBit line.c)
  else if node = line.b then some (nodeBit line.c ||| nodeBit line.a)
  else if node = line.c then some (nodeBit line.a ||| nodeBit line.b)
  else none

/-- The three nodes as a mask. -/
def Line.mask (line : Line) : Bitboard :=
  nodeBit line.a ||| nodeBit line.b ||| nodeBit line.c

/-- The three nodes in order. -/
def Line.nodes (line : Line) : List Node := [line.a, line.b, line.c]

/-- For one node, the indices of the lines through it, ascending. -/
def buildMillLineIndicesByNode (lines : List Line) (node : Node) : List Nat :=
  lines.zipIdx.filterMap fun p => (p.1.peerMask? node).map fun _ => p.2

/-- For one node, the peer masks of the lines through it, in the same order. -/
def buildMillLinePeerMasksByNode (lines : List Line) (node : Node) : List Bitboard :=
  lines.filterMap fun line => line.peerMask? node

end Sanmill
