import Sanmill.Lib.Numerals
import Mathlib.Data.Nat.Init

/-!
# The hash of a Perfect Database sector

A sector holds the boards of `W` white and `B` black stones. Its index is the orbit
of the white bitboard under the sixteen transforms, then the rank of the black
bitboard with the white points squeezed out. `none` stands for a panic: a failed
assertion or an `expect`.
-/

namespace Sanmill.PerfectDb

/-!
## Symmetry transforms in Perfect Database index space

The sixteen board transforms as tables over the perfect indices `0..24`. A
bitboard of one colour is a number below `2^24`, a board of both is the white
bitboard with the black one above it.
-/

/-- A symmetry operation, `0..SYMMETRY_COUNT`. -/
abbrev SymmetryOp : Type := Fin 16

/-- `IDENTITY_OP`. -/
def identityOp : SymmetryOp := 15

/-- `INVERSE_OPS`. -/
def inverseOps : List SymmetryOp := [2, 1, 0, 3, 4, 5, 6, 7, 10, 9, 8, 11, 12, 13, 14, 15]

/-- `MAPS`: row `op` says where each perfect index goes. -/
def maps : List (List (Fin 24)) :=
  [[2, 3, 4, 5, 6, 7, 0, 1, 10, 11, 12, 13, 14, 15, 8, 9, 18, 19, 20, 21, 22, 23, 16, 17],
    [4, 5, 6, 7, 0, 1, 2, 3, 12, 13, 14, 15, 8, 9, 10, 11, 20, 21, 22, 23, 16, 17, 18, 19],
    [6, 7, 0, 1, 2, 3, 4, 5, 14, 15, 8, 9, 10, 11, 12, 13, 22, 23, 16, 17, 18, 19, 20, 21],
    [4, 3, 2, 1, 0, 7, 6, 5, 12, 11, 10, 9, 8, 15, 14, 13, 20, 19, 18, 17, 16, 23, 22, 21],
    [0, 7, 6, 5, 4, 3, 2, 1, 8, 15, 14, 13, 12, 11, 10, 9, 16, 23, 22, 21, 20, 19, 18, 17],
    [2, 1, 0, 7, 6, 5, 4, 3, 10, 9, 8, 15, 14, 13, 12, 11, 18, 17, 16, 23, 22, 21, 20, 19],
    [6, 5, 4, 3, 2, 1, 0, 7, 14, 13, 12, 11, 10, 9, 8, 15, 22, 21, 20, 19, 18, 17, 16, 23],
    [16, 17, 18, 19, 20, 21, 22, 23, 8, 9, 10, 11, 12, 13, 14, 15, 0, 1, 2, 3, 4, 5, 6, 7],
    [18, 19, 20, 21, 22, 23, 16, 17, 10, 11, 12, 13, 14, 15, 8, 9, 2, 3, 4, 5, 6, 7, 0, 1],
    [20, 21, 22, 23, 16, 17, 18, 19, 12, 13, 14, 15, 8, 9, 10, 11, 4, 5, 6, 7, 0, 1, 2, 3],
    [22, 23, 16, 17, 18, 19, 20, 21, 14, 15, 8, 9, 10, 11, 12, 13, 6, 7, 0, 1, 2, 3, 4, 5],
    [20, 19, 18, 17, 16, 23, 22, 21, 12, 11, 10, 9, 8, 15, 14, 13, 4, 3, 2, 1, 0, 7, 6, 5],
    [16, 23, 22, 21, 20, 19, 18, 17, 8, 15, 14, 13, 12, 11, 10, 9, 0, 7, 6, 5, 4, 3, 2, 1],
    [18, 17, 16, 23, 22, 21, 20, 19, 10, 9, 8, 15, 14, 13, 12, 11, 2, 1, 0, 7, 6, 5, 4, 3],
    [22, 21, 20, 19, 18, 17, 16, 23, 14, 13, 12, 11, 10, 9, 8, 15, 6, 5, 4, 3, 2, 1, 0, 7],
    [0, 1, 2, 3, 4, 5, 6, 7, 8, 9, 10, 11, 12, 13, 14, 15, 16, 17, 18, 19, 20, 21, 22, 23]]

/-- The operation that undoes another. -/
def inverseOp (op : SymmetryOp) : SymmetryOp := inverseOps.getD op.val 0

/-- The point that an operation sends a point to. -/
def transformIndex (op : SymmetryOp) (index : Fin 24) : Fin 24 :=
  (maps.getD op.val []).getD index.val 0

/-- `MASK24`. -/
def mask24 : Nat := 0x00ffffff

/-- One round of the loop of `transform24`. -/
def transform24Step (op : SymmetryOp) (bits result : Nat) (index : Fin 24) : Nat :=
  if bits &&& (1 <<< index.val) ≠ 0 then
    result ||| (1 <<< (transformIndex op index).val)
  else
    result

/-- The image of a bitboard; the caller asserts that it fits in 24 bits. -/
def transform24 (op : SymmetryOp) (bits : Nat) : Nat :=
  (List.finRange 24).foldl (transform24Step op bits) 0

/-- The image of a board; the caller asserts that it fits in 48 bits. -/
def transform48 (op : SymmetryOp) (board : Nat) : Nat :=
  let white := transform24 op (board &&& mask24)
  let black := transform24 op ((board >>> 24) &&& mask24)
  white ||| (black <<< 24)

/-! ## Masks of so many ones -/

/-- `BOARD_POINTS`. -/
def boardPoints : Nat := 24

/-- `count_ones` of a `u32`. -/
def countOnes (bits : Nat) : Nat := ((List.range 32).filter bits.testBit).length

/-- The next number with as many ones, in `u32` arithmetic. -/
def nextChoose (x : Nat) : Nat :=
  if x = 0 then
    1 <<< boardPoints
  else
    let c := x &&& ((2 ^ 32 - x) % 2 ^ 32)
    let r := (x + c) % 2 ^ 32
    (((r ^^^ x) >>> 2) / c) ||| r

/-- `binom`, by the product of the source. -/
def binom (n k : Nat) : Nat :=
  let k := min k (n - k)
  (List.range k).foldl (fun result i => result * (n - i) / (i + 1)) 1

/-- The loop of `combination_masks`. -/
def combinationMasksFrom (limit : Nat) : Nat → Nat → List Nat
  | 0, _ => []
  | fuel + 1, mask =>
    if mask < limit then mask :: combinationMasksFrom limit fuel (nextChoose mask) else []

/-- All masks of `count` ones in a universe of bits; every round makes the mask larger. -/
def combinationMasks (universeSize count : Nat) : List Nat :=
  let limit := 1 <<< universeSize
  let mask := if count = 0 then 0 else (1 <<< count) - 1
  combinationMasksFrom limit limit mask

/-! ## Squeezing the white points out -/

/-- The loop variables of `collapse`. -/
structure CollapseState where
  black : Nat
  result : Nat
  compactBit : Nat

/-- One round of the loop of `collapse`. -/
def collapseStep (white : Nat) (s : CollapseState) (index : Nat) : CollapseState :=
  if white &&& (1 <<< index) = 0 then
    { s with result := s.result ||| (s.black &&& s.compactBit), compactBit := s.compactBit <<< 1 }
  else
    { s with black := s.black >>> 1 }

/-- `collapse`: drops the white points and closes the gaps between the black ones. -/
def collapse (board : Nat) : Nat :=
  let white := board &&& mask24
  let black := (board >>> 24) &&& mask24
  ((List.range boardPoints).foldl (collapseStep white)
    { black := black, result := 0, compactBit := 1 }).result

/-- The loop variables of `uncollapse`. -/
structure UncollapseState where
  compactBlack : Nat
  black : Nat

/-- One round of the loop of `uncollapse`, in `u32` arithmetic. -/
def uncollapseStep (white : Nat) (s : UncollapseState) (index : Nat) : UncollapseState :=
  if white &&& (1 <<< index) ≠ 0 then
    { s with compactBlack := (s.compactBlack <<< 1) % 2 ^ 32 }
  else
    { s with black := s.black ||| (s.compactBlack &&& (1 <<< index)) }

/-- `uncollapse`: puts the gaps of the white points back. -/
def uncollapse (board : Nat) : Nat :=
  let white := board &&& mask24
  let compactBlack := (board >>> 24) &&& mask24
  white ||| (((List.range boardPoints).foldl (uncollapseStep white)
    { compactBlack := compactBlack, black := 0 }).black <<< 24)

/-! ## The tables -/

/-- What the lookup table says of a white bitboard. -/
structure WhiteEntry where
  index : Nat
  /-- Bit `op` is set iff `op` sends the white bitboard to the seed of its orbit. -/
  transformsToCanonical : Nat
  deriving DecidableEq, Repr

/-- A map keyed by bitboards. -/
abbrev BitboardMap (α : Type) : Type := Nat → Option α

/-- The table with no entry. -/
def BitboardMap.empty {α : Type} : BitboardMap α := fun _ => none

/-- The table with one more entry. -/
def BitboardMap.insert {α : Type} (map : BitboardMap α) (key : Nat) (value : α) : BitboardMap α :=
  fun k => if k = key then some value else map k

/-- The two tables of `build_white_lookup` and its running orbit index. -/
structure WhiteTables where
  lookup : BitboardMap WhiteEntry
  inverse : List Nat
  orbitIndex : Nat

/-- The inner loop: the image of a seed under one operation is entered. -/
def addImage (white orbitIndex : Nat) (lookup : BitboardMap WhiteEntry) (op : SymmetryOp) :
    Option (BitboardMap WhiteEntry) :=
  let transformed := transform24 op white
  let entry := (lookup transformed).getD { index := orbitIndex, transformsToCanonical := 0 }
  if entry.index = orbitIndex then
    some (lookup.insert transformed { entry with
      transformsToCanonical := entry.transformsToCanonical ||| (1 <<< (inverseOp op).val) })
  else
    none

/-- The outer loop: a bitboard of no earlier orbit is the seed of the next. -/
def addSeed (tables : WhiteTables) (white : Nat) : Option WhiteTables :=
  if (tables.lookup white).isSome then
    some tables
  else do
    let lookup ← (List.finRange 16).foldlM (addImage white tables.orbitIndex) tables.lookup
    some {
      lookup := lookup
      inverse := tables.inverse ++ [white]
      orbitIndex := tables.orbitIndex + 1 }

/-- `build_white_lookup`: the orbits of the white bitboards in their order. -/
def buildWhiteLookup (whiteCount : Nat) : Option WhiteTables :=
  (combinationMasks boardPoints whiteCount).foldlM addSeed
    { lookup := BitboardMap.empty, inverse := [], orbitIndex := 0 }

/-- The tables of a sector. -/
structure PerfectHasher where
  whiteCount : Nat
  blackCount : Nat
  positionsPerWhite : Nat
  whiteLookup : BitboardMap WhiteEntry
  blackRank : BitboardMap Nat
  whiteInverse : List Nat
  blackInverse : List Nat

/-- `iter().enumerate().collect()`: the map from each mask to its place. -/
def collectRanks (masks : List Nat) : BitboardMap Nat :=
  masks.zipIdx.foldl (fun map entry => map.insert entry.1 entry.2) BitboardMap.empty

/-- `PerfectHasher::new`: the tables of a sector, where the numbers fit the board. -/
def PerfectHasher.new (whiteCount blackCount : Nat) : Option PerfectHasher := do
  guard (whiteCount ≤ boardPoints ∧ blackCount ≤ boardPoints)
  guard (whiteCount + blackCount ≤ boardPoints)
  let tables ← buildWhiteLookup whiteCount
  let compactPoints := boardPoints - whiteCount
  let blackInverse := combinationMasks compactPoints blackCount
  some {
    whiteCount := whiteCount
    blackCount := blackCount
    positionsPerWhite := binom compactPoints blackCount
    whiteLookup := tables.lookup
    blackRank := collectRanks blackInverse
    whiteInverse := tables.inverse
    blackInverse := blackInverse }

/-- `hash_count`: the slots of the sector. -/
def PerfectHasher.hashCount (hasher : PerfectHasher) : Nat :=
  hasher.whiteInverse.length * hasher.positionsPerWhite

/-! ## Probing -/

/-- The slot of a board and the board that stands there. -/
structure HashProbe where
  index : Nat
  canonicalBoard : Nat
  deriving DecidableEq, Repr

/-- The recorded operations, in the order the loop that pops the lowest bit meets them. -/
def recordedOps (transforms : Nat) : List SymmetryOp :=
  (List.finRange 16).filter fun op => transforms.testBit op.val

/-- The least image of the board under the recorded operations. -/
def minImage (transforms board : Nat) : Nat :=
  (recordedOps transforms).foldl (fun canonical op => min canonical (transform48 op board))
    (2 ^ 64 - 1)

/-- `hash_probe`: the slot of any board of the sector. -/
def PerfectHasher.hashProbe (hasher : PerfectHasher) (board : Nat) : Option HashProbe := do
  let white := board &&& mask24
  let black := (board >>> 24) &&& mask24
  guard (countOnes white = hasher.whiteCount)
  guard (countOnes black = hasher.blackCount)
  guard (white &&& black = 0)
  let entry ← hasher.whiteLookup white
  let seed ← hasher.whiteInverse[entry.index]?
  guard (entry.transformsToCanonical ≠ 0)
  -- `transform48` asserts its 48 bits, the debug build also where each candidate sends white
  guard (board < 2 ^ 48)
  guard (∀ op ∈ recordedOps entry.transformsToCanonical, transform48 op board &&& mask24 = seed)
  let canonical := minImage entry.transformsToCanonical board
  let blackIndex ← hasher.blackRank (collapse canonical)
  some {
    index := entry.index * hasher.positionsPerWhite + blackIndex
    canonicalBoard := canonical }

/-- The board that is stored at an index. -/
def PerfectHasher.inverseBoard (hasher : PerfectHasher) (index : Nat) : Option Nat := do
  guard (index < hasher.hashCount)
  let white ← hasher.whiteInverse[index / hasher.positionsPerWhite]?
  let compactBlack ← hasher.blackInverse[index % hasher.positionsPerWhite]?
  some (uncollapse (white ||| (compactBlack <<< 24)))

/-- `direct_hash_index`: the slot of a board that is canonical already. -/
def PerfectHasher.directHashIndex (hasher : PerfectHasher) (board : Nat) : Option Nat := do
  let white := board &&& mask24
  let black := (board >>> 24) &&& mask24
  guard (countOnes white = hasher.whiteCount)
  guard (countOnes black = hasher.blackCount)
  guard (white &&& black = 0)
  let entry ← hasher.whiteLookup white
  let blackIndex ← hasher.blackRank (collapse board)
  some (entry.index * hasher.positionsPerWhite + blackIndex)

end Sanmill.PerfectDb
