import Mathlib.Data.List.Basic
import Sanmill.Lib.LittleEndian
import Sanmill.Lib.SortedMap
import Sanmill.Mif.State

/-!
# The root of the repetition history

`repetition_root`: the observed positions are counted under the digests of their canonical
JSON texts, and the counts are the leaves of a sparse Merkle tree of 256 levels whose nodes
are computed from the leaves up. SHA-256 and the canonical JSON form are functions of the
platform. The hash map that pairs the nodes of a level lists its entries in any order.
-/

namespace Sanmill.Mif

open Std (TreeMap)
open LittleEndian (Byte)

/-- A SHA-256 digest. It is also the path of the leaf that it keys. -/
abbrev Digest : Type := Vector Byte 32

/-- The two children of a node, an empty one as `none`. -/
abbrev NodePair : Type := Option Digest × Option Digest

/-- The hexadecimal digits. -/
def DIGITS : List Char := "0123456789abcdef".toList

/-- Two digits for each byte. -/
def hex (bytes : List Byte) : Text :=
  bytes.flatMap fun byte : Byte =>
    [DIGITS.getD (byte >>> 4).toNat '0', DIGITS.getD (byte &&& 0x0f).toNat '0']

/-- `u64::to_be_bytes`. -/
def toBeBytes (n : Nat) : List Byte := (LittleEndian.encode 8 n).reverse

/-- What the digest of a leaf is taken of. -/
def leafInput (path : Digest) (count : Nat) : List Byte := 1 :: (path.toList ++ toBeBytes count)

/-- What the digest of an inner node is taken of. -/
def nodeInput (left right : Digest) : List Byte := 2 :: (left.toList ++ right.toList)

/-! ## Paths -/

/-- The byte of a path that holds the bit; the bit 0 is the highest of the byte 0. -/
def byteAt (path : Digest) (bitIndex : Nat) : Byte := path[bitIndex / 8]?.getD 0

/-- The bit of a level in its byte. -/
def mask (bitIndex : Nat) : Byte := 1#8 <<< (7 - bitIndex % 8)

/-- Whether a path turns right at a level. -/
def isRight (path : Digest) (bitIndex : Nat) : Bool := byteAt path bitIndex &&& mask bitIndex != 0

/-- The path with a left turn at a level. -/
def clearBit (path : Digest) (bitIndex : Nat) : Digest :=
  path.setIfInBounds (bitIndex / 8) (byteAt path bitIndex &&& ~~~ mask bitIndex)

/-! ## The tree -/

section

variable (sha256 : List Byte → Digest) (jcsBytes : Json → List Byte)

/-- The digests of the empty subtrees, the lowest first. -/
def emptyHashes : List Digest :=
  (List.range 256).foldl
    (fun values height =>
      values ++ [sha256 (nodeInput (values.getD height (sha256 [0]))
        (values.getD height (sha256 [0])))])
    [sha256 [0]]

/-- The first loop of `repetition_root`: how often each digest occurs. -/
def observe : List Json → TreeMap Digest Nat → TreeMap Digest (List Byte) →
    Result (TreeMap Digest Nat)
  | [], counts, _ => .ok counts
  | entry :: rest, counts, observations =>
    match entry.get "key" with
    | none =>
      .error {
        category := "syntax"
        code := "repetition-key-missing"
        message := "repetition history entry requires key" }
    | some key =>
      let bytes := jcsBytes key
      let digest := sha256 bytes
      if observations[digest]?.any (· != bytes) then
        .error {
          category := "integrity"
          code := "observation-digest-collision"
          message := "different repetition observations share one digest" }
      else
        observe rest (counts.insert digest (counts.getD digest 0 + 1))
          (observations.insert digest bytes)

/-- The leaves, with the counts capped. -/
def leafNodes (threshold : UInt64) (counts : TreeMap Digest Nat) : TreeMap Digest Digest :=
  counts.toList.foldl
    (fun nodes entry =>
      nodes.insert entry.1 (sha256 (leafInput entry.1 (min entry.2 threshold.toNat)))) ∅

/-- The nodes of one level under the paths of their parents. -/
def pairNodes (bitIndex : Nat) (nodes : TreeMap Digest Digest) : TreeMap Digest NodePair :=
  nodes.toList.foldl
    (fun parents node =>
      let parent := clearBit node.1 bitIndex
      let pair := parents.getD parent (none, none)
      parents.insert parent
        (if isRight node.1 bitIndex then (pair.1, some node.2) else (some node.2, pair.2))) ∅

/-- One round of the loop over the heights. -/
def levelUp (listing : Listing (Digest × NodePair)) (emptyAtHeight : Digest) (bitIndex : Nat)
    (nodes : TreeMap Digest Digest) : TreeMap Digest Digest :=
  (listing.list (pairNodes bitIndex nodes).toList).foldl
    (fun nodes entry =>
      nodes.insert entry.1
        (sha256 (nodeInput (entry.2.1.getD emptyAtHeight) (entry.2.2.getD emptyAtHeight)))) ∅

/-- The levels from the leaves to the root. -/
def levelsUp (listing : Nat → Listing (Digest × NodePair)) (leaves : TreeMap Digest Digest) :
    TreeMap Digest Digest :=
  ((emptyHashes sha256).take 256).zipIdx.foldl
    (fun nodes level => levelUp sha256 (listing level.2) level.1 (255 - level.2) nodes) leaves

/-- `repetition_root`. -/
def repetitionRoot (listing : Nat → Listing (Digest × NodePair)) (history : List Json)
    (threshold : UInt64) : Result Text := do
  let counts ← observe sha256 jcsBytes history ∅ ∅
  let nodes := levelsUp sha256 listing (leafNodes sha256 threshold counts)
  let root := (nodes.toList.head?.map Prod.snd).getD ((emptyHashes sha256).getD 256 (sha256 [0]))
  .ok ("sha256:".toList ++ hex root.toList)

end

end Sanmill.Mif
