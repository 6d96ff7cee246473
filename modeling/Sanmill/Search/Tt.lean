import Mathlib.Logic.Function.Basic
import Sanmill.Core.Game

/-!
# The transposition table

`ClusteredTt` is an array of four-entry buckets. An entry is one packed word
(key signature, age, value, depth, bound), so a stored value is clamped to 16
bits and a stored depth to 8; the word `0` is the empty slot. A probe answers
only from entries of the current age, and with a value only from one that is deep
enough.
-/

namespace Sanmill

/-- What a stored value bounds. -/
inductive Bound where
  | exact
  | lower
  | upper
deriving DecidableEq, Repr

/-- A value to be stored. -/
structure TtEntry where
  value : Int
  depth : Int
  bound : Bound
  ttMove : BitVec 16
deriving DecidableEq, Repr

/-- `TT_MOVE_NONE`. -/
def ttMoveNone : BitVec 16 := 0

/-- What a probe finds: a value that is deep enough, and a move. -/
structure TtProbeEntry where
  valueBound : Option (Int × Bound) := none
  ttMove : Option (BitVec 16) := none
deriving DecidableEq, Repr

/-- `TT_CLUSTER_ENTRY_COUNT`. -/
abbrev ttClusterEntryCount : Nat := 4

/-- A cluster of the table: packed words and the moves beside them. -/
structure TtCluster where
  entries : Fin ttClusterEntryCount → BitVec 64 := fun _ => 0
  moves : Fin ttClusterEntryCount → BitVec 16 := fun _ => ttMoveNone

/-! ## The packed word -/

namespace TtPackedEntry

/-- Where the age lies in a word. -/
def ageShift : Nat := 32
/-- Where the value lies in a word. -/
def valueShift : Nat := 38
/-- Where the depth lies in a word. -/
def depthShift : Nat := 54
/-- Where the bound lies in a word. -/
def boundShift : Nat := 62

/-- The part of the key that a word keeps. -/
def keySig (key : BitVec 64) : BitVec 32 := key.setWidth 32

/-- The key part of a word. -/
def packedKeySig (word : BitVec 64) : BitVec 32 := word.setWidth 32

/-- The age of a word. -/
def packedAge (word : BitVec 64) : BitVec 8 := ((word >>> ageShift) &&& 0x3f#64).setWidth 8

/-- A value clamped to 16 bits. -/
def compactValue (value : Int) : BitVec 16 := BitVec.ofInt 16 (max (-32768) (min 32767 value))

/-- The value of a word. -/
def unpackValue (word : BitVec 64) : Int :=
  (((word >>> valueShift) &&& 0xffff#64).setWidth 16).toInt

/-- A depth clamped to 8 bits. -/
def compactDepth (depth : Int) : BitVec 8 := BitVec.ofInt 8 (max (-128) (min 127 depth))

/-- The depth of a word. -/
def unpackDepth (word : BitVec 64) : Int :=
  (((word >>> depthShift) &&& 0xff#64).setWidth 8).toInt

/-- The two bits of a bound. -/
def packBound : Bound → BitVec 8
  | .exact => 0
  | .lower => 1
  | .upper => 2

/-- The bound of a word. -/
def unpackBound (word : BitVec 64) : Bound :=
  match ((word >>> boundShift) &&& 0x03#64).toNat with
  | 0 => .exact
  | 1 => .lower
  | 2 => .upper
  | _ => .exact

/-- `pack_meta`. -/
def pack (key : BitVec 64) (entry : TtEntry) (age : BitVec 8) : BitVec 64 :=
  (keySig key).setWidth 64
    ||| ((age.setWidth 64 &&& 0x3f#64) <<< ageShift)
    ||| ((compactValue entry.value).setWidth 64 <<< valueShift)
    ||| ((compactDepth entry.depth).setWidth 64 <<< depthShift)
    ||| ((packBound entry.bound).setWidth 64 <<< boundShift)

end TtPackedEntry

open TtPackedEntry

/-- The table: clusters, and the age that new words get. -/
structure ClusteredTt where
  clusters : Nat → TtCluster := fun _ => {}
  ttMoveEnabled : Bool := false
  clusterMask : BitVec 64
  currentAge : BitVec 8 := 0

namespace ClusteredTt

/-- `new_with_cluster_bits_and_tt_move`: `bits` counts slots, four to a cluster. -/
def newWithClusterBitsAndTtMove (bits : Nat) (enableTtMove : Bool) : ClusteredTt :=
  { ttMoveEnabled := enableTtMove
    clusterMask := (1#64 <<< (max 10 (min 26 bits) - 2)) - 1 }

/-- `ClusteredTt::default`, at `DEFAULT_CLUSTER_BITS`. -/
def default : ClusteredTt := newWithClusterBitsAndTtMove 24 false

/-- The cluster of a key. -/
def clusterIx (tt : ClusteredTt) (key : BitVec 64) : Nat :=
  ((key ^^^ (key >>> 32)) &&& tt.clusterMask).toNat

/-- The move beside a word, where moves are kept. -/
def loadTtMove (tt : ClusteredTt) (cluster : TtCluster) (i : Fin ttClusterEntryCount) :
    BitVec 16 :=
  if tt.ttMoveEnabled then cluster.moves i else ttMoveNone

/-- `current_age`. -/
def age (tt : ClusteredTt) : BitVec 8 := tt.currentAge &&& 0x3f#8

/-- A slot that answers for `key` at age `curAge`. -/
def answers (word : BitVec 64) (key : BitVec 64) (curAge : BitVec 8) : Bool :=
  word ≠ 0 ∧ packedKeySig word = keySig key ∧ packedAge word = curAge

/-- `probe_tt_move_at_age`: the first slot that answers decides. -/
def probeTtMoveAtAge (tt : ClusteredTt) (key : BitVec 64) (curAge : BitVec 8) :
    Option (BitVec 16) :=
  if tt.ttMoveEnabled then
    let cluster := tt.clusters (tt.clusterIx key)
    match (List.finRange ttClusterEntryCount).find? fun i =>
      answers (cluster.entries i) key curAge with
    | some i => if cluster.moves i = ttMoveNone then none else some (cluster.moves i)
    | none => none
  else none

/-- The slot loop of `probe_entry_at_age`: the move of the first slot that has one, the value of
the first one deep enough. -/
def probeSlots (tt : ClusteredTt) (cluster : TtCluster) (key : BitVec 64) (depth : Int)
    (curAge : BitVec 8) :
    List (Fin ttClusterEntryCount) → Option (BitVec 16) → TtProbeEntry
  | [], ttMove => { valueBound := none, ttMove := ttMove }
  | i :: rest, ttMove =>
    let word := cluster.entries i
    if answers word key curAge then
      let ttMove :=
        if ttMove.isNone ∧ tt.loadTtMove cluster i ≠ ttMoveNone then
          some (tt.loadTtMove cluster i)
        else ttMove
      if unpackDepth word < depth then probeSlots tt cluster key depth curAge rest ttMove
      else { valueBound := some (unpackValue word, unpackBound word), ttMove := ttMove }
    else probeSlots tt cluster key depth curAge rest ttMove

/-- The probe of a key at an age: the value and the move of its slot. -/
def probeEntryAtAge (tt : ClusteredTt) (key : BitVec 64) (depth : Int) (curAge : BitVec 8) :
    TtProbeEntry :=
  tt.probeSlots (tt.clusters (tt.clusterIx key)) key depth curAge
    (List.finRange ttClusterEntryCount) none

/-- `replacement_score`: deep, exact and young words stay. -/
def replacementScore (word : BitVec 64) (curAge : BitVec 8) : Int :=
  let age := (curAge - packedAge word) &&& 0x3f#8
  let exactBonus := if unpackBound word = .exact then 2 else 0
  unpackDepth word + exactBonus - age.toNat * 8

/-- What the slot loop of `save_at_age` decides. -/
inductive SaveTarget where
  /-- A deeper entry of the same key and age stays. -/
  | keep
  /-- The entry of the same key is overwritten. -/
  | update (i : Fin ttClusterEntryCount)
  /-- An empty or least valuable slot is taken. -/
  | replace (i : Fin ttClusterEntryCount)
deriving DecidableEq, Repr

/-- The slot that a value goes to. -/
def saveTarget (cluster : TtCluster) (key : BitVec 64) (entry : TtEntry) (curAge : BitVec 8) :
    List (Fin ttClusterEntryCount) → Fin ttClusterEntryCount → Int → SaveTarget
  | [], replaceIndex, _ => .replace replaceIndex
  | i :: rest, replaceIndex, replaceScore =>
    let word := cluster.entries i
    if word = 0 then .replace i
    else if packedKeySig word = keySig key then
      if packedAge word = curAge
          ∧ (entry.depth < unpackDepth word
            ∨ (entry.depth = unpackDepth word ∧ unpackBound word = .exact
              ∧ entry.bound ≠ .exact)) then .keep
      else .update i
    else if replacementScore word curAge < replaceScore then
      saveTarget cluster key entry curAge rest i (replacementScore word curAge)
    else saveTarget cluster key entry curAge rest replaceIndex replaceScore

/-- Write one slot. -/
def store (tt : ClusteredTt) (ix : Nat) (i : Fin ttClusterEntryCount) (word : BitVec 64)
    (ttMove : BitVec 16) : ClusteredTt :=
  let cluster := tt.clusters ix
  { tt with
    clusters := Function.update tt.clusters ix
      { entries := Function.update cluster.entries i word
        moves :=
          if tt.ttMoveEnabled then Function.update cluster.moves i ttMove else cluster.moves } }

/-- The table after a value is stored at an age. -/
def saveAtAge (tt : ClusteredTt) (key : BitVec 64) (entry : TtEntry) (curAge : BitVec 8) :
    ClusteredTt :=
  let ix := tt.clusterIx key
  let cluster := tt.clusters ix
  let word := pack key entry curAge
  match saveTarget cluster key entry curAge (List.finRange ttClusterEntryCount) 0 2147483647 with
  | .keep => tt
  | .update i =>
    tt.store ix i word
      (if entry.ttMove ≠ ttMoveNone then entry.ttMove else tt.loadTtMove cluster i)
  | .replace i => tt.store ix i word entry.ttMove

/-- `get`: the entry of the first slot that answers. -/
def get (tt : ClusteredTt) (key : BitVec 64) : Option TtEntry :=
  let cluster := tt.clusters (tt.clusterIx key)
  ((List.finRange ttClusterEntryCount).find? fun i =>
    answers (cluster.entries i) key tt.currentAge).map fun i =>
      { value := unpackValue (cluster.entries i)
        depth := unpackDepth (cluster.entries i)
        bound := unpackBound (cluster.entries i)
        ttMove := tt.loadTtMove cluster i }

/-- `save`, at the current age. -/
def save (tt : ClusteredTt) (key : BitVec 64) (entry : TtEntry) : ClusteredTt :=
  tt.saveAtAge key entry tt.currentAge

/-- `clear_slots` of every cluster. -/
def clearSlots (tt : ClusteredTt) : ClusteredTt := { tt with clusters := fun _ => {} }

/-- `clear`: empty slots, and the age from the start. -/
def clear (tt : ClusteredTt) : ClusteredTt := { tt.clearSlots with currentAge := 0 }

/-- `bump_age`: the age field has six bits, and at its end the table is cleared. -/
def bumpAge (tt : ClusteredTt) : ClusteredTt :=
  if 0x3f ≤ tt.currentAge.toNat then { tt.clearSlots with currentAge := 1 }
  else { tt with currentAge := tt.currentAge + 1 }

end ClusteredTt

/-- A call that changes the table. -/
inductive TtCall where
  | save (key : BitVec 64) (entry : TtEntry)
  | bumpAge
  | clear

/-- The table after a call. -/
def ClusteredTt.called (tt : ClusteredTt) : TtCall → ClusteredTt
  | .save key entry => tt.save key entry
  | .bumpAge => tt.bumpAge
  | .clear => tt.clear

end Sanmill
