import Mathlib.Algebra.Order.Ring.Rat
import Mathlib.Data.List.Sort
import Mathlib.Data.Prod.Lex
import Sanmill.Lib.Grouping
import Sanmill.Lib.SortedMap
import Sanmill.PerfectDb.CanonicalKey

/-!
# Building a patch file

`mill patch-pack` puts mined corrections into a file of a bounded size. Entries that
correct a blunder rank before those that only steer, and a budget keeps a prefix of the
ranking; blunders in the middle of a removal are always kept. `none` stands for a panic.
Masses are exact numbers.
-/

namespace Sanmill.Pack

open PerfectDb

/-! ## Entries and records -/

/-- A mistake that the miner found at a position. -/
structure MineEntry where
  key : UInt64
  bestChild : UInt64
  severity : Int
  trapScore : Nat
  mass : ℚ
deriving DecidableEq

/-- What the miner knows of the children of a position. -/
structure ChildProof where
  childCount : Nat
  optimalMask : Nat
  trapScoreMask : Nat
  optimalTrapNibbles : Nat
deriving DecidableEq

/-- The record of a position in its sector. -/
structure PackedRecord where
  slot : Nat
  bestChild : UInt64
  severity : Nat
  trapScore : Nat
  childCount : Nat
  optimalMask : Nat
  trapScoreMask : Nat
  optimalTrapNibbles : Nat
deriving DecidableEq

/-- The record of a position where a removal is owed, by its whole key. -/
structure MidRemovalRecord where
  key : UInt64
  bestChild : UInt64
  severity : Nat
  trapScore : Nat
  childCount : Nat
  optimalMask : Nat
  trapScoreMask : Nat
  optimalTrapNibbles : Nat
deriving DecidableEq

/-- The records of a sector. -/
structure SectorGroup where
  sector : SectorId
  records : List PackedRecord
deriving DecidableEq

/-- The parts of a patch file. -/
structure PatchFile (Fingerprint : Type) where
  variantByte : Nat
  fingerprint : Fingerprint
  secvalBytes : List (BitVec 8)
  sectors : List SectorGroup
  midRemovalRecords : List MidRemovalRecord
deriving DecidableEq

/-- What the build kept and what it dropped. -/
structure BuildTrimStats where
  keptRanked : Nat
  trimmedSteering : Nat := 0
  trimmedBlunders : Nat := 0
  trimmedBlunderMass : ℚ := 0

/-- `severity as u8`. -/
def severityByte (severity : Int) : Nat := (severity % 256).toNat

/-- `MID_REMOVAL_TAG`. -/
def MID_REMOVAL_TAG : UInt64 := (1 : UInt64) <<< 63

/-- The entry stands where a removal is owed. -/
def isMidRemoval (e : MineEntry) : Bool := e.key &&& MID_REMOVAL_TAG != 0

/-- The order of the pool and of the duplicates: blunders above steering, then by severity,
then by mass. -/
def rank (e : MineEntry) : Nat ×ₗ Int ×ₗ ℚ :=
  toLex (if 0 < e.severity then 1 else 0, toLex (e.severity, e.mass))

/-! ## Duplicates -/

/-- An entry takes the place of an incumbent of a lower rank. -/
def dedupInsert (e : MineEntry) : List MineEntry → List MineEntry
  | [] => [e]
  | incumbent :: rest =>
    if incumbent.key = e.key then (if rank incumbent < rank e then e else incumbent) :: rest
    else incumbent :: dedupInsert e rest

/-- `dedup_entries`. -/
def dedupEntries (listing : Listing MineEntry) (entries : List MineEntry) : List MineEntry :=
  (listing.list (entries.foldl (fun byKey e => dedupInsert e byKey) [])).insertionSort
    fun a b => a.key.toNat ≤ b.key.toNat

/-! ## The file of some entries -/

/-- What the records of a file are made from, besides the entries. -/
structure PackContext (Fingerprint : Type) where
  proofs : UInt64 → Option ChildProof
  variantByte : Nat
  fingerprint : Fingerprint
  secvalBytes : List (BitVec 8)
  listing : Listing (SectorId × List PackedRecord)

variable {Fingerprint : Type} (context : PackContext Fingerprint)

/-- `mid_record_for`. -/
def midRecordFor (e : MineEntry) : Option MidRemovalRecord :=
  (context.proofs e.key).map fun proof =>
    { key := e.key
      bestChild := e.bestChild
      severity := severityByte e.severity
      trapScore := e.trapScore
      childCount := proof.childCount
      optimalMask := proof.optimalMask
      trapScoreMask := proof.trapScoreMask
      optimalTrapNibbles := proof.optimalTrapNibbles }

/-- The record of a settled entry, and its sector. -/
def packedRecordFor (e : MineEntry) : Option (SectorId × PackedRecord) := do
  let (sector, slot) ← unpackCanonicalKey e.key.toNat
  let proof ← context.proofs e.key
  -- the slot of a key has 32 bits, so that it is kept whole
  return (sector, {
    slot := slot
    bestChild := e.bestChild
    severity := severityByte e.severity
    trapScore := e.trapScore
    childCount := proof.childCount
    optimalMask := proof.optimalMask
    trapScoreMask := proof.trapScoreMask
    optimalTrapNibbles := proof.optimalTrapNibbles })

/-- One round of the loop in `assemble`. -/
def addRecord (found : List (SectorId × List PackedRecord) × List MidRemovalRecord)
    (e : MineEntry) : Option (List (SectorId × List PackedRecord) × List MidRemovalRecord) :=
  if isMidRemoval e then
    (midRecordFor context e).map fun record => (found.1, found.2 ++ [record])
  else
    (packedRecordFor context e).map fun record =>
      (Grouping.push record.1 record.2 found.1, found.2)

/-- The sort key of a sector. -/
def sectorKey (id : SectorId) : Nat ×ₗ Nat ×ₗ Nat ×ₗ Nat :=
  toLex (id.whiteOnBoard, toLex (id.blackOnBoard, toLex (id.whiteInHand, id.blackInHand)))

/-- A group of the hash map, sorted by slot. -/
def sectorGroup (entry : SectorId × List PackedRecord) : SectorGroup where
  sector := entry.1
  records := entry.2.insertionSort (fun a b => a.slot ≤ b.slot)

/-- `assemble`. -/
def assemble (midBlunderRecords : List MidRemovalRecord) (kept : List MineEntry) :
    Option (PatchFile Fingerprint) :=
  (kept.foldlM (addRecord context) ([], midBlunderRecords)).map fun found => {
    variantByte := context.variantByte
    fingerprint := context.fingerprint
    secvalBytes := context.secvalBytes
    sectors := ((context.listing.list found.1).map sectorGroup).insertionSort
      (fun a b => sectorKey a.sector ≤ sectorKey b.sector)
    midRemovalRecords := found.2.insertionSort (fun a b => a.key.toNat ≤ b.key.toNat) }

/-! ## The builder -/

/-- The blunders where a removal is owed, which have records of their own. -/
def midBlunders (entries : List MineEntry) : List MineEntry :=
  entries.filter fun e => isMidRemoval e && 0 < e.severity

/-- The entries that are ranked for the sectors. -/
def pooled (entries : List MineEntry) : List MineEntry :=
  entries.filter fun e => !isMidRemoval e || e.severity = 0

/-- The pool in the order in which it is kept. -/
def ranked (entries : List MineEntry) : List MineEntry :=
  (pooled entries).insertionSort fun a b => rank b ≤ rank a

/-- How many blunders are among the ranked entries. -/
def pooledBlunders (entries : List MineEntry) : Nat :=
  (ranked entries).countP fun e => 0 < e.severity

/-- What a budget that keeps the first `low` of the ranking drops. -/
def trimStats (entries : List MineEntry) (low : Nat) : BuildTrimStats :=
  let slice := ((ranked entries).take
    (min (max (pooledBlunders entries) low) (ranked entries).length)).drop low
  { keptRanked := low
    trimmedSteering := (ranked entries).length - max low (pooledBlunders entries)
    trimmedBlunders := slice.length
    trimmedBlunderMass := (slice.map MineEntry.mass).sum }

/-- `build_patch_file`. `fileLen` is the size of the file when it is compressed for a probe. -/
def buildPatchFile (fileLen : PatchFile Fingerprint → Nat) (entries : List MineEntry)
    (budgetBytes : Nat) (allowTrimBlunders : Bool) :
    Option (Except String (PatchFile Fingerprint × BuildTrimStats)) := do
  guard (entries.map MineEntry.key).Nodup
  let midBlunderRecords ← (midBlunders entries).mapM (midRecordFor context)
  let compressedLen := fun count =>
    (assemble context midBlunderRecords ((ranked entries).take count)).map fileLen
  -- a budget of 0 is none
  if budgetBytes = 0 then
    let file ← assemble context midBlunderRecords (ranked entries)
    return .ok (file, { keptRanked := (ranked entries).length })
  else
    let low ← PrefixSearch.search
      (fun count => (compressedLen count).map fun len => decide (len ≤ budgetBytes))
      (ranked entries).length 0 (ranked entries).length
    if low < pooledBlunders entries ∧ allowTrimBlunders = false then
      return .error s!"budget {budgetBytes} bytes only fits {low} of {pooledBlunders entries} blunder corrections (plus {midBlunderRecords.length} always-kept mid-removal blunder records); refusing to trim real corrections -- raise --budget-bytes or pass --allow-trim-blunders"
    else
      let floor ← (if low = 0 then compressedLen 0 else some 0)
      if budgetBytes < floor ∧ allowTrimBlunders = false then
        return .error s!"budget {budgetBytes} bytes cannot even hold the {midBlunderRecords.length} mid-removal blunder records; raise --budget-bytes or pass --allow-trim-blunders"
      else
        let file ← assemble context midBlunderRecords ((ranked entries).take low)
        return .ok (file, trimStats entries low)

end Sanmill.Pack
