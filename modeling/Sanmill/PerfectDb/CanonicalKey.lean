import Sanmill.PerfectDb.Hash

/-!
# Canonical keys of settled positions

A query is a position as the database sees it. It is folded so that the mover is the
sector's white side; sector and hash index together make the key. `none` stands for a
panic.
-/

namespace Sanmill.PerfectDb

/-- The numbers of pieces that name a sector. -/
structure SectorId where
  whiteOnBoard : Nat
  blackOnBoard : Nat
  whiteInHand : Nat
  blackInHand : Nat
  deriving DecidableEq, Repr

/-- `SectorId::new`: each number is at most 12. -/
def SectorId.new (whiteOnBoard blackOnBoard whiteInHand blackInHand : Nat) : Option SectorId := do
  guard (whiteOnBoard ≤ 12 ∧ blackOnBoard ≤ 12 ∧ whiteInHand ≤ 12 ∧ blackInHand ≤ 12)
  some {
    whiteOnBoard := whiteOnBoard
    blackOnBoard := blackOnBoard
    whiteInHand := whiteInHand
    blackInHand := blackInHand }

/-- A query, with what `PerfectQuery::new` asserts of it. -/
structure PerfectQuery where
  whiteBits : Nat
  blackBits : Nat
  whiteInHand : Nat
  blackInHand : Nat
  sideToMove : Nat
  onlyStoneTaking : Bool
  whiteBits_lt : whiteBits < 2 ^ 24
  blackBits_lt : blackBits < 2 ^ 24
  disjoint : whiteBits &&& blackBits = 0
  sideToMove_le : sideToMove ≤ 1
  whiteInHand_le : whiteInHand ≤ 12
  blackInHand_le : blackInHand ≤ 12
  deriving DecidableEq

/-- `PerfectQuery::new` with its assertions. -/
def PerfectQuery.new (whiteBits blackBits whiteInHand blackInHand sideToMove : Nat)
    (onlyStoneTaking : Bool) : Option PerfectQuery :=
  if h : whiteBits < 2 ^ 24 ∧ blackBits < 2 ^ 24 ∧ whiteBits &&& blackBits = 0 ∧ sideToMove ≤ 1 ∧
      whiteInHand ≤ 12 ∧ blackInHand ≤ 12 then
    some {
      whiteBits := whiteBits
      blackBits := blackBits
      whiteInHand := whiteInHand
      blackInHand := blackInHand
      sideToMove := sideToMove
      onlyStoneTaking := onlyStoneTaking
      whiteBits_lt := h.1
      blackBits_lt := h.2.1
      disjoint := h.2.2.1
      sideToMove_le := h.2.2.2.1
      whiteInHand_le := h.2.2.2.2.1
      blackInHand_le := h.2.2.2.2.2 }
  else
    none

/-- The sector and the board of a query, seen from the side to move. -/
def PerfectQuery.sectorAndBoard (query : PerfectQuery) : Option (SectorId × Nat) := do
  let whiteOnBoard := countOnes query.whiteBits
  let blackOnBoard := countOnes query.blackBits
  if query.sideToMove = 0 then
    let id ← SectorId.new whiteOnBoard blackOnBoard query.whiteInHand query.blackInHand
    some (id, query.whiteBits ||| (query.blackBits <<< 24))
  else
    let id ← SectorId.new blackOnBoard whiteOnBoard query.blackInHand query.whiteInHand
    some (id, query.blackBits ||| (query.whiteBits <<< 24))

/-! ## Packing -/

/-- `FIELD_BITS`. -/
def fieldBits : Nat := 8

/-- `SLOT_BITS`. -/
def slotBits : Nat := 64 - 4 * fieldBits

/-- `pack_canonical_key`: the numbers of the sector above the slot. -/
def packCanonicalKey (id : SectorId) (slot : Nat) : Option Nat := do
  guard (slot < 1 <<< slotBits)
  some ((id.whiteOnBoard <<< (slotBits + 3 * fieldBits)) |||
    (id.blackOnBoard <<< (slotBits + 2 * fieldBits)) |||
    (id.whiteInHand <<< (slotBits + fieldBits)) |||
    (id.blackInHand <<< slotBits) |||
    slot)

/-- `MID_REMOVAL_KEY_TAG` is this bit. -/
def midRemovalKeyBit : Nat := 63

/-- `unpack_canonical_key`: the sector and the slot of a key. -/
def unpackCanonicalKey (key : Nat) : Option (SectorId × Nat) := do
  let fieldMask := (1 <<< fieldBits) - 1
  let slotMask := (1 <<< slotBits) - 1
  let whiteOnBoard := (key >>> (slotBits + 3 * fieldBits)) &&& fieldMask
  let blackOnBoard := (key >>> (slotBits + 2 * fieldBits)) &&& fieldMask
  let whiteInHand := (key >>> (slotBits + fieldBits)) &&& fieldMask
  let blackInHand := (key >>> slotBits) &&& fieldMask
  let slot := key &&& slotMask
  let id ← SectorId.new whiteOnBoard blackOnBoard whiteInHand blackInHand
  some (id, slot)

/-! ## The hasher cache -/

/-- The hashers a plane cache holds: each was built for the sector it is filed under. -/
structure WdlPlaneCache where
  hashers : SectorId → Option PerfectHasher
  built : ∀ id hasher, hashers id = some hasher →
    PerfectHasher.new id.whiteOnBoard id.blackOnBoard = some hasher

/-- A cache with no hasher built yet. -/
def WdlPlaneCache.new : WdlPlaneCache where
  hashers := fun _ => none
  built := by
    intro id hasher h
    cases h

/-- `hashers.entry(id).or_insert_with(..)`. -/
def WdlPlaneCache.hasherFor (cache : WdlPlaneCache) (id : SectorId) :
    Option (PerfectHasher × WdlPlaneCache) :=
  match cache.hashers id with
  | some hasher => some (hasher, cache)
  | none =>
    match hnew : PerfectHasher.new id.whiteOnBoard id.blackOnBoard with
    | none => none
    | some hasher => some (hasher, {
        hashers := fun other => if other = id then some hasher else cache.hashers other
        built := by
          intro other hasher' h
          by_cases heq : other = id
          · rw [if_pos heq, Option.some_inj] at h
            rw [heq, ← h, hnew]
          · rw [if_neg heq] at h
            exact cache.built other hasher' h })

/-- `canonical_key_for_query`: the slot of the query in its sector, packed. -/
def WdlPlaneCache.canonicalKeyForQuery (cache : WdlPlaneCache) (query : PerfectQuery) :
    Option (Nat × WdlPlaneCache) := do
  let (id, board) ← query.sectorAndBoard
  let (hasher, cache) ← cache.hasherFor id
  let probe ← hasher.hashProbe board
  let key ← packCanonicalKey id probe.index
  some (key, cache)

end Sanmill.PerfectDb
