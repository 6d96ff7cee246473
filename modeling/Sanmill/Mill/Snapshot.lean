import Sanmill.Core.Action
import Sanmill.Mill.Evaluation
import Sanmill.Mill.Transitions

/-!
# Snapshots

`encode` writes a state into the 320-byte payload of a snapshot and `decode` reads
it back. Derived fields are refreshed on the way out: the masks, the mobility term
and the Zobrist key. The repetition history is cut to its newest 24 keys, and the
cached misc counter is not written at all: `decode` recovers it from the key.
-/

namespace Sanmill

open Bits

/-! ## Bytes -/

/-- Byte `k` of `to_le_bytes`. -/
def leByte {w : Nat} (value : BitVec w) (k : Nat) : BitVec 8 := value.extractLsb' (8 * k) 8

/-- `u8` and `i8` as a byte. -/
def u8Byte (value : Nat) : BitVec 8 := BitVec.ofNat 8 value
/-- The byte of an `i8`. -/
def i8Byte (value : Int) : BitVec 8 := BitVec.ofInt 8 value

/-- A byte of the payload, 0 behind its end. -/
def Payload.byte (payload : Payload) (offset : Nat) : BitVec 8 :=
  if h : offset < opaquePayloadLen then payload ⟨offset, h⟩ else 0

/-- `u32::from_le_bytes`. -/
def Payload.readU32 (payload : Payload) (offset : Nat) : BitVec 32 :=
  payload.byte (offset + 3) ++ payload.byte (offset + 2)
    ++ payload.byte (offset + 1) ++ payload.byte offset

/-- `u64::from_le_bytes`. -/
def Payload.readU64 (payload : Payload) (offset : Nat) : BitVec 64 :=
  payload.readU32 (offset + 4) ++ payload.readU32 offset

/-- `read_u8`: a byte without a sign. -/
def Payload.readU8 (payload : Payload) (offset : Nat) : Nat := (payload.byte offset).toNat
/-- `read_i8`: a byte with a sign. -/
def Payload.readI8 (payload : Payload) (offset : Nat) : Int := (payload.byte offset).toInt

/-- The byte of a reason. -/
def MillOutcomeReason.toU8 : MillOutcomeReason → BitVec 8
  | ongoing => 0
  | loseFewerThanThree => 1
  | drawNMoveRule => 2
  | drawFullBoard => 3
  | loseFullBoard => 4
  | drawThreefold => 5
  | loseNoLegalMoves => 6
  | drawStalemate => 7
  | drawFiftyMove => 8
  | drawEndgameFiftyMove => 9

/-- The reason of a byte; an unknown one is none. -/
def MillOutcomeReason.fromPayload (value : BitVec 8) : MillOutcomeReason :=
  if value = 1 then loseFewerThanThree
  else if value = 2 then drawNMoveRule
  else if value = 3 then drawFullBoard
  else if value = 4 then loseFullBoard
  else if value = 5 then drawThreefold
  else if value = 6 then loseNoLegalMoves
  else if value = 7 then drawStalemate
  else if value = 8 then drawFiftyMove
  else if value = 9 then drawEndgameFiftyMove
  else ongoing

/-- The phase of a `phase_tag`; an unknown tag is placing. -/
def MillPhase.fromTag (tag : Int) : MillPhase :=
  if tag = 0 then .ready else if tag = 2 then .moving else if tag = 3 then .gameOver else .placing

namespace MillStateFlags

/-- The flags in one byte. -/
def payloadBits (flags : MillStateFlags) : BitVec 8 :=
  let flagBit (enabled : Bool) (k : Nat) : BitVec 8 := if enabled then bit 8 k else 0
  flagBit flags.millAvailableAtRemoval 0 ||| flagBit flags.stalemateRemoving 1
    ||| flagBit flags.bothStalemateRemoving 2 ||| flagBit (flags.removeOwnPiece 0) 3
    ||| flagBit (flags.removeOwnPiece 1) 4 ||| flagBit flags.boardFullRemoving 5

/-- The flags of a byte. -/
def fromPayload (bits : BitVec 8) (miscCount : BitVec 2) : MillStateFlags where
  millAvailableAtRemoval := testBit bits 0
  stalemateRemoving := testBit bits 1
  bothStalemateRemoving := testBit bits 2
  removeOwnPiece := perSide (testBit bits 3) (testBit bits 4)
  boardFullRemoving := testBit bits 5
  zobristMiscCount := miscCount

end MillStateFlags

/-! ## Encoding -/

/-- The newest keys of a history, at most `n`. -/
def newestKeys (n : Nat) (history : List Key) : List Key := history.drop (history.length - n)

namespace MillState

/-- The serialized window of the repetition history. -/
def historyWindow (state : MillState) : List Key :=
  newestKeys millRepetitionSnapshotWindow state.keyHistory

/-- Bytes `0..44`. -/
def encodeHead (state : MillState) (i : Nat) : BitVec 8 :=
  if h : i < 24 then i8Byte (state.board ⟨i, h⟩)
  else if i = 24 then u8Byte (state.piecesInHand 0)
  else if i = 25 then u8Byte (state.piecesInHand 1)
  else if i = 26 then u8Byte (state.piecesOnBoard 0)
  else if i = 27 then u8Byte (state.piecesOnBoard 1)
  else if i = 28 then u8Byte (state.pendingRemovals 0)
  else if i = 29 then u8Byte (state.pendingRemovals 1)
  else if i = 30 then i8Byte state.winner
  else if i < 33 then leByte (BitVec.ofNat 16 state.plySinceCapture) (i - 31)
  else if i = 33 then i8Byte (state.lastMillFrom 0)
  else if i = 34 then i8Byte (state.lastMillTo 0)
  else if i < 39 then leByte state.usedMillLines (i - 35)
  else if i < 43 then leByte state.delayedMarkedPieces (i - 39)
  else state.outcomeReason.toU8

/-- Bytes `237..256`: white's captures, the flags and the remaining scalars. -/
def encodeMiddle (state : MillState) (i : Nat) : BitVec 8 :=
  if i < 241 then leByte (state.custodianTargets 0) (i - 237)
  else if i < 245 then leByte (state.interventionTargets 0) (i - 241)
  else if i < 249 then leByte (state.leapTargets 0) (i - 245)
  else if i = 249 then u8Byte (state.custodianCount 0)
  else if i = 250 then u8Byte (state.interventionCount 0)
  else if i = 251 then u8Byte (state.leapCount 0)
  else if i = 252 then state.flags.payloadBits
  else if i = 253 then i8Byte (state.lastMillFrom 1)
  else if i = 254 then i8Byte (state.lastMillTo 1)
  else i8Byte state.preferredRemoveTarget

/-- Bytes `256..320`: formed mills, black's captures, the action and the mobility term. -/
def encodeTail (state : MillState) (i : Nat) : BitVec 8 :=
  if i < 260 then leByte (state.formedMillsBb 0) (i - 256)
  else if i < 264 then leByte (state.formedMillsBb 1) (i - 260)
  else if i < 268 then leByte (state.custodianTargets 1) (i - 264)
  else if i < 272 then leByte (state.interventionTargets 1) (i - 268)
  else if i < 276 then leByte (state.leapTargets 1) (i - 272)
  else if i = 276 then u8Byte (state.custodianCount 1)
  else if i = 277 then u8Byte (state.interventionCount 1)
  else if i = 278 then u8Byte (state.leapCount 1)
  else if i = 279 then state.action.toU8
  else if i < 284 then leByte (BitVec.ofInt 32 state.mobilityDiff) (i - 280)
  else 0

/-- `MillState::encode`. The key window is bytes `44..236`, its length byte 236. -/
def encodePayload (state : MillState) : Payload := fun offset =>
  let i := offset.val
  if i < 44 then state.encodeHead i
  else if i < 236 then
    match state.historyWindow[(i - 44) / 8]? with
    | some key => leByte key ((i - 44) % 8)
    | none => 0
  else if i = 236 then u8Byte (min state.historyWindow.length millRepetitionSnapshotWindow)
  else if i < 256 then state.encodeMiddle i
  else state.encodeTail i

/-- `MillRules::encode`: refresh the derived fields and serialise. -/
def encode (state : MillState) (options : MillVariantOptions) : GameStateSnapshot :=
  let state := recomputeZobrist (recomputeMobilityDiff state.syncBitboardsFromBoard options)
  { sideToMove := state.sideToMove
    phaseTag := state.phase.toI16
    moveNumber := state.moveNumber
    zobristKey := state.zobristKey
    opaquePayload := state.encodePayload }

/-! ## Decoding -/

/-- The misc counter, read from the key, or from the pending count when there is no key. -/
def decodeMiscCount (snapshot : GameStateSnapshot) : BitVec 2 :=
  if snapshot.zobristKey ≠ 0 then snapshot.zobristKey.extractLsb' 30 2
  else if 0 ≤ snapshot.sideToMove ∧ snapshot.sideToMove ≤ 1 then
    (snapshot.opaquePayload.byte (28 + snapshot.sideToMove.toNat)).setWidth 2
  else 0

/-- `MillState::decode`. -/
def decode (snapshot : GameStateSnapshot) : MillState :=
  let payload := snapshot.opaquePayload
  let board : Node → Int := fun node => payload.readI8 node
  let historyLen := min (payload.readU8 236) millRepetitionSnapshotWindow
  let delayedMarkedPieces := payload.readU32 39
  { board := board
    byColorBb := bitboardsFromBoard board delayedMarkedPieces
    sideToMove := snapshot.sideToMove
    phase := MillPhase.fromTag snapshot.phaseTag
    action := MillActionState.fromPayload (payload.byte 279)
    moveNumber := snapshot.moveNumber
    piecesInHand := perSide (payload.readU8 24) (payload.readU8 25)
    piecesOnBoard := perSide (payload.readU8 26) (payload.readU8 27)
    mobilityDiff := (payload.readU32 280).toInt
    pendingRemovals := perSide (payload.readU8 28) (payload.readU8 29)
    flags := MillStateFlags.fromPayload (payload.byte 252) (decodeMiscCount snapshot)
    winner := payload.readI8 30
    outcomeReason := MillOutcomeReason.fromPayload (payload.byte 43)
    plySinceCapture := (payload.byte 32 ++ payload.byte 31).toNat
    lastMillFrom := perSide (payload.readI8 33) (payload.readI8 253)
    lastMillTo := perSide (payload.readI8 34) (payload.readI8 254)
    usedMillLines := payload.readU32 35
    delayedMarkedPieces := delayedMarkedPieces
    formedMillsBb := perSide (payload.readU32 256) (payload.readU32 260)
    custodianTargets := perSide (payload.readU32 237) (payload.readU32 264)
    interventionTargets := perSide (payload.readU32 241) (payload.readU32 268)
    leapTargets := perSide (payload.readU32 245) (payload.readU32 272)
    custodianCount := perSide (payload.readU8 249) (payload.readU8 276)
    interventionCount := perSide (payload.readU8 250) (payload.readU8 277)
    leapCount := perSide (payload.readU8 251) (payload.readU8 278)
    preferredRemoveTarget := payload.readI8 255
    keyHistory := (List.range historyLen).map fun slot => payload.readU64 (44 + slot * 8)
    keyHistoryLen := historyLen
    zobristKey := snapshot.zobristKey }

/-- `MillRules::decode_with_options`. -/
def decodeWithOptions (snapshot : GameStateSnapshot) (options : MillVariantOptions) : MillState :=
  recomputeMobilityDiff (decode snapshot) options

end MillState

end Sanmill
