import Sanmill.Proof.FastPath

/-!
# Snapshots carry the state

Decoding an encoded state gives it back, as far as the payload holds it: the
masks and the mobility term are derived again, the history is cut to its newest
24 keys, and the cached misc counter is read off the key. `reloaded` is what comes
out; `decode_encode` says so for every state whose fields are in range.
-/

namespace Sanmill

open Bits

/-! ## Bytes -/

theorem toNat_u8Byte {value : Nat} (h : value ≤ 255) : (u8Byte value).toNat = value := by
  unfold u8Byte
  rw [BitVec.toNat_ofNat]
  omega

theorem toInt_i8Byte {value : Int} (h : -128 ≤ value ∧ value ≤ 127) :
    (i8Byte value).toInt = value := by
  unfold i8Byte
  rw [BitVec.toInt_ofInt, Int.bmod_def]
  split <;> omega

theorem leBytes32 (v : BitVec 32) :
    leByte v 3 ++ leByte v 2 ++ leByte v 1 ++ leByte v 0 = v := by
  unfold leByte
  rw [BitVec.extractLsb'_append_extractLsb'_eq_extractLsb' (by rfl),
    BitVec.extractLsb'_append_extractLsb'_eq_extractLsb' (by rfl),
    BitVec.extractLsb'_append_extractLsb'_eq_extractLsb' (by rfl)]
  simp

theorem leBytes64 (v : BitVec 64) :
    (leByte v 7 ++ leByte v 6 ++ leByte v 5 ++ leByte v 4)
      ++ (leByte v 3 ++ leByte v 2 ++ leByte v 1 ++ leByte v 0) = v := by
  have hhigh : leByte v 7 ++ leByte v 6 ++ leByte v 5 ++ leByte v 4 = v.extractLsb' 32 32 := by
    unfold leByte
    rw [BitVec.extractLsb'_append_extractLsb'_eq_extractLsb' (by rfl),
      BitVec.extractLsb'_append_extractLsb'_eq_extractLsb' (by rfl),
      BitVec.extractLsb'_append_extractLsb'_eq_extractLsb' (by rfl)]
  have hlow : leByte v 3 ++ leByte v 2 ++ leByte v 1 ++ leByte v 0 = v.extractLsb' 0 32 := by
    unfold leByte
    rw [BitVec.extractLsb'_append_extractLsb'_eq_extractLsb' (by rfl),
      BitVec.extractLsb'_append_extractLsb'_eq_extractLsb' (by rfl),
      BitVec.extractLsb'_append_extractLsb'_eq_extractLsb' (by rfl)]
  rw [hhigh, hlow, BitVec.extractLsb'_append_extractLsb'_eq_extractLsb' (by rfl)]
  simp

theorem leBytes16 (v : BitVec 16) : leByte v 1 ++ leByte v 0 = v := by
  unfold leByte
  rw [BitVec.extractLsb'_append_extractLsb'_eq_extractLsb' (by rfl)]
  simp

/-! ## Fields of the payload -/

section Fields

variable (s : MillState)

theorem readI8_board (n : Node) : s.encodePayload.readI8 n = (i8Byte (s.board n)).toInt := by
  have hn := n.isLt
  unfold Payload.readI8 Payload.byte MillState.encodePayload MillState.encodeHead opaquePayloadLen
  rw [dif_pos (by omega)]
  simp [hn, show n.val < 44 by omega]

theorem perSide_self {α : Type} (f : Side → α) : perSide (f 0) (f 1) = f := by
  funext x
  rcases Side.eq_or_eq_opponent 0 x with rfl | rfl <;> rfl

theorem perSide_u8 {f : Side → Nat} (h : ∀ x, f x ≤ 255) :
    perSide (u8Byte (f 0)).toNat (u8Byte (f 1)).toNat = f := by
  rw [toNat_u8Byte (h 0), toNat_u8Byte (h 1), perSide_self]

theorem perSide_i8 {f : Side → Int} (h : ∀ x, -128 ≤ f x ∧ f x ≤ 127) :
    perSide (i8Byte (f 0)).toInt (i8Byte (f 1)).toInt = f := by
  rw [toInt_i8Byte (h 0), toInt_i8Byte (h 1), perSide_self]

theorem perSide_le32 (f : Side → Bitboard) :
    perSide (leByte (f 0) 3 ++ leByte (f 0) 2 ++ leByte (f 0) 1 ++ leByte (f 0) 0)
      (leByte (f 1) 3 ++ leByte (f 1) 2 ++ leByte (f 1) 1 ++ leByte (f 1) 0) = f := by
  rw [leBytes32, leBytes32, perSide_self]

/-! The window of the repetition history -/

theorem length_historyWindow : s.historyWindow.length ≤ millRepetitionSnapshotWindow := by
  unfold MillState.historyWindow newestKeys
  rw [List.length_drop]
  omega

/-- Byte `k` of the key in slot `slot` of the window. -/
theorem byte_window {slot k : Nat} (hslot : slot < millRepetitionSnapshotWindow) (hk : k < 8) :
    s.encodePayload.byte (44 + slot * 8 + k)
      = match s.historyWindow[slot]? with
        | some key => leByte key k
        | none => 0 := by
  unfold millRepetitionSnapshotWindow at hslot
  have hdiv : (44 + slot * 8 + k - 44) / 8 = slot := by omega
  have hmod : (44 + slot * 8 + k - 44) % 8 = k := by omega
  unfold Payload.byte MillState.encodePayload opaquePayloadLen
  rw [dif_pos (by omega)]
  simp only [hdiv, hmod]
  exact (if_neg (by omega)).trans (if_pos (by omega))

theorem readU64_window {slot : Nat} (hslot : slot < s.historyWindow.length) :
    s.encodePayload.readU64 (44 + slot * 8) = s.historyWindow[slot] := by
  have hlt : slot < millRepetitionSnapshotWindow :=
    lt_of_lt_of_le hslot (length_historyWindow s)
  have hbyte : ∀ k < 8, s.encodePayload.byte (44 + slot * 8 + k)
      = leByte s.historyWindow[slot] k := by
    intro k hk
    rw [byte_window s hlt hk, List.getElem?_eq_getElem hslot]
  unfold Payload.readU64 Payload.readU32
  rw [Nat.add_assoc (44 + slot * 8) 4 3, Nat.add_assoc (44 + slot * 8) 4 2,
    Nat.add_assoc (44 + slot * 8) 4 1, hbyte 7 (by omega), hbyte 6 (by omega),
    hbyte 5 (by omega), hbyte 4 (by omega), hbyte 3 (by omega), hbyte 2 (by omega),
    hbyte 1 (by omega)]
  have hzero := hbyte 0 (by omega)
  rw [Nat.add_zero] at hzero
  rw [hzero, leBytes64]

theorem readU8_windowLen :
    min (s.encodePayload.readU8 236) millRepetitionSnapshotWindow = s.historyWindow.length := by
  have hlen := length_historyWindow s
  have hbyte : s.encodePayload.readU8 236
      = (u8Byte (min s.historyWindow.length millRepetitionSnapshotWindow)).toNat := rfl
  unfold millRepetitionSnapshotWindow at hlen hbyte ⊢
  rw [hbyte, toNat_u8Byte (by omega)]
  omega

theorem decode_keyHistory :
    ((List.range s.historyWindow.length).map fun slot : Nat =>
      s.encodePayload.readU64 (44 + slot * 8)) = s.historyWindow := by
  refine List.ext_getElem (by simp) fun i h1 h2 => ?_
  rw [List.getElem_map, List.getElem_range, readU64_window s h2]

end Fields

/-! ## The round trip -/

/-- The fields of a state fit the bytes they are written to. -/
structure Encodable (s : MillState) : Prop where
  board : ∀ n, -128 ≤ s.board n ∧ s.board n ≤ 127
  piecesInHand : ∀ x, s.piecesInHand x ≤ 255
  piecesOnBoard : ∀ x, s.piecesOnBoard x ≤ 255
  pendingRemovals : ∀ x, s.pendingRemovals x ≤ 255
  winner : -128 ≤ s.winner ∧ s.winner ≤ 127
  lastMillFrom : ∀ x, -128 ≤ s.lastMillFrom x ∧ s.lastMillFrom x ≤ 127
  lastMillTo : ∀ x, -128 ≤ s.lastMillTo x ∧ s.lastMillTo x ≤ 127
  preferredRemoveTarget : -128 ≤ s.preferredRemoveTarget ∧ s.preferredRemoveTarget ≤ 127
  custodianCount : ∀ x, s.custodianCount x ≤ 255
  interventionCount : ∀ x, s.interventionCount x ≤ 255
  leapCount : ∀ x, s.leapCount x ≤ 255

/-- What a snapshot of the state is decoded to. -/
def reloaded (options : MillVariantOptions) (s : MillState) : MillState :=
  { s with
    byColorBb := bitboardsFromBoard s.board s.delayedMarkedPieces
    mobilityDiff := mobilityTerm
      { s.toMillPosition with byColorBb := bitboardsFromBoard s.board s.delayedMarkedPieces }
        options
    flags := { s.flags with
      zobristMiscCount := MillState.decodeMiscCount (s.encode options) }
    plySinceCapture := s.plySinceCapture % 65536
    keyHistory := s.historyWindow
    keyHistoryLen := s.historyWindow.length
    zobristKey := fullStateKey s }

theorem phase_fromTag (phase : MillPhase) : MillPhase.fromTag phase.toI16 = phase := by
  cases phase <;> rfl

theorem action_fromPayload (action : MillActionState) :
    MillActionState.fromPayload action.toU8 = action := by
  cases action <;> rfl

theorem outcomeReason_fromPayload (reason : MillOutcomeReason) :
    MillOutcomeReason.fromPayload reason.toU8 = reason := by
  cases reason <;> rfl

theorem flags_fromPayload (flags : MillStateFlags) (count : BitVec 2) :
    MillStateFlags.fromPayload flags.payloadBits count
      = { flags with zobristMiscCount := count } := by
  have hbits : ∀ b0 b1 b2 b3 b4 b5 : Bool,
      let byte : BitVec 8 := (if b0 then bit 8 0 else 0) ||| (if b1 then bit 8 1 else 0)
        ||| (if b2 then bit 8 2 else 0) ||| (if b3 then bit 8 3 else 0)
        ||| (if b4 then bit 8 4 else 0) ||| (if b5 then bit 8 5 else 0)
      testBit byte 0 = b0 ∧ testBit byte 1 = b1 ∧ testBit byte 2 = b2
        ∧ testBit byte 3 = b3 ∧ testBit byte 4 = b4 ∧ testBit byte 5 = b5 := by
    decide
  obtain ⟨h0, h1, h2, h3, h4, h5⟩ := hbits flags.millAvailableAtRemoval flags.stalemateRemoving
    flags.bothStalemateRemoving (flags.removeOwnPiece 0) (flags.removeOwnPiece 1)
    flags.boardFullRemoving
  unfold MillStateFlags.fromPayload MillStateFlags.payloadBits
  simp only [h0, h1, h2, h3, h4, h5, perSide_self]

/-- **Decoding an encoded state reloads it.** -/
theorem decode_encode (options : MillVariantOptions) {s : MillState} (h : Encodable s) :
    MillState.decodeWithOptions (s.encode options) options = reloaded options s := by
  let e := recomputeZobrist (recomputeMobilityDiff s.syncBitboardsFromBoard options)
  -- each field is read back from the bytes that it was written to
  have hboard : (fun node : Node => e.encodePayload.readI8 node) = s.board := by
    funext n
    rw [readI8_board]
    exact toInt_i8Byte (h.board n)
  have hmarks : e.encodePayload.readU32 39 = s.delayedMarkedPieces := leBytes32 _
  have hhand : perSide (e.encodePayload.readU8 24) (e.encodePayload.readU8 25) = s.piecesInHand :=
    perSide_u8 h.piecesInHand
  have honBoard : perSide (e.encodePayload.readU8 26) (e.encodePayload.readU8 27)
      = s.piecesOnBoard := perSide_u8 h.piecesOnBoard
  have hpending : perSide (e.encodePayload.readU8 28) (e.encodePayload.readU8 29)
      = s.pendingRemovals := perSide_u8 h.pendingRemovals
  have hwinner : e.encodePayload.readI8 30 = s.winner := toInt_i8Byte h.winner
  have hply : (e.encodePayload.byte 32 ++ e.encodePayload.byte 31).toNat
      = s.plySinceCapture % 65536 := by
    have hbytes : e.encodePayload.byte 32 ++ e.encodePayload.byte 31
        = BitVec.ofNat 16 s.plySinceCapture := leBytes16 _
    rw [hbytes, BitVec.toNat_ofNat]
  have hlastFrom : perSide (e.encodePayload.readI8 33) (e.encodePayload.readI8 253)
      = s.lastMillFrom := perSide_i8 h.lastMillFrom
  have hlastTo : perSide (e.encodePayload.readI8 34) (e.encodePayload.readI8 254)
      = s.lastMillTo := perSide_i8 h.lastMillTo
  have hused : e.encodePayload.readU32 35 = s.usedMillLines := leBytes32 _
  have hreason : MillOutcomeReason.fromPayload (e.encodePayload.byte 43) = s.outcomeReason :=
    outcomeReason_fromPayload s.outcomeReason
  have hformed : perSide (e.encodePayload.readU32 256) (e.encodePayload.readU32 260)
      = s.formedMillsBb := perSide_le32 _
  have hcustodian : perSide (e.encodePayload.readU32 237) (e.encodePayload.readU32 264)
      = s.custodianTargets := perSide_le32 _
  have hintervention : perSide (e.encodePayload.readU32 241) (e.encodePayload.readU32 268)
      = s.interventionTargets := perSide_le32 _
  have hleap : perSide (e.encodePayload.readU32 245) (e.encodePayload.readU32 272)
      = s.leapTargets := perSide_le32 _
  have hcustodianCount : perSide (e.encodePayload.readU8 249) (e.encodePayload.readU8 276)
      = s.custodianCount := perSide_u8 h.custodianCount
  have hinterventionCount : perSide (e.encodePayload.readU8 250) (e.encodePayload.readU8 277)
      = s.interventionCount := perSide_u8 h.interventionCount
  have hleapCount : perSide (e.encodePayload.readU8 251) (e.encodePayload.readU8 278)
      = s.leapCount := perSide_u8 h.leapCount
  have hpreferred : e.encodePayload.readI8 255 = s.preferredRemoveTarget :=
    toInt_i8Byte h.preferredRemoveTarget
  -- the ply counter loses its upper bits, which `reloaded` says
  have haction : MillActionState.fromPayload (e.encodePayload.byte 279) = s.action :=
    action_fromPayload s.action
  have hflags : ∀ count, MillStateFlags.fromPayload (e.encodePayload.byte 252) count
      = { s.flags with zobristMiscCount := count } := flags_fromPayload s.flags
  have hwindow : min (e.encodePayload.readU8 236) millRepetitionSnapshotWindow
      = s.historyWindow.length := readU8_windowLen e
  have hkeys : ((List.range s.historyWindow.length).map fun slot : Nat =>
      e.encodePayload.readU64 (44 + slot * 8)) = s.historyWindow := decode_keyHistory e
  have hencode : (s.encode options).opaquePayload = e.encodePayload := rfl
  unfold MillState.decodeWithOptions MillState.decode recomputeMobilityDiff
  simp only [hencode, hboard, hmarks, hhand, honBoard, hpending, hwinner, hply, hlastFrom,
    hlastTo, hused, hreason, hformed, hcustodian, hintervention, hleap, hcustodianCount,
    hinterventionCount, hleapCount, hpreferred, haction, hflags, hwindow, hkeys]
  have hphase : MillPhase.fromTag (s.encode options).phaseTag = s.phase := phase_fromTag s.phase
  rw [hphase]
  rfl

end Sanmill
