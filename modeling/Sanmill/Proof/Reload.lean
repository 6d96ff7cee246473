import Sanmill.Proof.CachedKey
import Sanmill.Proof.MoveOrder

/-!
# What a snapshot loses

A state of a game is stored and loaded again. The keys older than the window stay
behind; so does the misc counter, which is not written at all but read off the key. The
counter that comes back is the one the key holds, and a key of zero holds none: then it
is what the side to move owes.

Storing a loaded snapshot again gives the same bytes, whatever the counter. The key in
front of them is the same exactly when the counter is.
-/

namespace Sanmill

open Bits

variable {r : MillRules} {options : MillVariantOptions} {s : MillState} {c : Side} {a : Action}

/-! ## The mobility term fits its bytes -/

theorem mobilityOf_bounds (options : MillVariantOptions) (colorBb liveEmpty : Bitboard) :
    0 ≤ mobilityOf options colorBb liveEmpty ∧ mobilityOf options colorBb liveEmpty ≤ 768 := by
  have hfold : ∀ (nodes : List Node) (total : Int), 0 ≤ total →
      total ≤ nodes.foldl (fun total node =>
          total + (countOnes (neighborMaskFor node options.hasDiagonalLines &&& liveEmpty) : Int))
            total
        ∧ nodes.foldl (fun total node =>
          total + (countOnes (neighborMaskFor node options.hasDiagonalLines &&& liveEmpty) : Int))
            total
          ≤ total + 32 * nodes.length := by
    intro nodes
    induction nodes with
    | nil => intro total _; simp
    | cons node nodes ih =>
      intro total htotal
      have hcount := countOnes_le_width
        (neighborMaskFor node options.hasDiagonalLines &&& liveEmpty)
      have hrest := ih (total
        + (countOnes (neighborMaskFor node options.hasDiagonalLines &&& liveEmpty) : Int))
          (by omega)
      rw [List.foldl_cons, List.length_cons]
      push_cast
      omega
  have hlength : (maskNodes colorBb).length ≤ 24 := by
    unfold maskNodes
    exact (List.length_filter_le _ _).trans (by simp)
  have hmobility := hfold (maskNodes colorBb) 0 (le_refl 0)
  unfold mobilityOf
  omega

theorem mobilityTerm_bounds (position : MillPosition) (options : MillVariantOptions) :
    -768 ≤ mobilityTerm position options ∧ mobilityTerm position options ≤ 768 := by
  unfold mobilityTerm calculateMobilityDiff
  split
  · have hwhite := mobilityOf_bounds options (position.byColorBb 0)
      (~~~position.liveOccupiedBitboard &&& millBoardMask)
    have hblack := mobilityOf_bounds options (position.byColorBb 1)
      (~~~position.liveOccupiedBitboard &&& millBoardMask)
    simp only
    omega
  · omega

/-- The stored mobility term needs no refreshing. -/
theorem decode_encode_eq (options : MillVariantOptions) (h : Encodable s) :
    MillState.decode (s.encode options) = reloaded options s := by
  have hbounds : -768 ≤ (reloaded options s).mobilityDiff
      ∧ (reloaded options s).mobilityDiff ≤ 768 := mobilityTerm_bounds _ _
  have hbytes : (s.encode options).opaquePayload.readU32 280
      = BitVec.ofInt 32 (reloaded options s).mobilityDiff := leBytes32 _
  have hterm : ((s.encode options).opaquePayload.readU32 280).toInt
      = (reloaded options s).mobilityDiff := by
    rw [hbytes, BitVec.toInt_ofInt, Int.bmod_def]
    split <;> omega
  have hload := decode_encode options h
  unfold MillState.decodeWithOptions at hload
  -- the two loads differ in the mobility term only
  have hsame : (recomputeMobilityDiff (MillState.decode (s.encode options)) options).mobilityDiff
      = (MillState.decode (s.encode options)).mobilityDiff := by
    rw [hload]
    exact hterm.symm
  rw [← hload]
  unfold recomputeMobilityDiff at hsame ⊢
  simp only at hsame
  rw [hsame]

/-! ## Storing again -/

theorem newestKeys_idem (n : Nat) (history : List Key) :
    newestKeys n (newestKeys n history) = newestKeys n history := by
  unfold newestKeys
  rw [List.drop_drop, List.length_drop]
  congr 1
  omega

/-- The bytes of a snapshot do not depend on what it loses. -/
theorem payload_reloaded (options : MillVariantOptions) (s : MillState) :
    ((reloaded options s).encode options).opaquePayload = (s.encode options).opaquePayload := by
  let e := recomputeZobrist (recomputeMobilityDiff s.syncBitboardsFromBoard options)
  let e' := recomputeZobrist
    (recomputeMobilityDiff (reloaded options s).syncBitboardsFromBoard options)
  have hply : BitVec.ofNat 16 (s.plySinceCapture % 65536) = BitVec.ofNat 16 s.plySinceCapture := by
    apply BitVec.eq_of_toNat_eq
    simp
  have hhead : e'.encodeHead = e.encodeHead := by
    funext i
    show MillState.encodeHead { e with plySinceCapture := s.plySinceCapture % 65536 } i = _
    unfold MillState.encodeHead
    simp only [hply]
    rfl
  have hwindow : e'.historyWindow = e.historyWindow := by
    show newestKeys _ (newestKeys _ s.keyHistory) = newestKeys _ s.keyHistory
    exact newestKeys_idem _ _
  show e'.encodePayload = e.encodePayload
  unfold MillState.encodePayload
  rw [hhead, hwindow]
  rfl

theorem applyMisc_inj (key : Key) {count count' : BitVec 2} :
    applyMisc key count = applyMisc key count' ↔ count = count' := by
  constructor
  · intro h
    rw [← applyMisc_extract key count, h, applyMisc_extract]
  · rintro rfl
    rfl

attribute [ext] GameStateSnapshot

/-- **A loaded state is stored as before** exactly when the misc counter came back. -/
theorem encode_reloaded_iff (options : MillVariantOptions) (s : MillState) :
    (reloaded options s).encode options = s.encode options
      ↔ miscCount (reloaded options s) = miscCount s := by
  have hkeys : ((reloaded options s).encode options).zobristKey = (s.encode options).zobristKey
      ↔ miscCount (reloaded options s) = miscCount s := by
    show fullStateKey (reloaded options s) = fullStateKey s ↔ _
    rw [fullStateKey_eq, fullStateKey_eq]
    exact applyMisc_inj (keyAccumulator s)
  rw [← hkeys]
  constructor
  · intro h
    rw [h]
  · intro h
    exact GameStateSnapshot.ext rfl rfl rfl h (payload_reloaded options s)

/-! ## Along a game -/

/-- The inactivity counter stays a 16-bit number. -/
theorem applyToStateUnchecked_ply (h : StateInv r.options s) (ha : LegalAction s r.options a)
    (hply : s.plySinceCapture ≤ 65535) (adjudicate : Bool) :
    (r.applyToStateUnchecked s a adjudicate).plySinceCapture ≤ 65535 := by
  obtain ⟨c, hturn, hstep⟩ := h.legalStep ha
  obtain ⟨p, hwritten, hdone⟩ := applyGeneral_done r h hturn hstep adjudicate
  have hwrite : p.plySinceCapture ≤ 65535 := by
    cases hwritten with
    | place n => exact Nat.zero_le _
    | move source target history hsearch =>
      show (bumpPlySinceCapture _ r.options).plySinceCapture ≤ 65535
      unfold bumpPlySinceCapture
      simp only
      split
      · exact Nat.min_le_left _ _
      · exact hply
    | remove n mark k owed flags hmark => exact Nat.zero_le _
  have hgeneral : (r.applyGeneral s a adjudicate).plySinceCapture ≤ 65535 := by
    rw [hdone.keeps.plySinceCapture]
    exact hwrite
  rcases applyToStateUnchecked_cases r h hturn hstep adjudicate with
    ⟨⟨key, heq⟩, -⟩ | ⟨-, -, ⟨key, heq⟩, -, -⟩
  · rw [heq]
    exact hgeneral
  · rw [heq]
    exact hgeneral

/-- The states of a game: the initial one, and each one an action is applied to reach. -/
inductive InPlay (r : MillRules) : MillState → Prop
  | initial : InPlay r (initialMillState r)
  | applied {s : MillState} (h : Applied r s) : InPlay r s

theorem reloaded_ply (options : MillVariantOptions) (s : MillState) :
    (reloaded options s).plySinceCapture ≤ 65535 := by
  show s.plySinceCapture % 65536 ≤ 65535
  omega

theorem Reachable.ply {snap : GameStateSnapshot} (h : Reachable r snap) :
    (MillState.decodeWithOptions snap r.options).plySinceCapture ≤ 65535 := by
  obtain ⟨s, rfl, hs⟩ := h.encoded
  rw [decode_encode r.options hs.encodable]
  exact reloaded_ply r.options s

theorem SearchReachable.ply (h : SearchReachable r s) : s.plySinceCapture ≤ 65535 := by
  induction h with
  | load rootRepetitionHistory h hwb =>
    obtain ⟨-, -, keys, len, heq⟩ := buildWorkbench_eq hwb
    rw [heq]
    exact h.ply
  | doMove h ha ih => exact applyToStateUnchecked_ply h.inv ha ih false

/-- Real play and the search apply a legal action to a sound state. -/
theorem Applied.step (h : Applied r s) :
    ∃ (t : MillState) (a : Action) (adjudicate : Bool), StateInv r.options t
      ∧ t.plySinceCapture ≤ 65535 ∧ LegalAction t r.options a
      ∧ s = r.applyToStateUnchecked t a adjudicate := by
  cases h with
  | played history h ha =>
    rename_i snap a
    rw [mem_legalActions_iff] at ha
    obtain ⟨c, -, hstep⟩ := h.inv.legalStep ha
    obtain ⟨keys, len, hkeys⟩ := hydrate_cases r (MillState.decodeWithOptions snap r.options) snap
      history
    refine ⟨_, a, true, h.inv.withHistory keys len, h.ply, ha, ?_⟩
    unfold MillRules.applyToState
    rw [hstep.inBounds, if_pos rfl, hkeys]
  | searched h ha => exact ⟨_, _, false, h.inv, h.ply, ha, rfl⟩

theorem fullStateKey_initial (r : MillRules) : fullStateKey (initialMillState r) = 0 := by
  have hfields : fullStateKey (initialMillState r) = fullStateKey {} := rfl
  rw [hfields]
  decide +kernel

/-- The hands of a new game, read back from its snapshot. -/
example : (MillState.decode (MillRules.initialState ⟨{}, by decide⟩)).piecesInHand 0 = 9 := by
  decide +kernel

/-- A state of a game is sound, its counter fits its bytes and its key is current. -/
theorem InPlay.sound (h : InPlay r s) :
    StateInv r.options s ∧ s.plySinceCapture ≤ 65535 ∧ s.zobristKey = fullStateKey s := by
  cases h with
  | initial => exact ⟨initialMillState_inv r, Nat.zero_le _, (fullStateKey_initial r).symm⟩
  | applied h =>
    have hkey := zobristKey_eq_fullStateKey h
    obtain ⟨t, a, adjudicate, hinv, hply, ha, rfl⟩ := h.step
    exact ⟨applyToStateUnchecked_inv r hinv ha adjudicate,
      applyToStateUnchecked_ply hinv ha hply adjudicate, hkey⟩

theorem decodeMiscCount_encode (options : MillVariantOptions) (hkey : fullStateKey s ≠ 0) :
    MillState.decodeMiscCount (s.encode options) = miscCount s := by
  unfold MillState.decodeMiscCount
  rw [if_pos (show (s.encode options).zobristKey ≠ 0 from hkey)]
  exact applyMisc_extract _ _

/-- A key of zero holds a zero counter. -/
theorem miscCount_of_key_zero (hkey : fullStateKey s = 0) : miscCount s = 0 := by
  rw [fullStateKey_eq] at hkey
  rw [← applyMisc_extract (keyAccumulator s) (miscCount s), hkey]
  rfl

/-- The state without the keys older than the window, and with another misc counter. -/
def MillState.asStored (s : MillState) (count : BitVec 2) : MillState :=
  { s with
    flags := { s.flags with zobristMiscCount := count }
    keyHistory := s.historyWindow
    keyHistoryLen := s.historyWindow.length }

/-- **Loading a stored state of a game** gives it back but for the old keys and the counter. -/
theorem InPlay.decode_encode (h : InPlay r s) :
    MillState.decode (s.encode r.options)
      = s.asStored (MillState.decodeMiscCount (s.encode r.options)) := by
  obtain ⟨hinv, hply, hkey⟩ := h.sound
  rw [decode_encode_eq r.options hinv.encodable]
  have hmasks : bitboardsFromBoard s.board s.delayedMarkedPieces = s.byColorBb :=
    hinv.position.masks.symm
  have hmod : s.plySinceCapture % 65536 = s.plySinceCapture := by omega
  unfold reloaded MillState.asStored
  simp only [hmasks, ← hinv.position.mobility, hmod, ← hkey]

/-- **Storing a loaded snapshot of a game** gives it back exactly when the counter came back. -/
theorem Reachable.encode_decode_iff {snap : GameStateSnapshot} (h : Reachable r snap) :
    (MillState.decode snap).encode r.options = snap
      ↔ snap.zobristKey ≠ 0 ∨ miscCount (MillState.decode snap) = 0 := by
  obtain ⟨s, rfl, hs⟩ := h.encoded
  have hkey : (s.encode r.options).zobristKey = fullStateKey s := rfl
  rw [decode_encode_eq r.options hs.encodable, encode_reloaded_iff, hkey]
  by_cases hzero : fullStateKey s = 0
  · rw [miscCount_of_key_zero hzero]
    constructor
    · exact Or.inr
    · exact fun hcount => hcount.resolve_left (not_not.2 hzero)
  · refine ⟨fun _ => Or.inl hzero, fun _ => ?_⟩
    unfold miscCount
    by_cases hover : s.phase = .gameOver
    · rw [if_neg (not_not.2 hover),
        if_neg (not_not.2 (show (reloaded r.options s).phase = _ from hover))]
    · rw [if_pos hover, if_pos (show (reloaded r.options s).phase ≠ _ from hover)]
      show MillState.decodeMiscCount (s.encode r.options) = s.flags.zobristMiscCount
      rw [decodeMiscCount_encode r.options hzero]
      unfold miscCount
      rw [if_pos hover]

/--
**What a snapshot keeps.** Loading a stored state of a game gives back everything but the
keys older than the window and the misc counter, which comes back as the key holds it:
unchanged while the game runs, zero when it is over. Storing a reachable snapshot again
gives it back, unless its key is zero and the side to move owes a removal.
-/
theorem snapshot_roundTrip (r : MillRules) :
    (∀ s, InPlay r s →
      MillState.decode (s.encode r.options)
          = s.asStored (MillState.decodeMiscCount (s.encode r.options))
        ∧ (s.zobristKey ≠ 0 → MillState.decodeMiscCount (s.encode r.options)
          = if s.phase = .gameOver then 0 else s.flags.zobristMiscCount))
      ∧ ∀ snap, Reachable r snap →
        ((MillState.decode snap).encode r.options = snap
          ↔ snap.zobristKey ≠ 0 ∨ miscCount (MillState.decode snap) = 0) := by
  refine ⟨fun s h => ⟨h.decode_encode, fun hne => ?_⟩, fun snap h => h.encode_decode_iff⟩
  obtain ⟨-, -, hkey⟩ := h.sound
  rw [decodeMiscCount_encode r.options (hkey ▸ hne)]
  unfold miscCount
  by_cases hover : s.phase = .gameOver
  · rw [if_pos hover, if_neg (not_not.2 hover)]
  · rw [if_neg hover, if_pos hover]

/-! ## Two games that lose something -/

section Lost

/-- One removal short of ending the game, white completes two mills at once. -/
def doubleMillRules : MillRules :=
  ⟨{ mayRemoveMultiple := true, piecesAtLeastCount := 9 }, by decide⟩

def doubleMillLine : List Action := [0, 8, 7, 10, 2, 12, 3, 14, 1].map placeAction

/-- The first of the two removals wins the game, and the second stays owed. -/
def doubleMillEnd : MillState :=
  doubleMillRules.applyToState (doubleMillRules.hydrateRepetitionHistory
      (MillState.decodeWithOptions
        (playLine doubleMillRules doubleMillRules.initialState doubleMillLine)
        doubleMillRules.options)
      (playLine doubleMillRules doubleMillRules.initialState doubleMillLine) [])
    (removeAction 8) true

/-- Placed without a mill, both sides give up a piece of their own, white first. -/
def millCountsRules : MillRules :=
  ⟨{ millFormationActionInPlacingPhase := .removalBasedOnMillCounts }, by decide⟩

/-- After white's removal every piece key cancels out. -/
def millCountsLine : List Action :=
  [2, 1, 4, 3, 6, 8, 7, 10, 13, 11, 15, 12, 16, 14, 19, 17, 0, 22].map placeAction
    ++ [removeAction 0]

example : millCountsLine.length = 19 := by decide +kernel

theorem doubleMillEnd_inPlay : InPlay doubleMillRules doubleMillEnd :=
  .applied (.played [] (@Reachable.playLine _ _ .initial doubleMillLine (by decide +kernel))
    (by decide +kernel))

/-- The theorem at the end of that game, and at its beginning. -/
theorem snapshot_roundTrip_doubleMill :
    MillState.decode (doubleMillEnd.encode doubleMillRules.options) = doubleMillEnd.asStored 0
      ∧ (MillState.decode doubleMillRules.initialState).encode doubleMillRules.options
        = doubleMillRules.initialState := by
  obtain ⟨hload, hcount⟩ := (snapshot_roundTrip doubleMillRules).1 _ doubleMillEnd_inPlay
  have hzero := hcount (by decide +kernel)
  rw [if_pos (by decide +kernel)] at hzero
  rw [hzero] at hload
  exact ⟨hload, ((snapshot_roundTrip doubleMillRules).2 _ .initial).2 (Or.inr (by decide +kernel))⟩

theorem millCountsEnd_reachable : Reachable millCountsRules
    (playLine millCountsRules millCountsRules.initialState millCountsLine) :=
  Reachable.initial.playLine (by decide +kernel)

/-- The counter of a finished game is lost, and so is that of a game whose key is zero. -/
theorem snapshot_loses_misc :
    (InPlay doubleMillRules doubleMillEnd
        ∧ (MillState.decode (doubleMillEnd.encode doubleMillRules.options)).flags.zobristMiscCount
          ≠ doubleMillEnd.flags.zobristMiscCount)
      ∧ (Reachable millCountsRules
          (playLine millCountsRules millCountsRules.initialState millCountsLine)
        ∧ (MillState.decode
            (playLine millCountsRules millCountsRules.initialState millCountsLine)).encode
              millCountsRules.options
          ≠ playLine millCountsRules millCountsRules.initialState millCountsLine) := by
  refine ⟨⟨doubleMillEnd_inPlay, by decide +kernel⟩, millCountsEnd_reachable, fun hsame => ?_⟩
  have hkey := congrArg GameStateSnapshot.zobristKey hsame
  revert hkey
  decide +kernel

end Lost

end Sanmill
