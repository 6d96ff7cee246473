import Sanmill.Mill.FenArithmetic
import Sanmill.Proof.Fen
import Sanmill.Proof.LivePieces

/-!
# When reading a position text leaves no type

A text is read without a panic, to a state with a move number that is not negative and counts
that can be added there and in all play from it, exactly if its full-move number and its counts
are small (`fenSafe_iff`). The full-move number may be any `i32` and the counts any `u8`, so not
every text is such.

The counts of a text need not be those of its board, and play adds to them. Only a placement does
(`sums_applied`), so the sum leaves `u8` exactly where a side may place a piece at 255. It never
gets there when board and hands together count 255 pieces at most (`FenSmall.of_sums`).
-/

namespace Sanmill

open Bits

variable {s t : MillState} {options : MillVariantOptions}

/-! ## The counts of the board -/

/-- The pieces the counts of a state put on the board. -/
def boardSum (s : MillState) : Nat := s.piecesOnBoard 0 + s.piecesOnBoard 1

/-- The pieces they put in the hands. -/
def handSum (s : MillState) : Nat := s.piecesInHand 0 + s.piecesInHand 1

/--
The counts of the board can be added. It is the one sum of counts in `u8`: the stalemate test
forms it, and `isAllSurrounded`, through which move generation and evaluation form it too.
-/
def SumsFit (s : MillState) : Prop := boardSum s ≤ 255

theorem checkedAddU8_eq (h : SumsFit s) :
    checkedAddU8 (s.piecesOnBoard 0) (s.piecesOnBoard 1)
      = some (s.piecesOnBoard 0 + s.piecesOnBoard 1) :=
  if_pos h

theorem checkedAddU8_none (h : ¬SumsFit s) :
    checkedAddU8 (s.piecesOnBoard 0) (s.piecesOnBoard 1) = none :=
  if_neg h

theorem isAllSurrounded?_fit (h : SumsFit s) (side : Int) :
    isAllSurrounded? s options side = some (isAllSurrounded s options side) := by
  unfold isAllSurrounded? isAllSurrounded
  rw [checkedAddU8_eq h]
  split
  · rfl
  · dsimp only [Option.bind_eq_bind, Option.bind_some]
    split
    · rfl
    · rename_i hfew
      split
      · rw [decide_eq_false hfew]
      · rfl

theorem isAllSurrounded?_eq_some {side : Int} {b : Bool}
    (h : isAllSurrounded? s options side = some b) : b = isAllSurrounded s options side := by
  by_cases hfit : SumsFit s
  · rw [isAllSurrounded?_fit hfit] at h
    exact (Option.some.inj h).symm
  · unfold isAllSurrounded? at h
    unfold isAllSurrounded
    split at h
    · rename_i hside
      rw [if_pos hside]
      exact (Option.some.inj h).symm
    · rw [checkedAddU8_none hfit] at h
      cases h

theorem isStalemated?_fit (h : SumsFit s) :
    isStalemated? s options = some (isStalemated s options) := by
  unfold isStalemated? isStalemated
  rw [checkedAddU8_eq h, isAllSurrounded?_fit h]
  split
  · rfl
  dsimp only [Option.bind_eq_bind, Option.bind_some]
  split
  · rfl
  by_cases hflies : (options.mayFly
      && decide (s.piecesOnBoard (sideIndex s.sideToMove) ≤ options.flyPieceCount)) = true
  · rw [if_pos hflies, hflies, Bool.true_and]
    split
    · rename_i hfew
      rw [if_pos (decide_eq_true hfew)]
    · rename_i hmany
      rw [if_neg (by rw [decide_eq_false hmany]; exact Bool.false_ne_true)]
  · rw [if_neg hflies, Bool.not_eq_true] at *
    rw [hflies]
    rfl

theorem isStalemated?_eq_some {b : Bool} (h : isStalemated? s options = some b) :
    b = isStalemated s options := by
  by_cases hfit : SumsFit s
  · rw [isStalemated?_fit hfit] at h
    exact (Option.some.inj h).symm
  · unfold isStalemated? at h
    unfold isStalemated
    split at h
    · rename_i hquiet
      rw [if_pos hquiet]
      exact (Option.some.inj h).symm
    rename_i hquiet
    rw [if_neg hquiet]
    dsimp only at h ⊢
    split at h
    · rename_i howes
      rw [if_pos howes]
      exact (Option.some.inj h).symm
    rename_i howes
    rw [if_neg howes]
    split at h
    · rw [checkedAddU8_none hfit] at h
      cases h
    · rename_i hflies
      rw [Bool.not_eq_true] at hflies
      rw [hflies]
      exact isAllSurrounded?_eq_some h

/-! ## The terminal checks -/

/-- A step of the terminal checks leaves the counts and the move number alone. -/
structure KeepsCounts (s t : MillState) : Prop where
  piecesOnBoard : t.piecesOnBoard = s.piecesOnBoard
  piecesInHand : t.piecesInHand = s.piecesInHand
  moveNumber : t.moveNumber = s.moveNumber

theorem KeepsCounts.trans {u : MillState} (h : KeepsCounts s t) (h' : KeepsCounts t u) :
    KeepsCounts s u :=
  ⟨h'.piecesOnBoard.trans h.piecesOnBoard, h'.piecesInHand.trans h.piecesInHand,
    h'.moveNumber.trans h.moveNumber⟩

theorem KeepsCounts.boardSum (h : KeepsCounts s t) : boardSum t = boardSum s := by
  unfold Sanmill.boardSum
  rw [h.piecesOnBoard]

theorem KeepsCounts.handSum (h : KeepsCounts s t) : handSum t = handSum s := by
  unfold Sanmill.handSum
  rw [h.piecesInHand]

theorem maybeFinishFullBoard_keepsCounts (s : MillState) (options : MillVariantOptions) :
    KeepsCounts s (maybeFinishFullBoard s options) := by
  rcases maybeFinishFullBoard_cases s options with
    h | ⟨-, -, ⟨winner, reason, -, h⟩ | ⟨first, owed, -, -, h⟩⟩ <;> rw [h] <;> exact ⟨rfl, rfl, rfl⟩

theorem maybeDrawByNMoveRule_keepsCounts (s : MillState) (options : MillVariantOptions)
    (adjudicate : Bool) : KeepsCounts s (maybeDrawByNMoveRule s options adjudicate) := by
  unfold maybeDrawByNMoveRule
  split
  · exact ⟨rfl, rfl, rfl⟩
  split
  · exact ⟨rfl, rfl, rfl⟩
  split <;> exact ⟨rfl, rfl, rfl⟩

theorem maybeHandleStalemate_keepsCounts (s : MillState) (options : MillVariantOptions) :
    KeepsCounts s (maybeHandleStalemate s options).1 := by
  unfold maybeHandleStalemate applyStalemateAction
  split
  · cases options.stalemateAction <;> exact ⟨rfl, rfl, rfl⟩
  · exact ⟨rfl, rfl, rfl⟩

theorem maybeHandleStalemate?_fit (h : SumsFit s) :
    maybeHandleStalemate? s options = some (maybeHandleStalemate s options) := by
  unfold maybeHandleStalemate? maybeHandleStalemate
  rw [isStalemated?_fit h]
  cases isStalemated s options <;> rfl

theorem maybeHandleStalemate?_eq_some {out : MillState × Bool}
    (h : maybeHandleStalemate? s options = some out) : out = maybeHandleStalemate s options := by
  unfold maybeHandleStalemate? at h
  obtain ⟨b, hb, hout⟩ := Option.bind_eq_some_iff.1 h
  obtain rfl := isStalemated?_eq_some hb
  unfold maybeHandleStalemate
  split at hout
  · rename_i hst
    rw [if_pos hst]
    exact (Option.some.inj hout).symm
  · rename_i hst
    rw [if_neg hst]
    exact (Option.some.inj hout).symm

theorem checkIfGameIsOver_keepsCounts (s : MillState) (options : MillVariantOptions) :
    KeepsCounts s (checkIfGameIsOver s options) := by
  have hfull := maybeFinishFullBoard_keepsCounts s options
  have hdraw := hfull.trans
    (maybeDrawByNMoveRule_keepsCounts (maybeFinishFullBoard s options) options true)
  unfold checkIfGameIsOver
  split
  · exact ⟨rfl, rfl, rfl⟩
  dsimp only
  split
  · exact hfull
  split
  · exact hdraw
  split
  · exact hdraw.trans ⟨rfl, rfl, rfl⟩
  · exact hdraw.trans (maybeHandleStalemate_keepsCounts _ options)

theorem SumsFit.kept (h : SumsFit s) (hkept : KeepsCounts s t) : SumsFit t :=
  hkept.boardSum.le.trans h

theorem checkIfGameIsOver?_fit (h : SumsFit s) :
    checkIfGameIsOver? s options = some (checkIfGameIsOver s options) := by
  have hdraw := (maybeFinishFullBoard_keepsCounts s options).trans
    (maybeDrawByNMoveRule_keepsCounts (maybeFinishFullBoard s options) options true)
  unfold checkIfGameIsOver? checkIfGameIsOver
  dsimp only
  rw [maybeHandleStalemate?_fit (h.kept hdraw)]
  split
  · rfl
  split
  · rfl
  split
  · rfl
  cases (if (maybeDrawByNMoveRule (maybeFinishFullBoard s options) options true).phase
    = .moving then
    shortSide? (maybeDrawByNMoveRule (maybeFinishFullBoard s options) options true) options
    else none) <;> rfl

theorem checkIfGameIsOver?_eq_some (h : checkIfGameIsOver? s options = some t) :
    t = checkIfGameIsOver s options := by
  unfold checkIfGameIsOver? at h
  unfold checkIfGameIsOver
  dsimp only at h ⊢
  -- the checked function takes the branches of the plain one, which is followed down
  split at h
  · rename_i hover
    rw [if_pos hover]
    exact (Option.some.inj h).symm
  rename_i hover
  rw [if_neg hover]
  split at h
  · rename_i hfull
    rw [if_pos hfull]
    exact (Option.some.inj h).symm
  rename_i hfull
  rw [if_neg hfull]
  split at h
  · rename_i hdraw
    rw [if_pos hdraw]
    exact (Option.some.inj h).symm
  rename_i hdraw
  rw [if_neg hdraw]
  generalize (if (maybeDrawByNMoveRule (maybeFinishFullBoard s options) options true).phase
    = .moving
    then shortSide? (maybeDrawByNMoveRule (maybeFinishFullBoard s options) options true) options
    else none) = short at h ⊢
  cases short with
  | some side => exact (Option.some.inj h).symm
  | none =>
    obtain ⟨out, hout, hfst⟩ := Option.map_eq_some_iff.1 h
    obtain rfl := maybeHandleStalemate?_eq_some hout
    exact hfst.symm

/-! ## The move number -/

/-- Twice a number, cut to 16 bits: even, and negative for half of the numbers. -/
theorem bmod_double (m : Int) :
    Int.bmod (2 * m) (2 ^ 16) % 2 = 0 ∧ -32768 ≤ Int.bmod (2 * m) (2 ^ 16)
      ∧ Int.bmod (2 * m) (2 ^ 16) ≤ 32766
      ∧ (0 ≤ Int.bmod (2 * m) (2 ^ 16) ↔ m % 2 ^ 15 < 2 ^ 14) := by
  rw [Int.bmod_def]
  split <;> omega

namespace FenRecord

variable {record : FenRecord}

/-- The ply number of the full-move number, in the width of the state. -/
def plyNumber (record : FenRecord) : BitVec 16 :=
  BitVec.ofInt 16 (2 * (record.fullMove - 1)) + (if record.side = 1 then 1 else 0)

/-- The sum with the ply of Black does not overflow, since the other summand is even. -/
theorem no_saddOverflow (record : FenRecord) :
    (BitVec.ofInt 16 (2 * (record.fullMove - 1))).saddOverflow
      (if record.side = 1 then 1 else 0) = false := by
  obtain ⟨heven, hlo, hhi, -⟩ := bmod_double (record.fullMove - 1)
  have hone : (1 : BitVec 16).toInt = 1 := by decide
  have hzero : (0 : BitVec 16).toInt = 0 := by decide
  unfold BitVec.saddOverflow
  rw [BitVec.toInt_ofInt, Bool.or_eq_false_iff, decide_eq_false_iff_not, decide_eq_false_iff_not]
  split
  · rw [hone]
    omega
  · rw [hzero]
    omega

theorem moveNumber?_eq (hlo : 1 ≤ record.fullMove) (hhi : record.fullMove ≤ i32Max) :
    record.moveNumber? = if record.fullMove ≤ 2 ^ 30 then some record.plyNumber else none := by
  have hmoves : checkedI32 (record.fullMove - 1) = some (record.fullMove - 1) := by
    unfold i32Max at hhi
    refine if_pos ⟨?_, ?_⟩
    · unfold i32Min
      omega
    · unfold i32Max
      omega
  unfold moveNumber?
  rw [hmoves]
  -- only the doubling can leave the range of an `i32`
  by_cases hsmall : record.fullMove ≤ 2 ^ 30
  · have hplies : checkedI32 (2 * (record.fullMove - 1)) = some (2 * (record.fullMove - 1)) := by
      refine if_pos ⟨?_, ?_⟩
      · unfold i32Min
        omega
      · unfold i32Max
        omega
    rw [if_pos hsmall]
    dsimp only [Option.bind_eq_bind, Option.bind_some]
    rw [hplies]
    dsimp only [Option.bind_some]
    -- the result is clamped to the `i16` of the snapshot
    rw [max_eq_left (by omega)]
    unfold checkedAddI16 plyNumber
    rw [no_saddOverflow]
    rfl
  · have hplies : checkedI32 (2 * (record.fullMove - 1)) = none := by
      refine if_neg fun h => ?_
      have hmax := h.2
      unfold i32Max at hmax
      omega
    rw [if_neg hsmall]
    dsimp only [Option.bind_eq_bind, Option.bind_some]
    rw [hplies]
    rfl

theorem plyNumber_nonneg_iff :
    0 ≤ record.plyNumber.toInt ↔ (record.fullMove - 1) % 2 ^ 15 < 2 ^ 14 := by
  obtain ⟨heven, -, -, hnonneg⟩ := bmod_double (record.fullMove - 1)
  have hone : (1 : BitVec 16).toInt = 1 := by decide
  have hzero : (0 : BitVec 16).toInt = 0 := by decide
  rw [← hnonneg]
  unfold plyNumber
  rw [BitVec.toInt_add_of_not_saddOverflow (by rw [no_saddOverflow]; exact Bool.false_ne_true),
    BitVec.toInt_ofInt]
  split
  · rw [hone]
    omega
  · rw [hzero, Int.add_zero]

end FenRecord

/-! ## Play -/

/-- The states of play from `s`: stored in a snapshot and read back, given another repetition
history, and moved on by the legal actions of a game or a search. -/
inductive LaterState (r : MillRules) (s : MillState) : MillState → Prop
  | start : LaterState r s s
  | reloaded {t : MillState} (h : LaterState r s t) :
      LaterState r s (MillState.decodeWithOptions (t.encode r.options) r.options)
  | rehydrated {t : MillState} (h : LaterState r s t) (keys : List Key) (len : Nat) :
      LaterState r s { t with keyHistory := keys, keyHistoryLen := len }
  | applied {t : MillState} {a : Action} (h : LaterState r s t) (ha : LegalAction t r.options a)
      (adjudicate : Bool) : LaterState r s (r.applyToStateUnchecked t a adjudicate)

theorem BoardKept.sums (h : BoardKept s t) : boardSum t = boardSum s ∧ handSum t ≤ handSum s := by
  unfold boardSum handSum
  rw [h.piecesOnBoard]
  exact ⟨rfl, Nat.add_le_add (h.hands 0) (h.hands 1)⟩

theorem sums_placePiece (r : MillRules) (s : MillState) (n : Node) (c : Side)
    (hhand : 0 < s.piecesInHand c) :
    boardSum (r.placePiece s n c) = boardSum s + 1
      ∧ handSum (r.placePiece s n c) < handSum s := by
  have hboard : (r.placePiece s n c).piecesOnBoard
      = setAt s.piecesOnBoard c (s.piecesOnBoard c + 1) := rfl
  have hhands : (r.placePiece s n c).piecesInHand
      = setAt s.piecesInHand c (s.piecesInHand c - 1) := rfl
  unfold boardSum handSum
  rw [hboard, hhands]
  obtain rfl | rfl : c = 0 ∨ c = 1 := Side.eq_or_eq_opponent 0 c
  · simp [setAt]
    omega
  · simp [setAt]
    omega

theorem Taken.sums {n : Node} (h : Taken s n t) :
    boardSum t ≤ boardSum s ∧ handSum t = handSum s := by
  have hless : ∀ c, setAt s.piecesOnBoard c (s.piecesOnBoard c - 1) 0
      + setAt s.piecesOnBoard c (s.piecesOnBoard c - 1) 1 ≤ boardSum s := by
    intro c
    unfold boardSum
    obtain rfl | rfl : c = 0 ∨ c = 1 := Side.eq_or_eq_opponent 0 c <;> simp [setAt]
  cases h with
  | cleared c => exact ⟨hless c, rfl⟩
  | marked c => exact ⟨hless c, rfl⟩

theorem LegalAction.hand_pos {n : Node} (h : LegalAction s options (placeAction n)) :
    0 < s.piecesInHand (sideIndex s.sideToMove) := by
  unfold LegalAction at h
  split at h
  · obtain ⟨-, target, hsame, -⟩ := h
    cases hsame
  · rcases h with ⟨target, -, hhand, -⟩ | ⟨-, source, target, hsame, -⟩
    · exact hhand
    · cases hsame
  · obtain ⟨-, source, target, hsame, -⟩ := h
    cases hsame
  · cases h

/-- **A placement brings a piece from the hand to the board; no other action adds to either.** -/
theorem sums_applied {r : MillRules} {a : Action} (ha : LegalAction s r.options a)
    (adjudicate : Bool) :
    ((∃ n, a = placeAction n) ∧ boardSum (r.applyToStateUnchecked s a adjudicate) = boardSum s + 1
        ∧ handSum (r.applyToStateUnchecked s a adjudicate) < handSum s)
      ∨ ((∀ n, a ≠ placeAction n)
        ∧ boardSum (r.applyToStateUnchecked s a adjudicate) ≤ boardSum s
        ∧ handSum (r.applyToStateUnchecked s a adjudicate) ≤ handSum s) := by
  obtain ⟨t, hmoved, hkept⟩ := applyToStateUnchecked_moved r ha.generated adjudicate
  obtain ⟨hboard, hhands⟩ := hkept.sums
  rw [hboard]
  cases hmoved with
  | place n =>
    obtain ⟨hplaced, hfewer⟩ := sums_placePiece r s n _ ha.hand_pos
    exact .inl ⟨⟨n, rfl⟩, hplaced, hhands.trans_lt hfewer⟩
  | move source target =>
    refine .inr ⟨fun n hsame => ?_, Nat.le_refl _, hhands⟩
    cases hsame
  | remove n t htaken =>
    obtain ⟨htook, hsame⟩ := htaken.sums
    refine .inr ⟨fun m hother => ?_, htook, hhands.trans hsame.le⟩
    cases hother

/-- A snapshot keeps a byte of each count. -/
theorem sums_reloaded (options : MillVariantOptions) (s : MillState) :
    boardSum (MillState.decodeWithOptions (s.encode options) options) ≤ boardSum s
      ∧ handSum (MillState.decodeWithOptions (s.encode options) options) ≤ handSum s := by
  have hbyte : ∀ value : Nat, (u8Byte value).toNat ≤ value := fun value => Nat.mod_le value _
  exact ⟨Nat.add_le_add (hbyte _) (hbyte _), Nat.add_le_add (hbyte _) (hbyte _)⟩

/-- No piece may be placed when the counts of the board have reached the end of `u8`. -/
def NoPlacementAtLimit (r : MillRules) (s : MillState) : Prop :=
  ∀ t, LaterState r s t → boardSum t = 255 → ∀ n, ¬LegalAction t r.options (placeAction n)

theorem LaterState.sumsFit {r : MillRules} (hlimit : NoPlacementAtLimit r s) (hs : SumsFit s)
    (h : LaterState r s t) : SumsFit t := by
  induction h with
  | start => exact hs
  | reloaded h ih => exact (sums_reloaded r.options _).1.trans ih
  | rehydrated h keys len ih => exact ih
  | applied h ha adjudicate ih =>
    rename_i t a
    unfold SumsFit at ih ⊢
    rcases sums_applied ha adjudicate with ⟨⟨n, rfl⟩, hplaced, -⟩ | ⟨-, hfewer, -⟩
    · have hroom : boardSum t ≠ 255 := fun hfull => hlimit t h hfull n ha
      omega
    · exact hfewer.trans ih

/-- Play makes no pieces. -/
theorem LaterState.sums_le {r : MillRules} (h : LaterState r s t) :
    boardSum t + handSum t ≤ boardSum s + handSum s := by
  induction h with
  | start => exact Nat.le_refl _
  | reloaded h ih =>
    obtain ⟨hboard, hhands⟩ := sums_reloaded r.options ‹MillState›
    omega
  | rehydrated h keys len ih => exact ih
  | applied h ha adjudicate ih =>
    rcases sums_applied ha adjudicate with ⟨-, hplaced, hfewer⟩ | ⟨-, hboard, hhands⟩ <;> omega

theorem noPlacementAtLimit_of_sums {r : MillRules} (h : boardSum s + handSum s ≤ 255) :
    NoPlacementAtLimit r s := by
  intro t ht hfull n hplace
  have hsums := ht.sums_le
  have hhand := hplace.hand_pos
  have hempty : handSum t = 0 := by omega
  unfold handSum at hempty
  obtain hside | hside : sideIndex t.sideToMove = 0 ∨ sideIndex t.sideToMove = 1 :=
    Side.eq_or_eq_opponent 0 _
  · rw [hside] at hhand
    omega
  · rw [hside] at hhand
    omega

/-! ## The text -/

/-- The property a text should have: it is read or refused, what is read is in range, and in all
play from it the counts of the board can be added. -/
structure FenSafe (r : MillRules) (fen : Text) : Prop where
  returns : setFromFen? r.options fen ≠ .error .panic
  moveNumber : ∀ s, setFromFen? r.options fen = .ok s → 0 ≤ s.moveNumber.toInt
  counts : ∀ s, setFromFen? r.options fen = .ok s → ∀ t, LaterState r s t → SumsFit t

/-- The state of a text whose move number is in range, before the terminal checks. -/
def FenRecord.checkedState (record : FenRecord) (fenBoard : FenBoard) (ext : FenExtensions)
    (options : MillVariantOptions) : MillState :=
  recomputeMobilityDiff
    ({ FenRecord.toState { record with ext := ext } fenBoard with
        moveNumber := record.plyNumber }).syncBitboardsFromBoard options

/-- A game that is over is ended. -/
def endIfOver (options : MillVariantOptions) (s : MillState) : MillState :=
  if s.phase = .gameOver then s else checkIfGameIsOver s options

theorem endIfOver_keepsCounts (options : MillVariantOptions) (s : MillState) :
    KeepsCounts s (endIfOver options s) := by
  unfold endIfOver
  split
  · exact ⟨rfl, rfl, rfl⟩
  · exact checkIfGameIsOver_keepsCounts s options

/--
The numbers of the text are small. The full-move number is doubled before the extension tokens
are read; its half is cut to 15 bits, of which one is the sign. The counts of the board are those
the text gives, and no play from its position comes to place a piece beyond the largest.
-/
def FenSmall (r : MillRules) (fen : Text) : Prop :=
  ∀ fenBoard record, readFenFields fen = .ok (fenBoard, record) →
    record.fullMove ≤ 2 ^ 30
      ∧ ∀ ext, readFenExtensions fen = .ok ext →
        (record.fullMove - 1) % 2 ^ 15 < 2 ^ 14
          ∧ record.piecesOnBoard 0 + record.piecesOnBoard 1 ≤ 255
          ∧ NoPlacementAtLimit r
              (endIfOver r.options (record.checkedState fenBoard ext r.options))

theorem parseFenFields_fullMove {fields : List Text} {idMode : FenIdMode} {record : FenRecord}
    (h : parseFenFields fields idMode = .ok record) :
    1 ≤ record.fullMove ∧ record.fullMove ≤ i32Max := by
  unfold parseFenFields at h
  simp only [Except.bind_ok_iff, Except.ok.injEq] at h
  obtain ⟨_, -, _, -, _, -, _, -, _, -, _, -, _, -, _, -, _, -, _, -, _, -, _, -, _, -, _, -, _, -,
    _, -, _, -, rfl⟩ := h
  have hrange : (parseI32 (fields.getD 16 [])).getD 1 ≤ i32Max := by
    cases hparse : parseI32 (fields.getD 16 []) with
    | none => decide
    | some n => exact (Text.parseSigned_range hparse).2
  exact ⟨le_max_right _ _, max_le hrange (by decide)⟩

theorem readFenFields_fullMove {fen : Text} {fenBoard : FenBoard} {record : FenRecord}
    (h : readFenFields fen = .ok (fenBoard, record)) :
    1 ≤ record.fullMove ∧ record.fullMove ≤ i32Max := by
  unfold readFenFields at h
  dsimp only at h
  split at h
  · cases h
  · obtain ⟨_, -, h⟩ := Except.bind_ok_iff.1 h
    obtain ⟨record', hrecord, heq⟩ := Except.bind_ok_iff.1 h
    cases heq
    exact parseFenFields_fullMove hrecord

/-- The pieces of the text, on the board and in the hands, need no more than a byte. -/
theorem FenSmall.of_sums {r : MillRules} {fen : Text}
    (h : ∀ fenBoard record, readFenFields fen = .ok (fenBoard, record) →
      record.fullMove ≤ 2 ^ 14
        ∧ record.piecesOnBoard 0 + record.piecesOnBoard 1
          + (record.piecesInHand 0 + record.piecesInHand 1) ≤ 255) :
    FenSmall r fen := by
  intro fenBoard record hfields
  obtain ⟨hmove, hsums⟩ := h fenBoard record hfields
  obtain ⟨hfirst, -⟩ := readFenFields_fullMove hfields
  refine ⟨by omega, fun ext _ => ⟨by omega, by omega, noPlacementAtLimit_of_sums ?_⟩⟩
  have hkept := endIfOver_keepsCounts r.options (record.checkedState fenBoard ext r.options)
  rw [hkept.boardSum, hkept.handSum]
  exact hsums

/-- The terminal checks that end the reading. -/
def finishFen (options : MillVariantOptions) (s : MillState) : Except (Fault String) MillState :=
  if s.phase = .gameOver then .ok s
  else (checkIfGameIsOver? s options).elim (.error .panic) .ok

theorem finishFen_fit (options : MillVariantOptions) (h : SumsFit s) :
    finishFen options s = .ok (endIfOver options s) := by
  unfold finishFen endIfOver
  rw [checkIfGameIsOver?_fit h]
  split <;> rfl

/-- What comes of the checks, where they return. -/
theorem finishFen_cases (options : MillVariantOptions) (s : MillState) :
    finishFen options s = .error .panic ∨ finishFen options s = .ok (endIfOver options s) := by
  unfold finishFen endIfOver
  split
  · exact .inr rfl
  · cases hcheck : checkIfGameIsOver? s options with
    | none => exact .inl rfl
    | some t =>
      rw [checkIfGameIsOver?_eq_some hcheck]
      exact .inr rfl

section Reading

variable {fen : Text} {fenBoard : FenBoard} {record : FenRecord} {ext : FenExtensions} {e : String}

theorem setFromFen?_refused (h : readFenFields fen = .error e) :
    setFromFen? options fen = .error (.error e) := by
  unfold setFromFen?
  rw [h]
  rfl

theorem setFromFen?_overflow (h : readFenFields fen = .ok (fenBoard, record))
    (hbig : ¬record.fullMove ≤ 2 ^ 30) : setFromFen? options fen = .error .panic := by
  obtain ⟨hlo, hhi⟩ := readFenFields_fullMove h
  have hnumber := FenRecord.moveNumber?_eq hlo hhi
  rw [if_neg hbig] at hnumber
  unfold setFromFen?
  rw [h]
  dsimp only [Except.mapError, bind, Except.bind]
  rw [hnumber]
  rfl

theorem setFromFen?_eq (options : MillVariantOptions)
    (h : readFenFields fen = .ok (fenBoard, record))
    (hsmall : record.fullMove ≤ 2 ^ 30) :
    setFromFen? options fen = match readFenExtensions fen with
      | .error e => .error (.error e)
      | .ok ext => finishFen options (record.checkedState fenBoard ext options) := by
  obtain ⟨hlo, hhi⟩ := readFenFields_fullMove h
  have hnumber := FenRecord.moveNumber?_eq hlo hhi
  rw [if_pos hsmall] at hnumber
  unfold setFromFen?
  rw [h]
  dsimp only [Except.mapError, bind, Except.bind]
  rw [hnumber]
  cases readFenExtensions fen <;> rfl

end Reading

/-- **A text is read safely exactly if its numbers are small.** -/
theorem fenSafe_iff (r : MillRules) (fen : Text) : FenSafe r fen ↔ FenSmall r fen := by
  constructor
  · intro h fenBoard record hfields
    by_cases hsmall : record.fullMove ≤ 2 ^ 30
    · refine ⟨hsmall, fun ext hext => ?_⟩
      have heq := setFromFen?_eq r.options hfields hsmall
      rw [hext] at heq
      rcases finishFen_cases r.options (record.checkedState fenBoard ext r.options) with
        hpanic | hread
      · exact absurd (heq.trans hpanic) h.returns
      · have hkept := endIfOver_keepsCounts r.options
          (record.checkedState fenBoard ext r.options)
        have hmove := h.moveNumber _ (heq.trans hread)
        have hfit := h.counts _ (heq.trans hread)
        rw [hkept.moveNumber] at hmove
        refine ⟨FenRecord.plyNumber_nonneg_iff.1 hmove, ?_, fun t ht hfull n hplace => ?_⟩
        · exact hkept.boardSum.symm.le.trans (hfit _ .start)
        · -- one placement more and the sum is 256
          have hnext := hfit _ (.applied ht hplace true)
          unfold SumsFit at hnext
          rcases sums_applied hplace true with ⟨-, hplaced, -⟩ | ⟨hother, -⟩
          · omega
          · exact hother n rfl
    · exact absurd (setFromFen?_overflow hfields hsmall) h.returns
  · intro h
    -- the text is refused, or what it describes goes through the checks
    have hout : (∃ e, setFromFen? r.options fen = .error (.error e))
        ∨ ∃ t, setFromFen? r.options fen = .ok t ∧ 0 ≤ t.moveNumber.toInt ∧ SumsFit t
          ∧ NoPlacementAtLimit r t := by
      cases hfields : readFenFields fen with
      | error e => exact .inl ⟨e, setFromFen?_refused hfields⟩
      | ok fields =>
        obtain ⟨hsmall, hext⟩ := h fields.1 fields.2 hfields
        have heq := setFromFen?_eq r.options hfields hsmall
        cases hread : readFenExtensions fen with
        | error e =>
          rw [hread] at heq
          exact .inl ⟨e, heq⟩
        | ok ext =>
          obtain ⟨hmove, hcounts, hlimit⟩ := hext ext hread
          have hfit : SumsFit (fields.2.checkedState fields.1 ext r.options) := hcounts
          have hkept := endIfOver_keepsCounts r.options
            (fields.2.checkedState fields.1 ext r.options)
          rw [hread] at heq
          refine .inr ⟨_, heq.trans (finishFen_fit r.options hfit), ?_, hfit.kept hkept, hlimit⟩
          rw [hkept.moveNumber]
          exact FenRecord.plyNumber_nonneg_iff.2 hmove
    rcases hout with ⟨e, he⟩ | ⟨t, ht, hmove, hfit, hlimit⟩
    · refine ⟨?_, ?_, ?_⟩
      · rw [he]
        intro hpanic
        cases hpanic
      · intro s hs
        rw [he] at hs
        cases hs
      · intro s hs
        rw [he] at hs
        cases hs
    · refine ⟨?_, ?_, ?_⟩
      · rw [ht]
        intro hpanic
        cases hpanic
      · intro s hs
        rw [ht] at hs
        obtain rfl := Except.ok.inj hs
        exact hmove
      · intro s hs u hu
        rw [ht] at hs
        obtain rfl := Except.ok.inj hs
        exact hu.sumsFit hlimit hfit

/-- A position of the moving phase at move 16386. -/
def lateFen : Text :=
  "O*O*O***/********/@*@*@*** w m s 3 0 3 0 0 0 -1 -1 -1 -1 0 0 16386 ids:nodes".toList

/-- **The ply number of a late move is read as a negative one.** -/
theorem lateFen_negative : ¬∀ (r : MillRules) (fen : Text), FenSafe r fen := by
  intro hall
  have hread : (setFromFen? {} lateFen).toOption.map (fun s => s.moveNumber.toInt)
      = some (-32766) := by decide +kernel
  obtain ⟨s, hs, hnumber⟩ := Option.map_eq_some_iff.1 hread
  have hok : setFromFen? {} lateFen = .ok s := by
    cases hout : setFromFen? {} lateFen with
    | error e =>
      rw [hout] at hs
      cases hs
    | ok t =>
      rw [hout] at hs
      exact congrArg Except.ok (Option.some.inj hs)
  have hnonneg := (hall ⟨{}, by decide⟩ lateFen).moveNumber s hok
  omega

end Sanmill
