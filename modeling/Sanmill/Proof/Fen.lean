import Sanmill.Lib.Fallible
import Sanmill.Mill.Fen
import Sanmill.Proof.Codec

/-!
# Reading a position text

`parseFenRecord` succeeds exactly when each field parses on its own: `Reads` lists the
fields, so a result about two texts compares them field by field. The terminal checks
at the end never touch the board or the counts.
-/

namespace Sanmill

variable {α β : Type}

theorem parseOr_eq_ok {parsed : Option α} {value : Text} {what : String} {a : α} :
    parseOr parsed value what = .ok a ↔ parsed = some a := by
  cases parsed with
  | none => simp [parseOr]
  | some b => simp [parseOr]

/-! ## The board field -/

theorem isFenPiece_iff (c : Char) :
    isFenPiece c = true ↔ c = 'O' ∨ c = '@' ∨ c = '*' ∨ c = 'X' := by
  unfold isFenPiece
  simp only [Bool.or_eq_true, decide_eq_true_eq]
  tauto

theorem utf8Size_fenPiece {c : Char} (h : isFenPiece c = true) : Char.utf8Size c = 1 := by
  rcases (isFenPiece_iff c).1 h with rfl | rfl | rfl | rfl <;> rfl

theorem fenPiece_ne_slash {c : Char} (h : isFenPiece c = true) : c ≠ '/' := by
  rcases (isFenPiece_iff c).1 h with rfl | rfl | rfl | rfl <;> decide

/-- Text of one-byte characters is as long in bytes as in characters. -/
theorem utf8Len_eq_length {text : Text} (h : ∀ c ∈ text, Char.utf8Size c = 1) :
    Text.utf8Len text = text.length := by
  unfold Text.utf8Len
  induction text with
  | nil => rfl
  | cons c rest ih =>
    rw [List.map_cons, List.sum_cons, h c List.mem_cons_self,
      ih fun d hd => h d (List.mem_cons_of_mem c hd), List.length_cons, Nat.add_comm]

theorem splitOn_joinRanks {chars : Text} (h : ∀ c ∈ chars, c ≠ '/') :
    (joinRanks chars).splitOn '/' = [chars.take 8, (chars.drop 8).take 8, chars.drop 16] := by
  have hjoin : joinRanks chars
      = ['/'].intercalate [chars.take 8, (chars.drop 8).take 8, chars.drop 16] := by
    unfold joinRanks
    rw [List.intercalate_cons_cons, List.intercalate_cons_cons, List.intercalate_singleton]
    simp
  have hnone : ∀ l ∈ [chars.take 8, (chars.drop 8).take 8, chars.drop 16], '/' ∉ l := by
    intro l hl hmem
    have hsub : ∀ c ∈ l, c ∈ chars := by
      intro c hc
      simp only [List.mem_cons, List.not_mem_nil, or_false] at hl
      rcases hl with rfl | rfl | rfl
      · exact List.mem_of_mem_take hc
      · exact List.mem_of_mem_drop (List.mem_of_mem_take hc)
      · exact List.mem_of_mem_drop hc
    exact h '/' (hsub '/' hmem) rfl
  rw [hjoin, List.splitOn_intercalate '/' hnone (List.cons_ne_nil _ _)]

theorem flatten_ranks (chars : Text) :
    [chars.take 8, (chars.drop 8).take 8, chars.drop 16].flatten = chars := by
  have hdrop : chars.drop 16 = (chars.drop 8).drop 8 := by rw [List.drop_drop]
  simp only [List.flatten_cons, List.flatten_nil, List.append_nil]
  rw [hdrop, List.take_append_drop, List.take_append_drop]

/-- A board of 24 pieces, written in ranks, is read. -/
theorem parseFenBoard_joinRanks {chars : Text} (hlen : chars.length = 24)
    (h : ∀ c ∈ chars, isFenPiece c = true) :
    parseFenBoard (joinRanks chars) = .ok (.ofChars chars) := by
  have hrank : ∀ l ∈ [chars.take 8, (chars.drop 8).take 8, chars.drop 16],
      Text.utf8Len l = 8 := by
    intro l hl
    have hsub : (∀ c ∈ l, c ∈ chars) ∧ l.length = 8 := by
      simp only [List.mem_cons, List.not_mem_nil, or_false] at hl
      rcases hl with rfl | rfl | rfl
      · exact ⟨fun c hc => List.mem_of_mem_take hc, by rw [List.length_take]; omega⟩
      · exact ⟨fun c hc => List.mem_of_mem_drop (List.mem_of_mem_take hc), by
          rw [List.length_take, List.length_drop]; omega⟩
      · exact ⟨fun c hc => List.mem_of_mem_drop hc, by rw [List.length_drop]; omega⟩
    rw [utf8Len_eq_length fun c hc => utf8Size_fenPiece (h c (hsub.1 c hc)), hsub.2]
  unfold parseFenBoard
  rw [splitOn_joinRanks fun c hc => fenPiece_ne_slash (h c hc)]
  dsimp only
  rw [if_neg (by
    rintro (hne | hany)
    · exact hne rfl
    · obtain ⟨l, hl, hne⟩ := List.any_eq_true.1 hany
      rw [hrank l hl] at hne
      exact absurd hne (by decide)), flatten_ranks,
    List.find?_eq_none.2 fun c hc => by simp [h c hc]]

theorem length_flatten_ranks {ranks : List Text} (hthree : ranks.length = 3)
    (height : ∀ l ∈ ranks, l.length = 8) : ranks.flatten.length = 24 := by
  match ranks, hthree with
  | [a, b, c], _ =>
    have ha := height a (by simp)
    have hb := height b (by simp)
    have hc := height c (by simp)
    simp [ha, hb, hc]

/-- A board that is read has 24 pieces. -/
theorem parseFenBoard_eq_ok {boardStr : Text} {fenBoard : FenBoard}
    (h : parseFenBoard boardStr = .ok fenBoard) :
    ((boardStr.splitOn '/').flatten).length = 24
      ∧ (∀ c ∈ (boardStr.splitOn '/').flatten, isFenPiece c = true)
      ∧ fenBoard = .ofChars (boardStr.splitOn '/').flatten := by
  unfold parseFenBoard at h
  dsimp only at h
  split at h
  · cases h
  · rename_i hshape
    push Not at hshape
    obtain ⟨hthree, hranks⟩ := hshape
    split at h
    · cases h
    · rename_i hfind
      have hpieces : ∀ c ∈ (boardStr.splitOn '/').flatten, isFenPiece c = true := by
        intro c hc
        have := List.find?_eq_none.1 hfind c hc
        simpa using this
      refine ⟨?_, hpieces, (Except.ok.inj h).symm⟩
      have hlen : ∀ l ∈ boardStr.splitOn '/', l.length = 8 := by
        intro l hl
        have hbytes : Text.utf8Len l = 8 := by
          by_contra hne
          exact hranks (List.any_eq_true.2 ⟨l, hl, by simpa using hne⟩)
        rw [← hbytes, utf8Len_eq_length fun c hc =>
          utf8Size_fenPiece (hpieces c (List.mem_flatten.2 ⟨l, hl, hc⟩))]
      exact length_flatten_ranks hthree hlen

theorem mem_joinRanks {chars : Text} {c : Char} (h : c ∈ joinRanks chars) :
    c = '/' ∨ c ∈ chars := by
  unfold joinRanks at h
  rcases List.mem_append.1 h with h | h
  · rcases List.mem_append.1 h with h | h
    · exact Or.inr (List.mem_of_mem_take h)
    · rcases List.mem_cons.1 h with h | h
      · exact Or.inl h
      · exact Or.inr (List.mem_of_mem_drop (List.mem_of_mem_take h))
  · rcases List.mem_cons.1 h with h | h
    · exact Or.inl h
    · exact Or.inr (List.mem_of_mem_drop h)

theorem isToken_joinRanks {chars : Text} (h : ∀ c ∈ chars, isFenPiece c = true) :
    Text.IsToken (joinRanks chars) := by
  refine ⟨by simp [joinRanks], fun c hc => ?_⟩
  rcases mem_joinRanks hc with rfl | hc
  · decide
  · rcases (isFenPiece_iff c).1 (h c hc) with rfl | rfl | rfl | rfl <;> decide

/-- A board field that is read contains no white space. -/
theorem isToken_of_parseFenBoard {boardStr : Text} {fenBoard : FenBoard}
    (h : parseFenBoard boardStr = .ok fenBoard) : Text.IsToken boardStr := by
  obtain ⟨hlen, hpieces, -⟩ := parseFenBoard_eq_ok h
  -- a board text is its rows with slashes between them
  have hjoin : boardStr = ['/'].intercalate (boardStr.splitOn '/') :=
    (List.intercalate_splitOn '/').symm
  have hmem : ∀ c ∈ boardStr, c = '/' ∨ c ∈ (boardStr.splitOn '/').flatten := by
    have hall : ∀ (ls : List Text), ∀ c ∈ ['/'].intercalate ls, c = '/' ∨ c ∈ ls.flatten := by
      intro ls
      induction ls with
      | nil => exact fun c hc => absurd hc List.not_mem_nil
      | cons l ls ih =>
        intro c hc
        cases ls with
        | nil =>
          rw [List.intercalate_singleton] at hc
          exact Or.inr (by simpa using hc)
        | cons m ms =>
          rw [List.intercalate_cons_cons] at hc
          rcases List.mem_append.1 hc with hc | hc
          · rcases List.mem_append.1 hc with hc | hc
            · exact Or.inr (List.mem_flatten.2 ⟨l, List.mem_cons_self, hc⟩)
            · exact Or.inl (List.mem_singleton.1 hc)
          · refine (ih c hc).imp id fun h => ?_
            rw [List.flatten_cons]
            exact List.mem_append_right l h
    intro c hc
    rw [hjoin] at hc
    exact hall _ c hc
  refine ⟨?_, fun c hc => ?_⟩
  · rintro rfl
    exact absurd hlen (by decide)
  · rcases hmem c hc with rfl | hc
    · decide
    · rcases (isFenPiece_iff c).1 (hpieces c hc) with rfl | rfl | rfl | rfl <;> decide

/-! ## The fields after the board -/

/-- Every field of the record is what its token says. -/
structure FenRecord.Reads (fields extensionTokens : List Text) (record : FenRecord) : Prop where
  side : parseFenSide (fields.getD 1 []) = .ok record.side
  phase : parseFenPhase (fields.getD 2 []) = .ok record.phase
  action : parseFenAction (fields.getD 3 []) = .ok record.action
  onBoardW : parseU8 (fields.getD 4 []) = .ok (record.piecesOnBoard 0)
  inHandW : parseU8 (fields.getD 5 []) = .ok (record.piecesInHand 0)
  onBoardB : parseU8 (fields.getD 6 []) = .ok (record.piecesOnBoard 1)
  inHandB : parseU8 (fields.getD 7 []) = .ok (record.piecesInHand 1)
  removeW : parseI8 (fields.getD 8 []) = .ok (record.signedRemove 0)
  removeB : parseI8 (fields.getD 9 []) = .ok (record.signedRemove 1)
  lastMillFromW : parseNodeId (fields.getD 10 []) (idModeFromExtensions extensionTokens)
    = .ok (record.lastMillFrom 0)
  lastMillToW : parseNodeId (fields.getD 11 []) (idModeFromExtensions extensionTokens)
    = .ok (record.lastMillTo 0)
  lastMillFromB : parseNodeId (fields.getD 12 []) (idModeFromExtensions extensionTokens)
    = .ok (record.lastMillFrom 1)
  lastMillToB : parseNodeId (fields.getD 13 []) (idModeFromExtensions extensionTokens)
    = .ok (record.lastMillTo 1)
  formedMills : ∃ raw, Text.parseUnsigned (2 ^ 64 - 1) (fields.getD 14 []) = some raw
    ∧ parseNodeBitboard (BitVec.ofNat 32 (raw / 2 ^ 32)) (idModeFromExtensions extensionTokens)
      = .ok (record.formedMillsBb 0)
    ∧ parseNodeBitboard (BitVec.ofNat 32 raw) (idModeFromExtensions extensionTokens)
      = .ok (record.formedMillsBb 1)
  rule50 : parseU16 (fields.getD 15 []) = .ok record.rule50
  fullMove : record.fullMove = max ((parseI32 (fields.getD 16 [])).getD 1) 1
  ext : extensionTokens.foldlM (parseExtension (idModeFromExtensions extensionTokens)) {}
    = .ok record.ext

theorem parseFenRecord_iff {fields extensionTokens : List Text} {record : FenRecord} :
    parseFenRecord fields extensionTokens = .ok record ↔ record.Reads fields extensionTokens := by
  unfold parseFenRecord
  simp only [Except.bind_ok_iff, parseOr_eq_ok, Except.ok.injEq]
  constructor
  · rintro ⟨side, h1, phase, h2, action, h3, onW, h4, inW, h5, onB, h6, inB, h7, rW, h8, rB, h9,
      fW, h10, fB, h12, tW, h11, tB, h13, raw, h14, mW, h14w, mB, h14b, rule, h15, ext, hext, rfl⟩
    exact ⟨h1, h2, h3, h4, h5, h6, h7, h8, h9, h10, h11, h12, h13, ⟨raw, h14, h14w, h14b⟩, h15, rfl,
      hext⟩
  · intro h
    obtain ⟨raw, hraw, hwhite, hblack⟩ := h.formedMills
    refine ⟨_, h.side, _, h.phase, _, h.action, _, h.onBoardW, _, h.inHandW, _, h.onBoardB, _,
      h.inHandB, _, h.removeW, _, h.removeB, _, h.lastMillFromW, _, h.lastMillFromB, _,
      h.lastMillToW, _, h.lastMillToB, raw, hraw, _, hwhite, _, hblack, _, h.rule50, _, h.ext, ?_⟩
    cases record
    have hfull := h.fullMove
    simp only at hfull ⊢
    simp only [perSide_self, hfull]

theorem getD_take {l : List Text} {n k : Nat} (h : k < n) :
    (l.take n).getD k [] = l.getD k [] := by
  rw [List.getD_eq_getElem?_getD, List.getD_eq_getElem?_getD, List.getElem?_take_of_lt h]

/-- Only the fields from the second to the seventeenth are looked at. -/
theorem parseFenRecord_congr {l l' extensionTokens : List Text}
    (h : ∀ k, 0 < k → k < 17 → l.getD k [] = l'.getD k []) :
    parseFenRecord l extensionTokens = parseFenRecord l' extensionTokens := by
  unfold parseFenRecord
  dsimp only
  rw [h 1 (by decide) (by decide), h 2 (by decide) (by decide), h 3 (by decide) (by decide),
    h 4 (by decide) (by decide), h 5 (by decide) (by decide), h 6 (by decide) (by decide),
    h 7 (by decide) (by decide), h 8 (by decide) (by decide), h 9 (by decide) (by decide),
    h 10 (by decide) (by decide), h 11 (by decide) (by decide), h 12 (by decide) (by decide),
    h 13 (by decide) (by decide), h 14 (by decide) (by decide), h 15 (by decide) (by decide),
    h 16 (by decide) (by decide)]

theorem FenRecord.reads_congr {l l' extensionTokens : List Text} {record : FenRecord}
    (h : ∀ k, 0 < k → k < 17 → l.getD k [] = l'.getD k []) :
    FenRecord.Reads l extensionTokens record ↔ FenRecord.Reads l' extensionTokens record := by
  rw [← parseFenRecord_iff, ← parseFenRecord_iff, parseFenRecord_congr h]

/-- The state before the terminal checks, with its derived fields. -/
def FenRecord.imported (record : FenRecord) (fenBoard : FenBoard) (options : MillVariantOptions) :
    MillState :=
  recomputeMobilityDiff (record.toState fenBoard).syncBitboardsFromBoard options

/-- The terminal checks leave a finished game alone. -/
theorem checkIfGameIsOver_of_over {s : MillState} (options : MillVariantOptions)
    (h : s.phase = .gameOver) : checkIfGameIsOver s options = s := by
  unfold checkIfGameIsOver
  rw [if_pos (Or.inl h)]

/-- **When a text is read, and to what.** -/
theorem setFromFen_eq_ok {options : MillVariantOptions} {fen : Text} {s : MillState} :
    setFromFen options fen = .ok s ↔
      17 ≤ (Text.splitWhitespace fen).length
        ∧ ∃ (fenBoard : FenBoard) (record : FenRecord),
          parseFenBoard ((Text.splitWhitespace fen).getD 0 []) = .ok fenBoard
          ∧ record.Reads (Text.splitWhitespace fen) ((Text.splitWhitespace fen).drop 17)
          ∧ checkIfGameIsOver (record.imported fenBoard options) options = s := by
  unfold setFromFen
  rw [Text.splitWhitespace_trim]
  -- `setFromFen` skips the final check where the game is over, and there the check does nothing
  have hcheck : ∀ t : MillState, (if t.phase = .gameOver then t else checkIfGameIsOver t options)
      = checkIfGameIsOver t options := by
    intro t
    split
    · rename_i hover
      exact (checkIfGameIsOver_of_over options hover).symm
    · rfl
  simp only [hcheck]
  by_cases hshort : (Text.splitWhitespace fen).length < 17
  · rw [if_pos hshort]
    constructor
    · intro h
      cases h
    · intro h
      omega
  · rw [if_neg hshort, getD_take (by decide)]
    have htake : ∀ {record : FenRecord} {l extensionTokens : List Text},
        FenRecord.Reads (l.take 17) extensionTokens record
          ↔ FenRecord.Reads l extensionTokens record :=
      FenRecord.reads_congr fun k _ hk => getD_take hk
    simp only [Except.bind_ok_iff, Except.ok.injEq, parseFenRecord_iff, htake]
    constructor
    · rintro ⟨fenBoard, hboard, record, hrecord, hs⟩
      exact ⟨by omega, fenBoard, record, hboard, hrecord, hs⟩
    · rintro ⟨-, fenBoard, record, hboard, hrecord, hs⟩
      exact ⟨fenBoard, hboard, record, hrecord, hs⟩

/-! ## What the terminal checks keep -/

/-- The board, the marks and the counts are as before, and a running game stays in its phase. -/
structure KeepsPosition (s t : MillState) : Prop where
  position : t.toMillPosition = s.toMillPosition
  phase : t.phase = s.phase ∨ t.phase = .gameOver

theorem KeepsPosition.refl (s : MillState) : KeepsPosition s s := ⟨rfl, Or.inl rfl⟩

theorem KeepsPosition.trans {s t u : MillState} (h1 : KeepsPosition s t)
    (h2 : KeepsPosition t u) : KeepsPosition s u where
  position := h2.position.trans h1.position
  phase := by
    rcases h2.phase with h | h
    · rw [h]
      exact h1.phase
    · exact Or.inr h

theorem maybeFinishFullBoard_keepsPosition (s : MillState) (options : MillVariantOptions) :
    KeepsPosition s (maybeFinishFullBoard s options) := by
  rcases maybeFinishFullBoard_cases s options
      with h | ⟨-, -, ⟨winner, reason, -, h⟩ | ⟨first, owed, -, -, h⟩⟩
  · rw [h]
    exact .refl s
  · rw [h]
    exact ⟨rfl, Or.inr rfl⟩
  · rw [h]
    exact ⟨rfl, Or.inl rfl⟩

theorem maybeDrawByNMoveRule_keepsPosition (s : MillState) (options : MillVariantOptions)
    (adjudicate : Bool) : KeepsPosition s (maybeDrawByNMoveRule s options adjudicate) := by
  unfold maybeDrawByNMoveRule
  split
  · exact .refl s
  · split
    · exact .refl s
    · split
      · exact ⟨rfl, Or.inr rfl⟩
      · exact .refl s

/-- Handing the turn over could move the phase; the other stalemate rules do not. -/
theorem maybeHandleStalemate_keepsPosition (s : MillState) {options : MillVariantOptions}
    (h : options.stalemateAction ≠ .changeSideToMove) :
    KeepsPosition s (maybeHandleStalemate s options).1 := by
  unfold maybeHandleStalemate
  split
  · cases haction : options.stalemateAction with
    | changeSideToMove => exact absurd haction h
    | endWithStalemateLoss =>
      simp only [applyStalemateAction, haction]
      exact ⟨rfl, Or.inr rfl⟩
    | endWithStalemateDraw =>
      simp only [applyStalemateAction, haction]
      exact ⟨rfl, Or.inr rfl⟩
    | removeOpponentsPieceAndMakeNextMove =>
      simp only [applyStalemateAction, haction]
      exact ⟨rfl, Or.inl rfl⟩
    | removeOpponentsPieceAndChangeSideToMove =>
      simp only [applyStalemateAction, haction]
      exact ⟨rfl, Or.inl rfl⟩
    | bothPlayersRemoveOpponentsPiece =>
      simp only [applyStalemateAction, haction]
      exact ⟨rfl, Or.inl rfl⟩
  · exact .refl s

theorem checkIfGameIsOver_keepsPosition (s : MillState) {options : MillVariantOptions}
    (h : options.stalemateAction ≠ .changeSideToMove) :
    KeepsPosition s (checkIfGameIsOver s options) := by
  unfold checkIfGameIsOver
  split
  · exact .refl s
  · have hfull := maybeFinishFullBoard_keepsPosition s options
    have hdraw := hfull.trans
      (maybeDrawByNMoveRule_keepsPosition (maybeFinishFullBoard s options) options true)
    dsimp only
    split
    · exact hfull
    · split
      · exact hdraw
      · split
        · exact hdraw.trans ⟨rfl, Or.inr rfl⟩
        · exact hdraw.trans (maybeHandleStalemate_keepsPosition _ h)

/-! ## What is read fits a snapshot -/

/-- A property every step of a fallible fold keeps. -/
theorem foldlM_invariant {ε : Type} {P : β → Prop} {f : β → α → Except ε β}
    (hstep : ∀ b a b', P b → f b a = .ok b' → P b') {l : List α} {b b' : β}
    (h : l.foldlM f b = .ok b') (hb : P b) : P b' := by
  induction l generalizing b with
  | nil =>
    rw [← Except.ok.inj h]
    exact hb
  | cons a l ih =>
    rw [List.foldlM_cons] at h
    obtain ⟨c, hc, h⟩ := Except.bind_ok_iff.1 h
    exact ih h (hstep b a c hb hc)

theorem parseU8_le {value : Text} {n : Nat} (h : parseU8 value = .ok n) : n ≤ 255 :=
  Text.parseUnsigned_le (parseOr_eq_ok.1 h)

theorem parseI8_range {value : Text} {n : Int} (h : parseI8 value = .ok n) :
    -128 ≤ n ∧ n ≤ 127 :=
  Text.parseSigned_range (parseOr_eq_ok.1 h)

/-- A node id is a node or `-1`. -/
theorem parseNodeId_range {value : Text} {mode : FenIdMode} {node : Int}
    (h : parseNodeId value mode = .ok node) : -1 ≤ node ∧ node < 24 := by
  cases mode with
  | legacySquares =>
    obtain ⟨legacy, -, h⟩ := Except.bind_ok_iff.1 h
    split at h
    · rw [← Except.ok.inj h]
      decide
    · split at h
      · rw [← Except.ok.inj h]
        omega
      · cases h
  | nodes =>
    obtain ⟨id, -, h⟩ := Except.bind_ok_iff.1 h
    split at h
    · rw [← Except.ok.inj h]
      omega
    · cases h

/-- The counts of a capture field are bytes. -/
def SmallCounts (field : CaptureField) : Prop := ∀ x, field.2 x ≤ 255

theorem parseCaptureSegment_small {mode : FenIdMode} {field field' : CaptureField} {segment : Text}
    (hfield : SmallCounts field) (h : parseCaptureSegment mode field segment = .ok field') :
    SmallCounts field' := by
  unfold parseCaptureSegment at h
  dsimp only at h
  split at h
  · split at h
    · cases h
    · have hdone : ∀ (side : Side) (targets : Bitboard) (count : Nat),
          (.ok (setAt field.1 side targets,
            setAt field.2 side (min (field.2 side + count) 255)) : Except String CaptureField)
            = .ok field' →
          SmallCounts field' := by
        intro side targets count hwrite x
        rw [← Except.ok.inj hwrite]
        change setAt field.2 side (min (field.2 side + count) 255) x ≤ 255
        by_cases hx : x = side
        · rw [hx, setAt_self]
          omega
        · rw [setAt_of_ne hx]
          exact hfield x
      -- every branch that writes a count clamps it to a byte
      split at h
      · obtain ⟨side, -, h⟩ := Except.bind_ok_iff.1 h
        split at h
        · cases h
        · obtain ⟨count, -, h⟩ := Except.bind_ok_iff.1 h
          obtain ⟨targets, -, h⟩ := Except.bind_ok_iff.1 h
          exact hdone side targets _ h
      · split at h
        · obtain ⟨side, -, h⟩ := Except.bind_ok_iff.1 h
          split at h
          · cases h
          · obtain ⟨count, -, h⟩ := Except.bind_ok_iff.1 h
            obtain ⟨targets, -, h⟩ := Except.bind_ok_iff.1 h
            exact hdone side targets _ h
        · obtain ⟨side, hside, -⟩ := Except.bind_ok_iff.1 h
          cases hside
  · cases h

theorem parseCaptureField_small {mode : FenIdMode} {field field' : CaptureField} {value : Text}
    (hfield : SmallCounts field) (h : parseCaptureField mode field value = .ok field') :
    SmallCounts field' :=
  foldlM_invariant (fun _ _ _ hb hstep => parseCaptureSegment_small hb hstep) h hfield

/-- What the extension tokens can carry. -/
structure FenExtensions.Small (ext : FenExtensions) : Prop where
  custodian : SmallCounts ext.custodian
  intervention : SmallCounts ext.intervention
  leap : SmallCounts ext.leap
  preferred : -1 ≤ ext.preferredRemoveTarget ∧ ext.preferredRemoveTarget < 24

theorem parseExtension_small {mode : FenIdMode} {ext ext' : FenExtensions} {token : Text}
    (hext : ext.Small) (h : parseExtension mode ext token = .ok ext') : ext'.Small := by
  unfold parseExtension at h
  split at h
  · obtain ⟨field, hfield, h⟩ := Except.bind_ok_iff.1 h
    rw [← Except.ok.inj h]
    exact { hext with custodian := parseCaptureField_small hext.custodian hfield }
  · obtain ⟨field, hfield, h⟩ := Except.bind_ok_iff.1 h
    rw [← Except.ok.inj h]
    exact { hext with intervention := parseCaptureField_small hext.intervention hfield }
  · obtain ⟨field, hfield, h⟩ := Except.bind_ok_iff.1 h
    rw [← Except.ok.inj h]
    exact { hext with leap := parseCaptureField_small hext.leap hfield }
  · obtain ⟨node, hnode, h⟩ := Except.bind_ok_iff.1 h
    rw [← Except.ok.inj h]
    exact { hext with preferred := parseNodeId_range hnode }
  · obtain ⟨flag, -, h⟩ := Except.bind_ok_iff.1 h
    rw [← Except.ok.inj h]
    exact { hext with }
  · rw [← Except.ok.inj h]
    exact hext

theorem FenRecord.Reads.small {fields extensionTokens : List Text} {record : FenRecord}
    (h : record.Reads fields extensionTokens) : record.ext.Small :=
  foldlM_invariant (fun _ _ _ hb hstep => parseExtension_small hb hstep) h.ext
    { custodian := fun _ => Nat.zero_le _
      intervention := fun _ => Nat.zero_le _
      leap := fun _ => Nat.zero_le _
      preferred := by decide }

theorem FenRecord.Reads.finalRemove_le {fields extensionTokens : List Text} {record : FenRecord}
    (h : record.Reads fields extensionTokens) (x : Side) : record.finalRemove x ≤ 255 := by
  have hsigned : (record.signedRemove x).natAbs ≤ 255 := by
    have h0 := parseI8_range h.removeW
    have h1 := parseI8_range h.removeB
    rcases Side.eq_or_eq_opponent 0 x with rfl | rfl
    · omega
    · have hone : Side.opponent 0 = 1 := rfl
      rw [hone]
      omega
  unfold FenRecord.finalRemove
  split
  · split <;> omega
  · exact hsigned

/-- The state of a record fits its snapshot. -/
theorem FenRecord.Reads.encodable {fields extensionTokens : List Text} {record : FenRecord}
    (h : record.Reads fields extensionTokens) (chars : Text) (options : MillVariantOptions) :
    Encodable (record.imported (.ofChars chars) options) := by
  have hsmall := h.small
  have hside : ∀ {f : Side → Int}, (-1 ≤ f 0 ∧ f 0 < 24) → (-1 ≤ f 1 ∧ f 1 < 24) →
      ∀ x, -128 ≤ f x ∧ f x ≤ 127 := by
    intro f h0 h1 x
    rcases Side.eq_or_eq_opponent 0 x with rfl | rfl
    · omega
    · have hone : Side.opponent 0 = 1 := rfl
      rw [hone]
      omega
  have hbyte : ∀ {f : Side → Nat}, f 0 ≤ 255 → f 1 ≤ 255 → ∀ x, f x ≤ 255 := by
    -- a pair of fields is one function of the side
    intro f h0 h1 x
    rcases Side.eq_or_eq_opponent 0 x with rfl | rfl
    · exact h0
    · exact h1
  exact
    { board := fun n => by
        change -128 ≤ fenPiece (chars.getD n.val '*') ∧ fenPiece (chars.getD n.val '*') ≤ 127
        unfold fenPiece
        split
        · decide
        · split <;> decide
      piecesInHand := hbyte (f := record.piecesInHand) (parseU8_le h.inHandW) (parseU8_le h.inHandB)
      piecesOnBoard := hbyte (f := record.piecesOnBoard) (parseU8_le h.onBoardW)
        (parseU8_le h.onBoardB)
      pendingRemovals := h.finalRemove_le
      winner := by
        change -128 ≤ (-1 : Int) ∧ (-1 : Int) ≤ 127
        decide
      lastMillFrom := hside (f := record.lastMillFrom) (parseNodeId_range h.lastMillFromW)
        (parseNodeId_range h.lastMillFromB)
      lastMillTo := hside (f := record.lastMillTo) (parseNodeId_range h.lastMillToW)
        (parseNodeId_range h.lastMillToB)
      preferredRemoveTarget := by
        have := hsmall.preferred
        change -128 ≤ record.ext.preferredRemoveTarget ∧ record.ext.preferredRemoveTarget ≤ 127
        omega
      custodianCount := hsmall.custodian
      interventionCount := hsmall.intervention
      leapCount := hsmall.leap }

/-! The terminal checks write small numbers only. -/

theorem Encodable.finishGame {s : MillState} (h : Encodable s) {winner : Int}
    (hwinner : -128 ≤ winner ∧ winner ≤ 127) (reason : MillOutcomeReason) :
    Encodable (finishGame s winner reason) :=
  { h with winner := hwinner }

theorem Encodable.owe {s : MillState} (h : Encodable s) (side : Side) {count : Nat}
    (hcount : count ≤ 255) : Encodable (s.setPendingRemovals side count) :=
  { h with
    pendingRemovals := fun x => by
      change setAt s.pendingRemovals side count x ≤ 255
      by_cases hx : x = side
      · rw [hx, setAt_self]
        exact hcount
      · rw [setAt_of_ne hx]
        exact h.pendingRemovals x }

theorem Encodable.clearCaptureState {s : MillState} (h : Encodable s) :
    Encodable s.clearCaptureState :=
  { h with
    custodianCount := fun _ => Nat.zero_le _
    interventionCount := fun _ => Nat.zero_le _
    leapCount := fun _ => Nat.zero_le _ }

/-- The active side of a running game, and the fields that fit their bytes. -/
structure Importable (s : MillState) : Prop where
  encodable : Encodable s
  side : 0 ≤ s.sideToMove ∧ s.sideToMove ≤ 1

theorem Importable.maybeFinishFullBoard {s : MillState} (h : Importable s)
    (options : MillVariantOptions) :
    Encodable (maybeFinishFullBoard s options)
      ∧ ((maybeFinishFullBoard s options).phase ≠ .gameOver →
        Importable (maybeFinishFullBoard s options)) := by
  rcases maybeFinishFullBoard_cases s options with
    hsame | ⟨-, -, ⟨winner, reason, hwinner, hend⟩ | ⟨first, owed, -, howed, harm⟩⟩
  · rw [hsame]
    exact ⟨h.encodable, fun _ => h⟩
  · rw [hend]
    exact ⟨h.encodable.finishGame (by omega) reason, fun hrun => absurd rfl hrun⟩
  · rw [harm]
    have hencodable : Encodable (armBoardFullRemovals s first owed) :=
      { h.encodable with
        pendingRemovals := fun x => by
          change owed x ≤ 255
          have := howed x
          omega }
    exact ⟨hencodable, fun _ => ⟨hencodable, ⟨first.toI8_nonneg, first.toI8_le_one⟩⟩⟩

theorem Importable.maybeHandleStalemate {s : MillState} (h : Importable s)
    (options : MillVariantOptions) : Encodable (maybeHandleStalemate s options).1 := by
  have hone : (1 : Nat) ≤ 255 := by decide
  unfold Sanmill.maybeHandleStalemate
  split
  · unfold applyStalemateAction
    cases options.stalemateAction with
    | endWithStalemateLoss =>
      refine { h.encodable with winner := ?_ }
      change -128 ≤ xorOne s.sideToMove ∧ xorOne s.sideToMove ≤ 127
      have := h.side
      unfold xorOne
      split <;> omega
    | changeSideToMove => exact { h.encodable with }
    | removeOpponentsPieceAndMakeNextMove =>
      exact { (h.encodable.owe _ hone).clearCaptureState with }
    | removeOpponentsPieceAndChangeSideToMove =>
      exact { (h.encodable.owe _ hone).clearCaptureState with }
    | endWithStalemateDraw =>
      refine { h.encodable with winner := ?_ }
      change -128 ≤ (2 : Int) ∧ (2 : Int) ≤ 127
      decide
    | bothPlayersRemoveOpponentsPiece =>
      exact { ((h.encodable.owe _ hone).owe _ hone).clearCaptureState with }
  · exact h.encodable

theorem Importable.checkIfGameIsOver {s : MillState} (h : Importable s)
    (options : MillVariantOptions) : Encodable (checkIfGameIsOver s options) := by
  obtain ⟨hfull, hrunning⟩ := h.maybeFinishFullBoard options
  have hopponent : ∀ c : Side, -128 ≤ c.opponent.toI8 ∧ c.opponent.toI8 ≤ 127 := by decide
  unfold Sanmill.checkIfGameIsOver
  dsimp only
  split
  · exact h.encodable
  · split
    · exact hfull
    · rename_i hrun
      have himportable := hrunning hrun
      rcases Sanmill.maybeDrawByNMoveRule_cases (Sanmill.maybeFinishFullBoard s options)
          options true
        with hsame | ⟨reason, hend⟩
      · rw [hsame, if_neg hrun]
        split
        · exact hfull.finishGame (hopponent _) _
        · exact himportable.maybeHandleStalemate options
      · have hover : (Sanmill.finishGame (Sanmill.maybeFinishFullBoard s options) 2 reason).phase
            = .gameOver := rfl
        rw [hend, if_pos hover]
        exact hfull.finishGame (by decide) reason

/-- **A state that is read fits a snapshot.** -/
theorem setFromFen_encodable {options : MillVariantOptions} {fen : Text} {s : MillState}
    (h : setFromFen options fen = .ok s) : Encodable s := by
  obtain ⟨-, fenBoard, record, hboard, hrecord, rfl⟩ := setFromFen_eq_ok.1 h
  obtain ⟨-, -, rfl⟩ := parseFenBoard_eq_ok hboard
  refine Importable.checkIfGameIsOver ⟨hrecord.encodable _ options, ?_⟩ options
  exact ⟨record.side.toI8_nonneg, record.side.toI8_le_one⟩

end Sanmill
