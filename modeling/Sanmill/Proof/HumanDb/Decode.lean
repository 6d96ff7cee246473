import Sanmill.Proof.HumanDb.Key

/-!
# Decoding a key

A key that was produced is decoded to a text, and the text has that key. The decoded
board is the canonical one, which is its own canonical board; the counts are written
back as they were, and the phase is read as far as the key can tell.
-/

namespace Sanmill.HumanDb

open Orbit

/-- A character of a board string. -/
def IsBoardChar (c : Char) : Prop := c = 'W' ∨ c = 'B' ∨ c = '.'

theorem isBoardChar_boardChar (piece : Int) : IsBoardChar (boardChar piece) := by
  unfold IsBoardChar boardChar
  split
  · exact Or.inl rfl
  · split
    · exact Or.inr (Or.inl rfl)
    · exact Or.inr (Or.inr rfl)

/-- An image has the characters of the board. -/
theorem isBoardChar_imageOf {board : Node → Int} {s : Sym} {c : Char}
    (h : c ∈ imageOf s (nmmBoard24 board)) : IsBoardChar c := by
  obtain ⟨k, hk, rfl⟩ := List.getElem_of_mem h
  have hk24 : k < 24 := by rwa [length_imageOf] at hk
  have hget := getElem?_imageOf (length_nmmBoard24 board) s (symIndex (inverseSym s) ⟨k, hk24⟩)
  rw [symIndex_surjective, getElem?_nmmBoard24, List.getElem?_eq_getElem hk] at hget
  rw [Option.some.inj hget]
  exact isBoardChar_boardChar _

/-! ## The fields of a key -/

theorem splitOn_joinKey {canonical phase : Text} {side : Side} {w x y z : Nat}
    (hboard : ∀ c ∈ canonical, IsBoardChar c) (hphase : '|' ∉ phase) :
    (joinKey canonical (sideLetter side) phase (Text.decimal w) (Text.decimal x) (Text.decimal y)
        (Text.decimal z)).splitOn '|'
      = [canonical, sideLetter side, phase, Text.decimal w, Text.decimal x, Text.decimal y,
          Text.decimal z] := by
  have hdecimal : ∀ n, '|' ∉ Text.decimal n := fun n hmem =>
    absurd (Text.isDigit_of_mem_decimal hmem) (by decide)
  refine List.splitOn_intercalate '|' (fun l hl => ?_) (List.cons_ne_nil _ _)
  simp only [List.mem_cons, List.not_mem_nil, or_false] at hl
  rcases hl with rfl | rfl | rfl | rfl | rfl | rfl | rfl
  · intro hmem
    rcases hboard '|' hmem with h | h | h <;> exact absurd h (by decide)
  · rcases Side.eq_or_eq_opponent 0 side with rfl | rfl <;> decide
  · exact hphase
  · exact hdecimal _
  · exact hdecimal _
  · exact hdecimal _
  · exact hdecimal _

theorem handFromPlaced_decimal {hand : Nat} (h : hand ≤ 9) :
    handFromPlaced (Text.decimal (9 - hand)) = some hand := by
  unfold handFromPlaced
  rw [Text.parseUnsigned_decimal (by omega), Option.bind_some, if_pos (by omega)]
  exact congrArg some (by omega)

/-! ## The board of a key -/

/-- The piece a character of a key stands for in a text. -/
def keyPiece (c : Char) : Char := if c = 'W' then 'O' else if c = 'B' then '@' else '*'

theorem isFenPiece_keyPiece (c : Char) : isFenPiece (keyPiece c) = true := by
  unfold keyPiece
  split
  · rfl
  · split <;> rfl

theorem boardChar_keyPiece {c : Char} (h : IsBoardChar c) :
    boardChar (fenPiece (keyPiece c)) = c := by
  rcases h with rfl | rfl | rfl <;> rfl

/-- The writes of `keyBoard`. -/
def keyWrites (canonical : Text) : List (Nat × Char) :=
  (canonical.zip nmmPositionOrderNodes).map fun p => (p.2.val, keyPiece p.1)

def decodedBoard (canonical : Text) : Text := scatter (keyWrites canonical) (List.replicate 24 '*')

theorem keyBoard_eq {canonical : Text} (h : ∀ c ∈ canonical, IsBoardChar c) :
    keyBoard canonical = some (decodedBoard canonical) := by
  unfold keyBoard decodedBoard scatter keyWrites
  rw [List.foldl_map]
  refine foldlM_eq_pure (fun board p hp => ?_) _
  have hc : IsBoardChar p.1 := h p.1 (List.of_mem_zip hp).1
  rcases hc with hc | hc | hc <;> rw [hc] <;> rfl

theorem length_decodedBoard (canonical : Text) : (decodedBoard canonical).length = 24 := by
  unfold decodedBoard
  rw [length_scatter, List.length_replicate]

theorem isFenPiece_decodedBoard {canonical : Text} {c : Char} (h : c ∈ decodedBoard canonical) :
    isFenPiece c = true := by
  have hscatter : ∀ (writes : List (Nat × Char)) (init : Text),
      (∀ w ∈ writes, isFenPiece w.2 = true) → (∀ d ∈ init, isFenPiece d = true) →
      ∀ d ∈ scatter writes init, isFenPiece d = true := by
    intro writes
    induction writes with
    | nil => exact fun _ _ hinit => hinit
    | cons w writes ih =>
      intro init hw hinit d hd
      refine ih (init.set w.1 w.2) (fun v hv => hw v (List.mem_cons_of_mem w hv))
        (fun e he => ?_) d hd
      rcases List.mem_or_eq_of_mem_set he with he | rfl
      · exact hinit e he
      · exact hw w List.mem_cons_self
  refine hscatter _ _ (fun w hw => ?_) (fun d hd => ?_) c h
  · obtain ⟨p, -, rfl⟩ := List.mem_map.1 hw
    exact isFenPiece_keyPiece p.1
  · rw [List.eq_of_mem_replicate hd]
    rfl

/-- The decoded board holds the pieces of the key in node order. -/
theorem getElem?_decodedBoard {canonical : Text} (hlen : canonical.length = 24) (i : Node) :
    (decodedBoard canonical)[(orderNode i).val]? = (canonical[i.val]?).map keyPiece := by
  have hi : i.val < canonical.length := by
    rw [hlen]
    exact i.isLt
  have horder : i.val < nmmPositionOrderNodes.length := i.isLt
  have hnode : nmmPositionOrderNodes[i.val] = orderNode i := by
    unfold orderNode
    rw [List.getD_eq_getElem?_getD, List.getElem?_eq_getElem horder, Option.getD_some]
  rw [List.getElem?_eq_getElem hi, Option.map_some]
  refine getElem?_scatter ?_ ?_ (by
    rw [List.length_replicate]
    exact (orderNode i).isLt)
  -- the writes go to the nodes of the order, which are distinct
  · have hpositions : (keyWrites canonical).map Prod.fst
        = nmmPositionOrderNodes.map fun n : Node => n.val := by
      have hsnd : (canonical.zip nmmPositionOrderNodes).map Prod.snd = nmmPositionOrderNodes :=
        List.map_snd_zip (by
          rw [hlen]
          decide)
      calc (keyWrites canonical).map Prod.fst
          = ((canonical.zip nmmPositionOrderNodes).map Prod.snd).map (fun n : Node => n.val) := by
            unfold keyWrites
            rw [List.map_map, List.map_map]
            rfl
        _ = nmmPositionOrderNodes.map fun n : Node => n.val := by rw [hsnd]
    rw [hpositions]
    decide
  · refine List.mem_map.2 ⟨(canonical[i.val], orderNode i), ?_, rfl⟩
    rw [← hnode]
    exact List.mem_iff_getElem.2 ⟨i.val, by simp [hlen, nmmPositionOrderNodes], by simp⟩

/-- **Decoding gives the canonical board back.** -/
theorem nmmBoard24_decodedBoard {canonical : Text} (hlen : canonical.length = 24)
    (h : ∀ c ∈ canonical, IsBoardChar c) :
    nmmBoard24 (FenBoard.ofChars (decodedBoard canonical)).board = canonical := by
  refine board_ext (length_nmmBoard24 _) hlen 0 fun i => ?_
  rw [symIndex_zero, getElem?_nmmBoard24]
  have hi : i.val < canonical.length := by
    rw [hlen]
    exact i.isLt
  have hget := getElem?_decodedBoard hlen i
  rw [List.getElem?_eq_getElem hi, Option.map_some] at hget
  change some (boardChar (fenPiece ((decodedBoard canonical).getD (orderNode i).val '*'))) = _
  rw [List.getD_eq_getElem?_getD, hget, Option.getD_some, List.getElem?_eq_getElem hi,
    boardChar_keyPiece (h _ (List.getElem_mem hi))]

/-! ## The text of a key -/

/-- The side still places, as far as a key can tell. -/
def stillPlacing (side : Side) (state : MillState) : Bool :=
  state.phase = .placing || state.piecesInHand side > 0

/-- The tokens of the decoded text. -/
def decodedTokens (canonical : Text) (side : Side) (state : MillState) : List Text :=
  [joinRanks (decodedBoard canonical), sideToken side,
    if stillPlacing side state then ['p'] else ['m'],
    if stillPlacing side state then ['p'] else ['s'],
    Text.decimal (state.piecesOnBoard 0), Text.decimal (state.piecesInHand 0),
    Text.decimal (state.piecesOnBoard 1), Text.decimal (state.piecesInHand 1),
    "0".toList, "0".toList, "-1".toList, "-1".toList, "-1".toList, "-1".toList, "0".toList,
    "0".toList, "1".toList, "ids:nodes".toList]

theorem phaseForSide_eq (side : Side) (state : MillState) :
    phaseForSide state.phase (state.piecesInHand side) (state.piecesOnBoard side)
      = if stillPlacing side state then "place".toList
        else if state.piecesOnBoard side ≤ 3 then "fly".toList else "move".toList := by
  unfold phaseForSide stillPlacing
  simp only [Bool.or_eq_true, decide_eq_true_eq]

theorem fenFromStateKey_keyOf {canonical : Text} {side : Side} {state : MillState}
    (hlen : canonical.length = 24) (hboard : ∀ c ∈ canonical, IsBoardChar c)
    (hhand : ∀ x, state.piecesInHand x ≤ 9) (hon : ∀ x, state.piecesOnBoard x ≤ 255) :
    fenFromStateKey (keyOf canonical side state)
      = some (Text.joinBlank (decodedTokens canonical side state)) := by
  have hbytes : Text.utf8Len canonical = 24 := by
    rw [← hlen]
    refine utf8Len_eq_length fun c hc => ?_
    rcases hboard c hc with rfl | rfl | rfl <;> rfl
  unfold fenFromStateKey keyOf
  rw [splitOn_joinKey hboard (by
    rw [phaseForSide_eq]
    split
    · decide
    · split <;> decide), phaseForSide_eq]
  simp only [List.getD_cons_zero, List.getD_cons_succ, List.length_cons, List.length_nil, hbytes,
    Text.parseUnsigned_decimal (hon 0), Text.parseUnsigned_decimal (hon 1),
    handFromPlaced_decimal (hhand 0), handFromPlaced_decimal (hhand 1), keyBoard_eq hboard]
  unfold decodedTokens
  -- the letter of a phase is read back for the side to move only
  rcases Side.eq_or_eq_opponent 0 side with rfl | rfl
  · cases stillPlacing 0 state
    · by_cases hfly : state.piecesOnBoard 0 ≤ 3
      · simp only [hfly, if_true]
        rfl
      · simp only [hfly, if_false]
        rfl
    · rfl
  · cases stillPlacing (Side.opponent 0) state
    · by_cases hfly : state.piecesOnBoard (Side.opponent 0) ≤ 3
      · simp only [hfly, if_true]
        rfl
      · simp only [hfly, if_false]
        rfl
    · rfl

/-! ## Reading the text of a key -/

/-- What the decoded text says after its board. -/
def decodedRecord (side : Side) (state : MillState) : FenRecord where
  side := side
  phase := if stillPlacing side state then .placing else .moving
  action := if stillPlacing side state then .place else .select
  piecesOnBoard := state.piecesOnBoard
  piecesInHand := state.piecesInHand
  signedRemove _ := 0
  lastMillFrom _ := -1
  lastMillTo _ := -1
  formedMillsBb _ := 0
  rule50 := 0
  fullMove := 1
  ext := {}

theorem parseU8_decimal {n : Nat} (h : n ≤ 255) : parseU8 (Text.decimal n) = .ok n := by
  unfold parseU8
  rw [Text.parseUnsigned_decimal h]
  rfl

theorem decodedRecord_reads {canonical : Text} {side : Side} {state : MillState}
    (hhand : ∀ x, state.piecesInHand x ≤ 9) (hon : ∀ x, state.piecesOnBoard x ≤ 255) :
    (decodedRecord side state).Reads (decodedTokens canonical side state)
      ((decodedTokens canonical side state).drop 17) := by
  have hhand' : ∀ x, state.piecesInHand x ≤ 255 := fun x => (hhand x).trans (by decide)
  exact
    { side := by rcases Side.eq_or_eq_opponent 0 side with rfl | rfl <;> rfl
      phase := by
        unfold decodedTokens decodedRecord
        cases stillPlacing side state <;> rfl
      action := by
        unfold decodedTokens decodedRecord
        cases stillPlacing side state <;> rfl
      onBoardW := parseU8_decimal (hon 0)
      inHandW := parseU8_decimal (hhand' 0)
      onBoardB := parseU8_decimal (hon 1)
      inHandB := parseU8_decimal (hhand' 1)
      removeW := rfl
      removeB := rfl
      lastMillFromW := rfl
      lastMillToW := rfl
      lastMillFromB := rfl
      lastMillToB := rfl
      formedMills := ⟨0, rfl, rfl, rfl⟩
      rule50 := rfl
      fullMove := rfl
      ext := rfl }

theorem isToken_decodedTokens {canonical : Text} {side : Side} {state : MillState} :
    ∀ t ∈ decodedTokens canonical side state, Text.IsToken t := by
  have hletter : ∀ c : Char, Text.isWhitespace c = false → Text.IsToken [c] := fun c hc =>
    ⟨List.cons_ne_nil _ _, fun d hd => by rwa [List.mem_singleton.1 hd]⟩
  have hconst : ∀ t ∈ ["0".toList, "0".toList, "-1".toList, "-1".toList, "-1".toList, "-1".toList,
      "0".toList, "0".toList, "1".toList, "ids:nodes".toList], Text.IsToken t := by
    intro t ht
    have hall : (["0".toList, "0".toList, "-1".toList, "-1".toList, "-1".toList, "-1".toList,
        "0".toList, "0".toList, "1".toList, "ids:nodes".toList].all fun t : Text =>
          !t.isEmpty && t.all fun c => !Text.isWhitespace c) = true := by decide
    rw [List.all_eq_true] at hall
    have := hall t ht
    rw [Bool.and_eq_true, List.all_eq_true] at this
    exact ⟨by simpa using this.1, fun c hc => by simpa using this.2 c hc⟩
  -- eight fields of the state, then the constants
  have hsplit : decodedTokens canonical side state
      = [joinRanks (decodedBoard canonical), sideToken side,
          if stillPlacing side state then ['p'] else ['m'],
          if stillPlacing side state then ['p'] else ['s'],
          Text.decimal (state.piecesOnBoard 0), Text.decimal (state.piecesInHand 0),
          Text.decimal (state.piecesOnBoard 1), Text.decimal (state.piecesInHand 1)]
        ++ ["0".toList, "0".toList, "-1".toList, "-1".toList, "-1".toList, "-1".toList,
          "0".toList, "0".toList, "1".toList, "ids:nodes".toList] := rfl
  intro t ht
  rw [hsplit] at ht
  rcases List.mem_append.1 ht with ht | ht
  · simp only [List.mem_cons, List.not_mem_nil, or_false] at ht
    rcases ht with rfl | rfl | rfl | rfl | rfl | rfl | rfl | rfl
    · exact isToken_joinRanks fun c hc => isFenPiece_decodedBoard hc
    · rcases Side.eq_or_eq_opponent 0 side with rfl | rfl
      · exact hletter 'w' (by decide)
      · exact hletter 'b' (by decide)
    · split
      · exact hletter 'p' (by decide)
      · exact hletter 'm' (by decide)
    · split
      · exact hletter 'p' (by decide)
      · exact hletter 's' (by decide)
    · exact Text.isToken_decimal _
    · exact Text.isToken_decimal _
    · exact Text.isToken_decimal _
    · exact Text.isToken_decimal _
  · exact hconst t ht

/-- What counts as accepted fits the key. -/
theorem countError?_eq_none {state : MillState} (h : countError? state = none) :
    ∀ x, state.piecesInHand x ≤ 9 := by
  unfold countError? at h
  rw [List.findSome?_eq_none_iff] at h
  intro x
  have := h x (by
    rcases Side.eq_or_eq_opponent 0 x with rfl | rfl <;> decide)
  split at this
  · exact absurd this (by simp)
  · omega

theorem piecesOnBoard_le {fields extensionTokens : List Text} {record : FenRecord}
    (h : record.Reads fields extensionTokens) : ∀ x, record.piecesOnBoard x ≤ 255 := by
  intro x
  rcases Side.eq_or_eq_opponent 0 x with rfl | rfl
  · exact Text.parseUnsigned_le (parseOr_eq_ok.1 h.onBoardW)
  · exact Text.parseUnsigned_le (parseOr_eq_ok.1 h.onBoardB)

/-- **A key is decoded to a text with that key.** -/
theorem stateKeyFromFen_decode {fen key : Text} {n : Nat}
    (h : stateKeyFromFen fen = some (.ok (key, n))) :
    ∃ g, fenFromStateKey key = some g ∧ ∃ m, stateKeyFromFen g = some (.ok (key, m)) := by
  obtain ⟨side, state, canonical, hside, hstate, hcount, hcanonical, rfl⟩ :=
    stateKeyFromFen_eq_ok.1 h
  obtain ⟨fenBoard, record, -, hrecord, -, -, hon, -⟩ := setFromFen_material hstate
  have hhands := countError?_eq_none hcount
  have hons : ∀ x, state.piecesOnBoard x ≤ 255 := by
    rw [hon]
    exact piecesOnBoard_le hrecord
  obtain ⟨c, s, hc, himage, -⟩ := canonicalBoardStr_spec (length_nmmBoard24 state.board)
  rw [hc] at hcanonical
  have hcc : c = canonical := congrArg Prod.fst (Option.some.inj hcanonical)
  have hboard : ∀ ch ∈ canonical, IsBoardChar ch := fun ch hch =>
    isBoardChar_imageOf (by rwa [← himage, hcc])
  obtain ⟨hlen, m, hm⟩ := canonicalBoardStr_canonical (length_nmmBoard24 state.board)
    (hc.trans (by rw [hcc]))
  refine ⟨_, fenFromStateKey_keyOf hlen hboard hhands hons, m, ?_⟩
  -- the text made from the key parses: its board and each of its fields were written in their form
  have htokens := Text.splitWhitespace_joinBlank
    (@isToken_decodedTokens canonical side state)
  have hparse : parseFenBoard (joinRanks (decodedBoard canonical))
      = .ok (.ofChars (decodedBoard canonical)) :=
    parseFenBoard_joinRanks (length_decodedBoard canonical) fun _ hch => isFenPiece_decodedBoard hch
  have hread : setFromFen {} (Text.joinBlank (decodedTokens canonical side state))
      = .ok (checkIfGameIsOver ((decodedRecord side state).imported
          (.ofChars (decodedBoard canonical)) {}) {}) := by
    refine setFromFen_eq_ok.2 ⟨?_, _, decodedRecord side state, ?_, ?_, rfl⟩
    · rw [htokens]
      exact Nat.le_succ 17
    · rw [htokens]
      exact hparse
    · rw [htokens]
      exact decodedRecord_reads hhands hons
  -- and what it parses to has the counts and the phase of the state the key came from
  obtain ⟨fenBoard', record', hboard', hrecord', hb, hhand', hon', hphase'⟩ :=
    setFromFen_material hread
  rw [htokens] at hboard' hrecord'
  have hbb : FenBoard.ofChars (decodedBoard canonical) = fenBoard' :=
    Except.ok.inj (hparse.symm.trans hboard')
  have hrr : decodedRecord side state = record' := by
    have h1 := parseFenRecord_iff.2 (@decodedRecord_reads canonical side state hhands hons)
    rw [parseFenRecord_iff.2 hrecord'] at h1
    exact (Except.ok.inj h1).symm
  rw [← hrr] at hhand' hon' hphase'
  generalize checkIfGameIsOver ((decodedRecord side state).imported
    (.ofChars (decodedBoard canonical)) {}) {} = t at hread hb hhand' hon' hphase'
  have hplacing : stillPlacing side t = stillPlacing side state := by
    have hiff : t.phase = .placing ↔ stillPlacing side state = true := by
      rw [hphase']
      unfold decodedRecord
      cases stillPlacing side state <;> simp
    have hhand : t.piecesInHand side = state.piecesInHand side := by rw [hhand']; rfl
    rw [Bool.eq_iff_iff, ← hiff]
    conv_lhs => unfold stillPlacing
    rw [Bool.or_eq_true, decide_eq_true_eq, decide_eq_true_eq, hhand, hiff]
    constructor
    · rintro (hp | hp)
      · exact hp
      · simp [stillPlacing, hp]
    · exact Or.inl
  refine stateKeyFromFen_eq_ok.2 ⟨side, t, canonical, ?_, hread, ?_, ?_, ?_⟩
  · rw [htokens]
    rfl
  · rw [countError?_congr (s := state) (hhand'.trans rfl) (hon'.trans rfl)]
    exact hcount
  -- its board is the canonical one already, so the search over the symmetries ends there again
  · rw [hb, ← hbb, nmmBoard24_decodedBoard hlen hboard]
    exact hm
  · unfold keyOf
    rw [phaseForSide_eq, phaseForSide_eq, hplacing, hhand', hon']
    rfl

/-! ## The codec as a whole -/

/-- The canonical board of a key is the image the returned symmetry makes of the board read. -/
theorem stateKeyFromFen_board {fen key : Text} {n : Nat}
    (h : stateKeyFromFen fen = some (.ok (key, n))) :
    ∃ state canonical, setFromFen {} fen = .ok state
      ∧ applyBoardSym (nmmBoard24 state.board) n = some canonical
      ∧ (key.splitOn '|').getD 0 [] = canonical := by
  obtain ⟨side, state, canonical, -, hstate, -, hcanonical, rfl⟩ := stateKeyFromFen_eq_ok.1 h
  obtain ⟨c, s, hc, himage, -⟩ := canonicalBoardStr_spec (length_nmmBoard24 state.board)
  rw [hc] at hcanonical
  obtain ⟨rfl, rfl⟩ := Prod.mk.inj (Option.some.inj hcanonical)
  refine ⟨state, c, hstate, ?_, ?_⟩
  · rw [applyBoardSym_eq (length_nmmBoard24 state.board), himage]
  · unfold keyOf
    rw [splitOn_joinKey (fun ch hch => isBoardChar_imageOf (by rwa [← himage])) (by
      rw [phaseForSide_eq]
      split
      · decide
      · split <;> decide)]
    rfl

/-- Points move as the pieces on them do. -/
theorem transformPos_board {b : Text} (hb : b.length = 24) (s : Sym) :
    ∃ image, applyBoardSym b s.val = some image ∧ ∀ i : Node, ∃ j : Node,
      transformPos (label i) s.val = some (label j) ∧ image[j.val]? = b[i.val]? :=
  ⟨imageOf s b, applyBoardSym_eq hb s, fun i =>
    ⟨symIndex s i, transformPos_eq_some.2 ⟨i, rfl, rfl⟩, getElem?_imageOf hb s i⟩⟩

/--
**Keys, texts and notations agree.** A symmetric text has the same key, a key is decoded
to a text with that key, and a notation is mapped by a symmetry as the board is, and
back by the inverse.
-/
theorem state_key_codec :
    (∀ (f key : Text) (n : Nat), stateKeyFromFen f = some (.ok (key, n)) →
      (∀ s : Sym, SymmetricFen s f (symmetricFen s f)
        ∧ (∃ m, stateKeyFromFen (symmetricFen s f) = some (.ok (key, m)))
        ∧ ∀ (g : Text) (t : MillState), SymmetricFen s f g → setFromFen {} g = .ok t →
            ∃ m, stateKeyFromFen g = some (.ok (key, m)))
      ∧ (∃ g, fenFromStateKey key = some g ∧ ∃ m, stateKeyFromFen g = some (.ok (key, m)))
      ∧ ∃ state canonical, setFromFen {} f = .ok state
        ∧ applyBoardSym (nmmBoard24 state.board) n = some canonical
        ∧ (key.splitOn '|').getD 0 [] = canonical)
    ∧ (∀ s : Sym,
        (∀ text m : Text, transformNotation text s.val = some m →
          transformNotation m (symInverse.getD s.val 0) = some text)
        ∧ (∀ turn : Turn, ∃ m, transformNotation turn.text s.val = some m)
        ∧ ∀ b : Text, b.length = 24 → ∃ image, applyBoardSym b s.val = some image
          ∧ ∀ i : Node, ∃ j : Node,
            transformPos (label i) s.val = some (label j) ∧ image[j.val]? = b[i.val]?)
    ∧ ∀ i : Node, nodeFromLabel (label i) = some (orderNode i) := by
  refine ⟨fun f key n h => ⟨fun s => ?_, stateKeyFromFen_decode h, stateKeyFromFen_board h⟩,
    fun s => ⟨fun text m hm => transformNotation_inverse hm,
      fun turn => ⟨_, transformNotation_turn s turn⟩, fun b hb => transformPos_board hb s⟩,
    nodeFromLabel_label⟩
  obtain ⟨side, state, canonical, -, hstate, -⟩ := stateKeyFromFen_eq_ok.1 h
  obtain ⟨fenBoard, record, hboard, -⟩ := setFromFen_material hstate
  have hsym := symmetricFen_symmetric s hboard
  obtain ⟨t, ht⟩ := setFromFen_symmetricFen s hstate
  exact ⟨hsym, stateKeyFromFen_symmetric h hsym ht,
    fun g u hg hu => stateKeyFromFen_symmetric h hg hu⟩

/-- A placing position with three pieces, turned by a quarter. -/
theorem state_key_codec_three_pieces :
    let f := "O*******/**@*****/****O*** b p p 2 7 1 8 0 0 -1 -1 -1 -1 7 42 3 ids:nodes".toList
    (∃ m, stateKeyFromFen (symmetricFen 1 f)
        = some (.ok (".......W.....B.....W....|B|place|2|1|2|1".toList, m)))
      ∧ transformNotation "d6-d7xa4".toList 1 = some "b4-a4xd1".toList
      ∧ transformNotation "b4-a4xd1".toList 3 = some "d6-d7xa4".toList := by
  intro f
  have hkey : stateKeyFromFen f
      = some (.ok (".......W.....B.....W....|B|place|2|1|2|1".toList, 3)) := by
    decide +kernel
  have hmap : transformNotation "d6-d7xa4".toList 1 = some "b4-a4xd1".toList := by decide +kernel
  exact ⟨(state_key_codec.1 f _ 3 hkey).1 1 |>.2.1, hmap, (state_key_codec.2.1 1).1 _ _ hmap⟩

end Sanmill.HumanDb
