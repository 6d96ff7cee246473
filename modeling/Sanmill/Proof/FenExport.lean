import Sanmill.Proof.Fen
import Sanmill.Proof.Turn

/-!
# Position texts that are written

A text written from a state of a running game reads back: every field parses, and what it
parses to is what the state has, apart from the colour of a marked piece, the board behind
the formed mills and the captures, which are not followed here.
-/

namespace Sanmill

open Bits

variable {options : MillVariantOptions} {s : MillState} {c : Side}

/-! ## The board -/

theorem getD_map_finRange (chars : Node → Char) (n : Node) :
    ((List.finRange 24).map chars).getD n.val '*' = chars n := by
  rw [List.getD_eq_getElem?_getD, List.getElem?_map]
  simp

theorem testBit_marksOfChars (chars : Text) (i : Nat) :
    testBit (FenBoard.ofChars chars).delayedMarkedPieces i = true
      ↔ ∃ n : Node, n.val = i ∧ chars.getD n.val '*' = 'X' := by
  have hfold : ∀ (l : List Node) (acc : Bitboard),
      testBit (l.foldl (fun marks node =>
        if chars.getD node.val '*' = 'X' then marks ||| nodeBit node else marks) acc) i = true
      ↔ testBit acc i = true ∨ ∃ n ∈ l, n.val = i ∧ chars.getD n.val '*' = 'X' := by
    intro l
    induction l with
    | nil => simp
    | cons m l ih =>
      intro acc
      rw [List.foldl_cons, ih]
      by_cases hm : chars.getD m.val '*' = 'X'
      · have hbit : testBit (nodeBit m) i = true ↔ m.val = i := by
          unfold nodeBit
          rw [testBit_bit, decide_eq_true_eq]
          omega
        rw [if_pos hm, testBit_or, Bool.or_eq_true, hbit]
        simp only [List.mem_cons, exists_eq_or_imp, hm, and_true]
        tauto
      · rw [if_neg hm]
        simp only [List.mem_cons, exists_eq_or_imp, hm, and_false, false_or]
  refine (hfold (List.finRange 24) 0).trans ?_
  simp

/-- The marks of a written board are those of the state. -/
theorem marks_written (hpos : PositionInv options s.toMillPosition) :
    (FenBoard.ofChars ((List.finRange 24).map (fenChar s))).delayedMarkedPieces
      = s.delayedMarkedPieces := by
  have hmarked : ∀ n : Node, fenChar s n = 'X' ↔ testBit s.delayedMarkedPieces n = true := by
    intro n
    unfold fenChar MillPosition.isMarked
    cases testBit s.delayedMarkedPieces n
    · simp only [Bool.false_eq_true, if_false, iff_false]
      split_ifs <;> decide
    · simp
  refine testBit_ext fun i _ => Bool.eq_iff_iff.2 ?_
  rw [testBit_marksOfChars]
  constructor
  · rintro ⟨n, rfl, hn⟩
    rw [getD_map_finRange] at hn
    exact (hmarked n).1 hn
  · intro hi
    refine ⟨⟨i, hpos.marks i hi⟩, rfl, ?_⟩
    rw [getD_map_finRange]
    exact (hmarked _).2 hi

theorem fenPiece_fenChar (hpos : PositionInv options s.toMillPosition) (n : Node) :
    fenPiece (fenChar s n) = if s.isMarked n then 0 else s.board n := by
  unfold fenChar
  cases s.isMarked n
  · rcases hpos.codes n with h0 | ⟨c, hc⟩
    · simp only [h0]
      decide
    · have hcodes : ∀ d : Side, fenPiece (if d.toI8 + 1 = 1 then 'O' else if d.toI8 + 1 = 2 then '@'
          else '*') = d.toI8 + 1 := by decide
      simpa only [hc, Bool.false_eq_true, if_false] using hcodes c
  · rfl

/-- The masks of a written board are those of the state. -/
theorem masks_written (hpos : PositionInv options s.toMillPosition) :
    bitboardsFromBoard (FenBoard.ofChars ((List.finRange 24).map (fenChar s))).board
        (FenBoard.ofChars ((List.finRange 24).map (fenChar s))).delayedMarkedPieces
      = s.byColorBb := by
  rw [marks_written hpos, hpos.masks]
  funext d
  refine testBit_ext fun i _ => Bool.eq_iff_iff.2 ?_
  by_cases hi : i < 24
  · have hboard := testBit_bitboardsFromBoard
      (FenBoard.ofChars ((List.finRange 24).map (fenChar s))).board s.delayedMarkedPieces d ⟨i, hi⟩
    have hstate := testBit_bitboardsFromBoard s.board s.delayedMarkedPieces d ⟨i, hi⟩
    have hpiece : (FenBoard.ofChars ((List.finRange 24).map (fenChar s))).board ⟨i, hi⟩
        = if s.isMarked ⟨i, hi⟩ then 0 else s.board ⟨i, hi⟩ := by
      rw [← fenPiece_fenChar hpos, ← getD_map_finRange (fenChar s) ⟨i, hi⟩]
      rfl
    rw [hboard, hstate, hpiece]
    unfold MillPosition.isMarked
    cases testBit s.delayedMarkedPieces (⟨i, hi⟩ : Node).val <;> simp
  · constructor
    · exact fun h => absurd (bitboardsFromBoard_below _ _ d i h) hi
    · exact fun h => absurd (bitboardsFromBoard_below _ _ d i h) hi

theorem isFenPiece_fenChar (s : MillState) (n : Node) : isFenPiece (fenChar s n) = true := by
  unfold fenChar
  split_ifs <;> rfl

/-- What is read shows the character it was read from. -/
theorem fenChar_imported (record : FenRecord) {chars : Node → Char}
    (hpiece : ∀ n, isFenPiece (chars n) = true) (options : MillVariantOptions) (n : Node) :
    fenChar (record.imported (.ofChars ((List.finRange 24).map chars)) options) n = chars n := by
  have hboard : (record.imported (.ofChars ((List.finRange 24).map chars)) options).board n
      = fenPiece (chars n) := by
    rw [← getD_map_finRange chars n]
    rfl
  have hmark : (record.imported (.ofChars ((List.finRange 24).map chars)) options).isMarked n = true
      ↔ chars n = 'X' := by
    refine (testBit_marksOfChars _ _).trans ⟨?_, fun h => ⟨n, rfl, ?_⟩⟩
    · rintro ⟨m, hm, hX⟩
      rwa [getD_map_finRange, Fin.ext hm] at hX
    · rwa [getD_map_finRange]
  unfold fenChar
  rw [hboard]
  rcases (isFenPiece_iff _).1 (hpiece n) with h | h | h | h
  · rw [if_neg (by rw [hmark, h]; decide), h]
    rfl
  · rw [if_neg (by rw [hmark, h]; decide), h]
    rfl
  · rw [if_neg (by rw [hmark, h]; decide), h]
    rfl
  · rw [if_pos (hmark.2 h), h]

/-! ## Capture fields -/

/-- The characters of a capture segment. -/
def isSegmentChar (c : Char) : Bool := c.isDigit || c = 'w' || c = 'b' || c = '-' || c = '.'

theorem isSegmentChar_solid {c : Char} (h : isSegmentChar c = true) :
    Text.isWhitespace c = false ∧ c ≠ '|' := by
  unfold isSegmentChar at h
  simp only [Bool.or_eq_true, decide_eq_true_eq] at h
  rcases h with (((h | rfl) | rfl) | rfl) | rfl
  · exact ⟨Text.isWhitespace_of_isDigit h, Text.ne_of_isDigit h (by decide)⟩
  · decide
  · decide
  · decide
  · decide

/-- The nodes of a segment. -/
def nodeListText (nodes : List Node) : Text :=
  ['.'].intercalate (nodes.map fun node => Text.decimal node.val)

theorem isSegmentChar_decimal (n : Nat) : ∀ c ∈ Text.decimal n, isSegmentChar c = true := by
  intro c hc
  unfold isSegmentChar
  simp [Text.isDigit_of_mem_decimal hc]

theorem isSegmentChar_nodeList (nodes : List Node) :
    ∀ c ∈ nodeListText nodes, isSegmentChar c = true := by
  unfold nodeListText
  induction nodes with
  | nil => exact fun c hc => absurd hc List.not_mem_nil
  | cons node nodes ih =>
    intro c hc
    cases nodes with
    | nil =>
      rw [List.map_cons, List.map_nil, List.intercalate_singleton] at hc
      exact isSegmentChar_decimal _ c hc
    | cons node' nodes =>
      rw [List.map_cons, List.map_cons, List.intercalate_cons_cons] at hc
      rcases List.mem_append.1 hc with hc | hc
      · rcases List.mem_append.1 hc with hc | hc
        · exact isSegmentChar_decimal _ c hc
        · rw [List.mem_singleton.1 hc]
          rfl
      · exact ih c hc

/-- The pieces of a node list are the nodes, or nothing. -/
theorem mem_splitOn_nodeList {nodes : List Node} {piece : Text}
    (h : piece ∈ (nodeListText nodes).splitOn '.') :
    piece = [] ∨ ∃ node : Node, piece = Text.decimal node.val := by
  cases nodes with
  | nil => exact Or.inl (List.mem_singleton.1 h)
  | cons node nodes =>
    refine Or.inr ?_
    have hdot : ∀ l ∈ (node :: nodes).map (fun node => Text.decimal node.val), '.' ∉ l := by
      intro l hl hmem
      obtain ⟨m, -, rfl⟩ := List.mem_map.1 hl
      exact Text.ne_of_isDigit (Text.isDigit_of_mem_decimal hmem) (by decide) rfl
    unfold nodeListText at h
    rw [List.splitOn_intercalate '.' hdot (List.cons_ne_nil _ _)] at h
    obtain ⟨m, -, rfl⟩ := List.mem_map.1 h
    exact ⟨m, rfl⟩

theorem parseNodeId_signedDecimal {node : Int} (h : NodeOrNone node) :
    parseNodeId (Text.signedDecimal node) .nodes = .ok node := by
  have hrange : node = -1 ∨ 0 ≤ node ∧ node < 24 := by
    rcases h with h | ⟨n, rfl⟩
    · exact Or.inl h
    · have := n.isLt
      unfold Node.toI8
      omega
  have hparse : Text.parseSigned (-128) 127 (Text.signedDecimal node) = some node :=
    Text.parseSigned_signedDecimal (by omega)
  unfold parseNodeId
  simp only [hparse, parseOr]
  exact if_pos hrange

theorem parseCaptureTargets_written {piece : Text}
    (h : piece = [] ∨ ∃ node : Node, piece = Text.decimal node.val) (targets : Bitboard) :
    ∃ targets', parseCaptureTargets .nodes targets piece = .ok targets' := by
  rcases h with rfl | ⟨node, rfl⟩
  · exact ⟨targets, rfl⟩
  · have hid : parseNodeId (Text.decimal node.val) .nodes = .ok (node.val : Int) :=
      parseNodeId_signedDecimal (Or.inr ⟨node, rfl⟩)
    have hnode : boardNode? (node.val : Int) = some node := by
      unfold boardNode?
      rw [dif_pos ⟨by omega, by omega⟩]
      rfl
    have htrim : Text.trim (Text.decimal node.val) = Text.decimal node.val :=
      Text.trim_of_solid (Text.isToken_decimal _).solid
    refine ⟨targets ||| nodeBit node, ?_⟩
    unfold parseCaptureTargets
    simp only [htrim, if_neg (Text.decimal_ne_nil _), hid]
    simp only [Except.bind_ok_iff, Except.ok.injEq, exists_eq_left']
    rw [hnode]

/-- A fold of steps that never fail does not fail. -/
theorem foldlM_ok {α β ε : Type} {f : β → α → Except ε β} {l : List α}
    (h : ∀ a ∈ l, ∀ b, ∃ b', f b a = .ok b') : ∀ b, ∃ b', l.foldlM f b = .ok b' := by
  induction l with
  | nil => exact fun b => ⟨b, rfl⟩
  | cons a l ih =>
    intro b
    obtain ⟨b', hb'⟩ := h a List.mem_cons_self b
    obtain ⟨b'', hb''⟩ := ih (fun x hx => h x (List.mem_cons_of_mem a hx)) b'
    refine ⟨b'', ?_⟩
    rw [List.foldlM_cons, hb']
    exact hb''

/-- One side's segment. -/
def segmentText (side : Side) (count : Nat) (nodes : List Node) : Text :=
  (if side = 0 then 'w' else 'b') :: '-' :: Text.decimal count ++ '-' :: nodeListText nodes

theorem isSegmentChar_segment (side : Side) (count : Nat) (nodes : List Node) :
    ∀ c ∈ segmentText side count nodes, isSegmentChar c = true := by
  intro c hc
  unfold segmentText at hc
  rcases List.mem_append.1 hc with hc | hc
  · rcases List.mem_cons.1 hc with rfl | hc
    · split <;> rfl
    · rcases List.mem_cons.1 hc with rfl | hc
      · rfl
      · exact isSegmentChar_decimal _ c hc
  · rcases List.mem_cons.1 hc with rfl | hc
    · rfl
    · exact isSegmentChar_nodeList _ c hc

theorem parseCaptureSegment_written (field : CaptureField) (side : Side) {count : Nat}
    (hcount : count ≤ 255) (nodes : List Node) :
    ∃ field', parseCaptureSegment .nodes field (segmentText side count nodes) = .ok field' := by
  have htrim : Text.trim (segmentText side count nodes) = segmentText side count nodes :=
    Text.trim_of_solid fun c hc => (isSegmentChar_solid (isSegmentChar_segment _ _ _ c hc)).1
  have hdigits : ∀ c ∈ Text.decimal count, (c != '-') = true := by
    intro c hc
    rw [bne_iff_ne]
    exact Text.ne_of_isDigit (Text.isDigit_of_mem_decimal hc) (by decide)
  have hcountText : (Text.decimal count ++ '-' :: nodeListText nodes).takeWhile (· != '-')
      = Text.decimal count := by
    rw [List.takeWhile_append_of_pos hdigits, List.takeWhile_cons_of_neg (by decide),
      List.append_nil]
  have hrest : (Text.decimal count ++ '-' :: nodeListText nodes).dropWhile (· != '-')
      = '-' :: nodeListText nodes := by
    rw [List.dropWhile_append_of_pos hdigits, List.dropWhile_cons_of_neg (by decide)]
  have hparsed : parseI32 (Text.decimal count) = some (count : Int) :=
    Text.parseSigned_signedDecimal (n := (count : Int)) (by unfold i32Min i32Max; omega)
  obtain ⟨targets, htargets⟩ := foldlM_ok (f := parseCaptureTargets .nodes)
    (fun piece hpiece => parseCaptureTargets_written (@mem_splitOn_nodeList nodes piece hpiece))
    (field.1 side)
  refine ⟨(setAt field.1 side targets, setAt field.2 side (min (field.2 side + count) 255)), ?_⟩
  have hshape : ∀ colour : Char, (if side = 0 then 'w' else 'b') = colour →
      segmentText side count nodes = colour :: '-'
        :: (Text.decimal count ++ '-' :: nodeListText nodes) := by
    rintro colour rfl
    rfl
  unfold parseCaptureSegment
  rw [htrim]
  -- the colour decides the side, and what follows is the same for both
  have hfields : ∀ side' : Side, side' = side → (do
      let side' ← (.ok side' : Except String Side)
      let parsedCount ← parseOr (some (count : Int)) (Text.decimal count) "capture count"
      let targets ← ((nodeListText nodes).splitOn '.').foldlM (parseCaptureTargets .nodes)
        (field.1 side')
      (.ok (setAt field.1 side' targets,
        setAt field.2 side' (min (field.2 side' + parsedCount.natAbs) 255)) :
        Except String CaptureField))
      = .ok (setAt field.1 side targets, setAt field.2 side (min (field.2 side + count) 255)) := by
    rintro side' rfl
    exact Except.bind_ok_iff.2 ⟨side', rfl, Except.bind_ok_iff.2 ⟨count, rfl,
      Except.bind_ok_iff.2 ⟨targets, htargets, rfl⟩⟩⟩
  rcases Side.eq_or_eq_opponent 0 side with rfl | rfl
  · rw [hshape 'w' rfl]
    simp only [hrest, hcountText, Text.trim_of_solid (Text.isToken_decimal count).solid, hparsed]
    rw [if_neg (by simp; decide)]
    exact hfields 0 rfl
  · rw [hshape 'b' rfl]
    simp only [hrest, hcountText, Text.trim_of_solid (Text.isToken_decimal count).solid, hparsed]
    rw [if_neg (by simp; decide)]
    exact hfields 1 rfl

theorem appendCaptureField_eq (label : Char) (targets : Side → Bitboard) (count : Side → Nat) :
    appendCaptureField label targets count = []
      ∨ appendCaptureField label targets count
        = [label :: ':' :: (segmentText 0 (count 0) (maskNodes (targets 0))
          ++ '|' :: segmentText 1 (count 1) (maskNodes (targets 1)))] := by
  unfold appendCaptureField
  dsimp only
  split
  · exact Or.inl rfl
  · exact Or.inr rfl

theorem parseCaptureField_written (field : CaptureField) {count count' : Nat}
    (hcount : count ≤ 255) (hcount' : count' ≤ 255) (nodes nodes' : List Node) :
    ∃ field', parseCaptureField .nodes field
      (segmentText 0 count nodes ++ '|' :: segmentText 1 count' nodes') = .ok field' := by
  have hsplit : (segmentText 0 count nodes ++ '|' :: segmentText 1 count' nodes').splitOn '|'
      = [segmentText 0 count nodes, segmentText 1 count' nodes'] := by
    have hjoin : segmentText 0 count nodes ++ '|' :: segmentText 1 count' nodes'
        = ['|'].intercalate [segmentText 0 count nodes, segmentText 1 count' nodes'] := by
      rw [List.intercalate_cons_cons, List.intercalate_singleton]
      simp
    rw [hjoin]
    refine List.splitOn_intercalate '|' (fun l hl hmem => ?_) (List.cons_ne_nil _ _)
    simp only [List.mem_cons, List.not_mem_nil, or_false] at hl
    rcases hl with rfl | rfl
    · exact (isSegmentChar_solid (isSegmentChar_segment _ _ _ _ hmem)).2 rfl
    · exact (isSegmentChar_solid (isSegmentChar_segment _ _ _ _ hmem)).2 rfl
  unfold parseCaptureField
  rw [hsplit]
  refine foldlM_ok (fun segment hsegment field => ?_) field
  simp only [List.mem_cons, List.not_mem_nil, or_false] at hsegment
  rcases hsegment with rfl | rfl
  · exact parseCaptureSegment_written field 0 hcount nodes
  · exact parseCaptureSegment_written field 1 hcount' nodes'

/-! ## The tokens -/

/-- The extension tokens of a written text. -/
def extensionTokens (s : MillState) : List Text :=
  appendCaptureField 'c' s.custodianTargets s.custodianCount
    ++ appendCaptureField 'i' s.interventionTargets s.interventionCount
    ++ appendCaptureField 'l' s.leapTargets s.leapCount
    ++ (if s.preferredRemoveTarget ≥ 0 then
        ['p' :: ':' :: Text.signedDecimal s.preferredRemoveTarget] else [])
    ++ (if s.flags.stalemateRemoving then ["s:1".toList]
      else if s.flags.bothStalemateRemoving then ["s:2".toList] else [])

theorem drop_fenTokens (s : MillState) :
    (fenTokens s).drop 17 = nodeIdFenMarker :: extensionTokens s := by
  unfold fenTokens extensionTokens
  simp only [List.append_assoc]
  rfl

theorem idModeFromExtensions_marker (tokens : List Text) :
    idModeFromExtensions (nodeIdFenMarker :: tokens) = .nodes := by
  have hmarker : eqIgnoreAsciiCase nodeIdFenMarker nodeIdFenMarker = true := by decide
  unfold idModeFromExtensions
  rw [List.any_cons, hmarker, Bool.true_or, if_pos rfl]

/-- The values of a text fit what they are parsed as. -/
structure Writable (s : MillState) (c : Side) : Prop where
  side : s.sideToMove = c.toI8
  running : s.phase = .placing ∨ s.phase = .moving
  /-- A remove token is written for a side that owes removals only. -/
  synced : s.action = .remove → 0 < s.pendingRemovals c
  piecesOnBoard : ∀ x, s.piecesOnBoard x ≤ 255
  piecesInHand : ∀ x, s.piecesInHand x ≤ 255
  lastMill : ∀ x, NodeOrNone (s.lastMillFrom x) ∧ NodeOrNone (s.lastMillTo x)
  preferredRemoveTarget : s.preferredRemoveTarget = -1
  captureCounts : ∀ x, s.custodianCount x ≤ 255 ∧ s.interventionCount x ≤ 255 ∧ s.leapCount x ≤ 255
  ply : s.plySinceCapture ≤ 65535

/-- The removals a side owes fit the signed byte they are read as. -/
def OwesReadably (s : MillState) : Prop :=
  ∀ x, s.pendingRemovals x ≤ 127 ∨ s.flags.removeOwnPiece x = true ∧ s.pendingRemovals x ≤ 128

theorem mem_captureField {label : Char} {targets : Side → Bitboard} {count : Side → Nat}
    {token : Text} (h : token ∈ appendCaptureField label targets count) :
    token = label :: ':' :: (segmentText 0 (count 0) (maskNodes (targets 0))
      ++ '|' :: segmentText 1 (count 1) (maskNodes (targets 1))) := by
  rcases appendCaptureField_eq label targets count with heq | heq
  · rw [heq] at h
    exact absurd h List.not_mem_nil
  · rw [heq] at h
    exact List.mem_singleton.1 h

theorem isToken_captureField {label : Char} (hlabel : Text.isWhitespace label = false)
    {targets : Side → Bitboard} {count : Side → Nat} {token : Text}
    (h : token ∈ appendCaptureField label targets count) : Text.IsToken token := by
  rw [mem_captureField h]
  refine ⟨List.cons_ne_nil _ _, fun c hc => ?_⟩
  rcases List.mem_cons.1 hc with rfl | hc
  · exact hlabel
  · rcases List.mem_cons.1 hc with rfl | hc
    · decide
    · rcases List.mem_append.1 hc with hc | hc
      · exact (isSegmentChar_solid (isSegmentChar_segment _ _ _ c hc)).1
      · rcases List.mem_cons.1 hc with rfl | hc
        · decide
        · exact (isSegmentChar_solid (isSegmentChar_segment _ _ _ c hc)).1

/-- A token is one of the kinds a text is made of. -/
theorem isToken_extension {token : Text} (h : token ∈ extensionTokens s) : Text.IsToken token := by
  unfold extensionTokens at h
  simp only [List.mem_append] at h
  rcases h with (((h | h) | h) | h) | h
  · exact isToken_captureField (by decide) h
  · exact isToken_captureField (by decide) h
  · exact isToken_captureField (by decide) h
  · split at h
    · have hnode := Text.isToken_signedDecimal s.preferredRemoveTarget
      rw [List.mem_singleton.1 h]
      refine ⟨List.cons_ne_nil _ _, fun c hc => ?_⟩
      rcases List.mem_cons.1 hc with rfl | hc
      · decide
      · rcases List.mem_cons.1 hc with rfl | hc
        · decide
        · exact hnode.solid c hc
    · exact absurd h List.not_mem_nil
  · split at h
    · rw [List.mem_singleton.1 h]
      exact Text.isToken_of_all (by decide) (by decide)
    · split at h
      · rw [List.mem_singleton.1 h]
        exact Text.isToken_of_all (by decide) (by decide)
      · exact absurd h List.not_mem_nil

theorem parseExtension_written (h : Writable s c) {token : Text}
    (htoken : token ∈ extensionTokens s)
    (ext : FenExtensions) : ∃ ext', parseExtension .nodes ext token = .ok ext' := by
  unfold extensionTokens at htoken
  rw [h.preferredRemoveTarget] at htoken
  simp only [List.mem_append] at htoken
  rcases htoken with (((htoken | htoken) | htoken) | htoken) | htoken
  · obtain ⟨field, hfield⟩ := parseCaptureField_written ext.custodian (h.captureCounts 0).1
      (h.captureCounts 1).1 (maskNodes (s.custodianTargets 0)) (maskNodes (s.custodianTargets 1))
    rw [mem_captureField htoken]
    exact ⟨{ ext with custodian := field }, Except.bind_ok_iff.2 ⟨field, hfield, rfl⟩⟩
  · obtain ⟨field, hfield⟩ := parseCaptureField_written ext.intervention (h.captureCounts 0).2.1
      (h.captureCounts 1).2.1 (maskNodes (s.interventionTargets 0))
      (maskNodes (s.interventionTargets 1))
    rw [mem_captureField htoken]
    exact ⟨{ ext with intervention := field }, Except.bind_ok_iff.2 ⟨field, hfield, rfl⟩⟩
  · obtain ⟨field, hfield⟩ := parseCaptureField_written ext.leap (h.captureCounts 0).2.2
      (h.captureCounts 1).2.2 (maskNodes (s.leapTargets 0)) (maskNodes (s.leapTargets 1))
    rw [mem_captureField htoken]
    exact ⟨{ ext with leap := field }, Except.bind_ok_iff.2 ⟨field, hfield, rfl⟩⟩
  · rw [if_neg (by decide)] at htoken
    exact absurd htoken List.not_mem_nil
  · split at htoken
    · rw [List.mem_singleton.1 htoken]
      exact ⟨_, rfl⟩
    · split at htoken
      · rw [List.mem_singleton.1 htoken]
        exact ⟨_, rfl⟩
      · exact absurd htoken List.not_mem_nil

/-! ## Reading back -/

/-- What a written text parses to. -/
def exportedRecord (s : MillState) (c : Side) (ext : FenExtensions) : FenRecord where
  side := c
  phase := s.phase
  action := s.action
  piecesOnBoard := s.piecesOnBoard
  piecesInHand := s.piecesInHand
  signedRemove := fenSignedRemove s
  lastMillFrom := s.lastMillFrom
  lastMillTo := s.lastMillTo
  formedMillsBb x := s.formedMillsBb x &&& 0x00ffffff
  rule50 := s.plySinceCapture
  fullMove := max ((parseI32 (Text.signedDecimal (fenFullMove s))).getD 1) 1
  ext := ext

theorem parseU8_decimal {n : Nat} (h : n ≤ 255) : parseU8 (Text.decimal n) = .ok n :=
  parseOr_eq_ok.2 (Text.parseUnsigned_decimal h)

theorem parseI8_signedDecimal {n : Int} (h : -128 ≤ n ∧ n ≤ 127) :
    parseI8 (Text.signedDecimal n) = .ok n :=
  parseOr_eq_ok.2 (Text.parseSigned_signedDecimal h)

theorem parseNodeBitboard_masked (mask : Bitboard) :
    parseNodeBitboard (mask &&& 0x00ffffff) .nodes = .ok (mask &&& 0x00ffffff) := by
  unfold parseNodeBitboard
  simp only
  rw [if_pos]
  refine testBit_ext fun i _ => ?_
  rw [testBit_and_not, testBit_and]
  refine Eq.trans ?_ (testBit_zero i).symm
  cases testBit mask i <;> cases testBit (0x00ffffff : Bitboard) i <;> rfl

theorem masked_toNat_lt (mask : Bitboard) : (mask &&& 0x00ffffff).toNat < 2 ^ 24 := by
  rw [BitVec.toNat_and]
  exact Nat.lt_of_le_of_lt Nat.and_le_right (by decide)

/-- The squares of both sides' mills, in one number. -/
theorem parseFormedMills_written (white black : Bitboard) : ∃ raw,
    Text.parseUnsigned (2 ^ 64 - 1) (Text.decimal ((white &&& 0x00ffffff).toNat * 2 ^ 32
        + (black &&& 0x00ffffff).toNat)) = some raw
      ∧ parseNodeBitboard (BitVec.ofNat 32 (raw / 2 ^ 32)) .nodes = .ok (white &&& 0x00ffffff)
      ∧ parseNodeBitboard (BitVec.ofNat 32 raw) .nodes = .ok (black &&& 0x00ffffff) := by
  have hwhite := masked_toNat_lt white
  have hblack := masked_toNat_lt black
  have hw := parseNodeBitboard_masked white
  have hb := parseNodeBitboard_masked black
  generalize white &&& 0x00ffffff = w at *
  generalize black &&& 0x00ffffff = b at *
  have hhigh : BitVec.ofNat 32 ((w.toNat * 2 ^ 32 + b.toNat) / 2 ^ 32) = w := by
    have hdiv : (w.toNat * 2 ^ 32 + b.toNat) / 2 ^ 32 = w.toNat := by omega
    rw [hdiv, BitVec.ofNat_toNat, BitVec.setWidth_eq]
  have hlow : BitVec.ofNat 32 (w.toNat * 2 ^ 32 + b.toNat) = b := by
    apply BitVec.eq_of_toNat_eq
    rw [BitVec.toNat_ofNat]
    omega
  refine ⟨_, Text.parseUnsigned_decimal (by omega), ?_, ?_⟩
  · rw [hhigh]
    exact hw
  · rw [hlow]
    exact hb

/-- Looked up step by step: the number in the token must not be computed. -/
theorem getD_formedMills (s : MillState) : (fenTokens s).getD 14 []
    = Text.decimal ((s.formedMillsBb 0 &&& 0x00ffffff).toNat * 2 ^ 32
      + (s.formedMillsBb 1 &&& 0x00ffffff).toNat) := by
  unfold fenTokens
  simp only [List.cons_append, List.getD_cons_succ, List.getD_cons_zero]

theorem exportFen_reads (h : Writable s c) (howes : OwesReadably s) :
    ∃ ext, (exportedRecord s c ext).Reads (fenTokens s) ((fenTokens s).drop 17) := by
  -- the marker token comes first among the extensions, so nodes are written as numbers
  have hmode : idModeFromExtensions ((fenTokens s).drop 17) = .nodes := by
    rw [drop_fenTokens]
    exact idModeFromExtensions_marker _
  obtain ⟨ext, hext⟩ : ∃ ext,
      ((fenTokens s).drop 17).foldlM (parseExtension .nodes) ({} : FenExtensions) = .ok ext := by
    rw [drop_fenTokens]
    refine foldlM_ok (fun token htoken ext => ?_) ({} : FenExtensions)
    rcases List.mem_cons.1 htoken with rfl | htoken
    · exact ⟨ext, rfl⟩
    · exact parseExtension_written h htoken ext
  -- a removal is written with a sign, and either sign fits an `i8`
  have hremove : ∀ x, -128 ≤ fenSignedRemove s x ∧ fenSignedRemove s x ≤ 127 := by
    intro x
    unfold fenSignedRemove
    rcases howes x with hle | ⟨hown, hle⟩
    · split <;> omega
    · rw [if_pos hown]
      omega
  have hside : ∀ d : Side, parseFenSide [if d.toI8 = 1 then 'b' else 'w'] = .ok d := by decide
  refine ⟨ext, ?_⟩
  refine
    { side := ?_
      phase := ?_
      action := ?_
      onBoardW := parseU8_decimal (h.piecesOnBoard 0)
      inHandW := parseU8_decimal (h.piecesInHand 0)
      onBoardB := parseU8_decimal (h.piecesOnBoard 1)
      inHandB := parseU8_decimal (h.piecesInHand 1)
      removeW := parseI8_signedDecimal (hremove 0)
      removeB := parseI8_signedDecimal (hremove 1)
      lastMillFromW := ?_
      lastMillToW := ?_
      lastMillFromB := ?_
      lastMillToB := ?_
      formedMills := ?_
      rule50 := parseOr_eq_ok.2 (Text.parseUnsigned_decimal h.ply)
      fullMove := rfl
      ext := ?_ }
  -- letters are read back case by case, numbers by their own lemmas
  · change parseFenSide [if s.sideToMove = 1 then 'b' else 'w'] = .ok c
    rw [h.side]
    exact hside c
  · change parseFenPhase [s.phase.toFenToken] = .ok s.phase
    rcases h.running with hphase | hphase <;> rw [hphase] <;> rfl
  · change parseFenAction [s.action.toFenToken] = .ok s.action
    cases s.action <;> rfl
  · rw [hmode]
    exact parseNodeId_signedDecimal (h.lastMill 0).1
  · rw [hmode]
    exact parseNodeId_signedDecimal (h.lastMill 0).2
  · rw [hmode]
    exact parseNodeId_signedDecimal (h.lastMill 1).1
  · rw [hmode]
    exact parseNodeId_signedDecimal (h.lastMill 1).2
  · rw [hmode, getD_formedMills]
    exact parseFormedMills_written (s.formedMillsBb 0) (s.formedMillsBb 1)
  · rw [hmode]
    exact hext

theorem isToken_char {c : Char} (h : Text.isWhitespace c = false) : Text.IsToken [c] :=
  ⟨List.cons_ne_nil _ _, fun d hd => by
    rw [List.mem_singleton.1 hd]
    exact h⟩

theorem isToken_board (s : MillState) : Text.IsToken (fenBoardStr s) :=
  isToken_joinRanks fun c hc => by
    obtain ⟨n, -, rfl⟩ := List.mem_map.1 hc
    exact isFenPiece_fenChar s n

theorem isToken_fenTokens (s : MillState) : ∀ token ∈ fenTokens s, Text.IsToken token := by
  have hside : Text.IsToken [if s.sideToMove = 1 then 'b' else 'w'] :=
    isToken_char (by split <;> decide)
  have hphase : Text.IsToken [s.phase.toFenToken] := isToken_char (by cases s.phase <;> decide)
  have haction : Text.IsToken [s.action.toFenToken] := isToken_char (by cases s.action <;> decide)
  have hmarker : Text.IsToken nodeIdFenMarker :=
    Text.isToken_of_all (by decide) (by decide)
  have hsplit : fenTokens s = (fenTokens s).take 18 ++ extensionTokens s := by
    have hdrop : (fenTokens s).drop 18 = extensionTokens s := by
      rw [← List.drop_drop (i := 1) (j := 17), drop_fenTokens]
      rfl
    rw [← hdrop, List.take_append_drop]
  rw [hsplit]
  intro token htoken
  rcases List.mem_append.1 htoken with htoken | htoken
  · unfold fenTokens at htoken
    simp only [List.cons_append, List.take_succ_cons, List.take_zero, List.mem_cons,
      List.not_mem_nil, or_false] at htoken
    rcases htoken with rfl | rfl | rfl | rfl | rfl | rfl | rfl | rfl | rfl | rfl | rfl | rfl | rfl
      | rfl | rfl | rfl | rfl | rfl
    · exact isToken_board s
    · exact hside
    · exact hphase
    · exact haction
    all_goals first
      | exact Text.isToken_decimal _
      | exact Text.isToken_signedDecimal _
      | exact hmarker
  · exact isToken_extension htoken

theorem splitWhitespace_exportFen (s : MillState) :
    Text.splitWhitespace (exportFen s) = fenTokens s :=
  Text.splitWhitespace_joinBlank (isToken_fenTokens s)

/-- **A written text reads back**, up to the terminal checks. -/
theorem setFromFen_exportFen (options : MillVariantOptions) (h : Writable s c)
    (howes : OwesReadably s) : ∃ ext, setFromFen options (exportFen s)
      = .ok (checkIfGameIsOver ((exportedRecord s c ext).imported
          (.ofChars ((List.finRange 24).map (fenChar s))) options) options) := by
  obtain ⟨ext, hreads⟩ := exportFen_reads h howes
  refine ⟨ext, setFromFen_eq_ok.2 ?_⟩
  rw [splitWhitespace_exportFen]
  refine ⟨?_, _, _, parseFenBoard_joinRanks ?_ ?_, hreads, rfl⟩
  · unfold fenTokens
    simp only [List.length_append, List.length_cons]
    omega
  · rw [List.length_map, List.length_finRange]
  · intro d hd
    obtain ⟨n, -, rfl⟩ := List.mem_map.1 hd
    exact isFenPiece_fenChar s n

/-- The removals that are read are those that were owed. -/
theorem finalRemove_exported (h : Writable s c) (ext : FenExtensions) (x : Side) :
    (exportedRecord s c ext).finalRemove x = s.pendingRemovals x := by
  have hsigned : ∀ y, (fenSignedRemove s y).natAbs = s.pendingRemovals y := by
    intro y
    unfold fenSignedRemove
    split <;> omega
  unfold FenRecord.finalRemove
  rw [if_neg]
  · exact hsigned x
  · rintro ⟨haction, h0, h1, -⟩
    have howed := h.synced haction
    have hzero : ∀ y, fenSignedRemove s y = 0 → s.pendingRemovals y = 0 := fun y hy => by
      rw [← hsigned y, hy]
      rfl
    have hc : s.pendingRemovals c = 0 := by
      rcases Side.eq_or_eq_opponent 0 c with rfl | rfl
      · exact hzero 0 h0
      · exact hzero 1 h1
    omega

theorem parseSigned_signedDecimal_eq {low high n m : Int}
    (h : Text.parseSigned low high (Text.signedDecimal n) = some m) : low ≤ n ∧ n ≤ high := by
  have hrange := Text.parseSigned_range h
  -- the same digits, read with bounds that let every value through
  have hvalue : Text.parseSigned (min low n) (max high n) (Text.signedDecimal n) = some n :=
    Text.parseSigned_signedDecimal ⟨min_le_right _ _, le_max_right _ _⟩
  unfold Text.parseSigned at h hvalue
  obtain ⟨v, hv, hm⟩ := Option.bind_eq_some_iff.1 h
  obtain ⟨w, hw, hn⟩ := Option.bind_eq_some_iff.1 hvalue
  obtain rfl : v = w := Option.some.inj (hv.symm.trans hw)
  split at hm
  · split at hn
    · have := Option.some.inj hm
      have := Option.some.inj hn
      omega
    · cases hn
  · cases hm

/-- A text that is read back owes no more than fits a signed byte. -/
theorem owesReadably_of_read {t : MillState} (h : setFromFen options (exportFen s) = .ok t) :
    OwesReadably s := by
  obtain ⟨-, fenBoard, record, -, hreads, -⟩ := setFromFen_eq_ok.1 h
  rw [splitWhitespace_exportFen] at hreads
  have hremove : ∀ x, -128 ≤ fenSignedRemove s x ∧ fenSignedRemove s x ≤ 127 := by
    intro x
    rcases Side.eq_or_eq_opponent 0 x with rfl | rfl
    · exact parseSigned_signedDecimal_eq (parseOr_eq_ok.1 hreads.removeW)
    · exact parseSigned_signedDecimal_eq (parseOr_eq_ok.1 hreads.removeB)
  intro x
  have hx := hremove x
  unfold fenSignedRemove at hx
  cases hown : s.flags.removeOwnPiece x
  · rw [hown] at hx
    simp only [Bool.false_eq_true, if_false] at hx
    omega
  · rw [hown, if_pos rfl] at hx
    exact Or.inr ⟨rfl, by omega⟩

end Sanmill
