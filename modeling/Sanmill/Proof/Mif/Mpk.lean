import Sanmill.Mif.Mpk
import Sanmill.Proof.Mif.Outcome
import Sanmill.Proof.Mif.Transform

/-!
# The canonical text of a position key

The text is the least of the eight that the images of the board give, so it depends on the orbit of
the board, the player to move, the phase and the numbers of the hands, and it tells them.
-/

namespace Sanmill.Mif

open Orbit

/-! ## Accepted keys -/

/-- A player's hand as it is written. -/
def WrittenHand (text : Text) (n : Nat) : Prop := parseUint text "hands" = .ok n

/-- What a text of nine fields must be to be accepted. -/
structure MpkAccepted (manifest : Manifest) (fields : MpkFields) (white black : Text) : Prop where
  digest : validateMpkDigest manifest.semanticDigest = .ok ()
  board_length : fields.board.length = 24
  board_chars : ∀ c ∈ fields.board, c ∈ ['W', 'B', 'w', 'b', '.']
  side : fields.side ∈ [['w'], ['b']]
  phase : fields.phase ∈ [['p'], ['m']]
  white : WrittenHand white fields.hands.1
  black : WrittenHand black fields.hands.2

/-- The nine fields. -/
def mpkTokens (manifest : Manifest) (board side phase hands : Text) : List Text :=
  ["MPK/1.0".toList, "mill24-state-v1".toList, manifest.reference, manifest.semanticDigest,
    "structural-d4-v1".toList, board, side, phase, hands]

theorem ascii_of_piece {c : Char} (h : c ∈ ['W', 'B', 'w', 'b', '.']) :
    c.utf8Size = 1 ∧ c ≠ '/' := by
  have hall : (['W', 'B', 'w', 'b', '.'].all fun c => decide (c.utf8Size = 1 ∧ c ≠ '/'))
      = true := by
    decide
  exact of_decide_eq_true (List.all_eq_true.1 hall c h)

theorem parseMpk_ok_iff {manifest : Manifest} {value : Text} {fields : MpkFields} :
    parseMpk manifest value = .ok fields
      ↔ ∃ white black hands, hands.splitOn ',' = [white, black]
        ∧ splitAsciiWhitespace value = mpkTokens manifest fields.board fields.side
          fields.phase hands
        ∧ MpkAccepted manifest fields white black := by
  constructor
  · intro h
    unfold parseMpk at h
    -- every check of the parser is one field of `MpkAccepted`; the nesting is that of the source
    split at h
    · split at h
      · cases h
      · cases h
    · rename_i format profile reference digest kind board side phase hands htokens
      split at h
      · cases h
      · rename_i hformat
        obtain ⟨hformat, hprofile⟩ := not_or.1 hformat
        obtain ⟨_, hdigest, h⟩ := Except.bind_ok_iff.1 h
        split at h
        · cases h
        · rename_i href
          split at h
          · cases h
          · rename_i hsemantic
            split at h
            · cases h
            · rename_i hkind
              split at h
              · cases h
              · rename_i hboard
                obtain ⟨hlength, hrest⟩ := not_or.1 hboard
                obtain ⟨-, hchars⟩ := not_or.1 hrest
                split at h
                · cases h
                · rename_i hstate
                  obtain ⟨hside, hphase⟩ := not_or.1 hstate
                  split at h
                  · rename_i white black hsplit
                    obtain ⟨whiteCount, hwhite, h⟩ := Except.bind_ok_iff.1 h
                    obtain ⟨blackCount, hblack, h⟩ := Except.bind_ok_iff.1 h
                    obtain rfl := Except.ok.inj h
                    obtain rfl := not_not.1 hformat
                    obtain rfl := not_not.1 hprofile
                    obtain rfl := not_not.1 href
                    obtain rfl := not_not.1 hsemantic
                    obtain rfl := not_not.1 hkind
                    -- the length is counted in bytes, which for these letters is the number of
                    -- points
                    have hpieces : ∀ c ∈ board, c ∈ ['W', 'B', 'w', 'b', '.'] := by
                      intro c hc
                      by_contra hother
                      exact hchars (List.any_eq_true.2 ⟨c, hc, decide_eq_true hother⟩)
                    have hlen : board.length = 24 := by
                      rw [← utf8Len_ascii fun c hc => (ascii_of_piece (hpieces c hc)).1]
                      exact not_not.1 hlength
                    exact ⟨white, black, hands, hsplit, htokens, hdigest, hlen, hpieces,
                      not_not.1 hside, not_not.1 hphase, hwhite, hblack⟩
                  · cases h
    · cases h
  · rintro ⟨white, black, hands, hsplit, htokens, haccepted⟩
    have hlength : Text.utf8Len fields.board = 24 :=
      (utf8Len_ascii fun c hc => (ascii_of_piece (haccepted.board_chars c hc)).1).trans
        haccepted.board_length
    have hslash : fields.board.contains '/' = false := by
      rw [List.contains_eq_mem, decide_eq_false_iff_not]
      exact fun hmem => (ascii_of_piece (haccepted.board_chars _ hmem)).2 rfl
    have hchars : fields.board.any (fun c => c ∉ ['W', 'B', 'w', 'b', '.']) = false := by
      rw [List.any_eq_false]
      intro c hc
      rw [decide_eq_true_iff, not_not]
      exact haccepted.board_chars c hc
    have hwhite : parseUint white "hands" = .ok fields.hands.1 := haccepted.white
    have hblack : parseUint black "hands" = .ok fields.hands.2 := haccepted.black
    unfold parseMpk
    rw [htokens]
    unfold mpkTokens
    simp only [ne_eq, not_true_eq_false, or_self, if_false, haccepted.digest, hlength,
      hslash, hchars,
      Bool.false_eq_true, not_not.2 haccepted.side, not_not.2 haccepted.phase, hsplit,
      hwhite, hblack]
    rfl

/-! ## The least candidate -/

theorem mpkCandidate_eq {manifest : Manifest} {fields : MpkFields} {white black : Text}
    (h : MpkAccepted manifest fields white black) (transform : D4) :
    mpkCandidate manifest fields transform
      = .ok (mpkText manifest fields (imageText transform fields.board)) := by
  unfold mpkCandidate
  rw [transformMpkBoard_eq (fun c hc => ascii_of_piece (h.board_chars c hc)) h.board_length]
  rfl

/-- The least of the texts that the images of the board give. -/
structure LeastImage (manifest : Manifest) (fields : MpkFields) (text : Text) : Prop where
  image : ∃ transform, mpkText manifest fields (imageText transform fields.board) = text
  least : ∀ transform, text ≤ mpkText manifest fields (imageText transform fields.board)

theorem leastImage_unique {manifest : Manifest} {fields fields' : MpkFields} {text text' : Text}
    (h : LeastImage manifest fields text) (h' : LeastImage manifest fields' text')
    (hsame : ∀ transform, ∃ transform',
      mpkText manifest fields' (imageText transform' fields'.board)
        = mpkText manifest fields (imageText transform fields.board))
    (hsame' : ∀ transform', ∃ transform,
      mpkText manifest fields (imageText transform fields.board)
        = mpkText manifest fields' (imageText transform' fields'.board)) : text = text' := by
  apply le_antisymm
  · obtain ⟨transform', rfl⟩ := h'.image
    obtain ⟨transform, htransform⟩ := hsame' transform'
    rw [← htransform]
    exact h.least transform
  · obtain ⟨transform, rfl⟩ := h.image
    obtain ⟨transform', htransform'⟩ := hsame transform
    rw [← htransform']
    exact h'.least transform'

/-- Sorting puts a least element first. -/
theorem headD_mergeSort (texts : List Text) (h : texts ≠ []) :
    (texts.mergeSort fun a b => decide (a ≤ b)).headD [] ∈ texts
      ∧ ∀ text ∈ texts, (texts.mergeSort fun a b => decide (a ≤ b)).headD [] ≤ text := by
  have htrans : ∀ a b c : Text, decide (a ≤ b) = true → decide (b ≤ c) = true →
      decide (a ≤ c) = true :=
    fun a b c hab hbc => decide_eq_true (le_trans (of_decide_eq_true hab) (of_decide_eq_true hbc))
  have htotal : ∀ a b : Text, (decide (a ≤ b) || decide (b ≤ a)) = true := by
    intro a b
    rw [Bool.or_eq_true, decide_eq_true_iff, decide_eq_true_iff]
    exact le_total a b
  have hsorted := List.pairwise_mergeSort htrans htotal texts
  have hmem : ∀ text, text ∈ texts.mergeSort (fun a b => decide (a ≤ b)) ↔ text ∈ texts :=
    fun text => List.mem_mergeSort
  cases hsort : texts.mergeSort fun a b => decide (a ≤ b) with
  | nil =>
    have hlength : (texts.mergeSort fun a b => decide (a ≤ b)).length = texts.length :=
      List.length_mergeSort texts
    rw [hsort, List.length_nil] at hlength
    exact absurd (List.length_eq_zero_iff.1 hlength.symm) h
  | cons first rest =>
    rw [hsort] at hsorted hmem
    rw [List.headD_cons]
    refine ⟨(hmem first).1 List.mem_cons_self, fun text htext => ?_⟩
    rcases List.mem_cons.1 ((hmem text).2 htext) with rfl | hin
    · exact le_refl text
    · exact of_decide_eq_true ((List.pairwise_cons.1 hsorted).1 text hin)

/-- An accepted value and its canonical text. -/
theorem canonicalMpk_ok_iff {manifest : Manifest} {value text : Text} :
    canonicalMpk manifest value = .ok text
      ↔ ∃ fields, parseMpk manifest value = .ok fields ∧ LeastImage manifest fields text := by
  -- none of the candidates fails, so the sort is over all eight
  have hcandidates : ∀ fields, parseMpk manifest value = .ok fields →
      D4.all.mapM (mpkCandidate manifest fields)
        = .ok (D4.all.map fun transform =>
          mpkText manifest fields (imageText transform fields.board)) := by
    intro fields hparse
    obtain ⟨white, black, hands, -, -, haccepted⟩ := parseMpk_ok_iff.1 hparse
    refine Except.mapM_eq_ok_iff.2 ?_
    rw [List.forall₂_map_right_iff, List.forall₂_same]
    exact fun transform _ => mpkCandidate_eq haccepted transform
  have hleast : ∀ fields : MpkFields,
      LeastImage manifest fields (((D4.all.map fun transform =>
        mpkText manifest fields (imageText transform fields.board)).mergeSort
          fun a b => decide (a ≤ b)).headD []) := by
    intro fields
    obtain ⟨hmem, hle⟩ := headD_mergeSort (D4.all.map fun transform =>
      mpkText manifest fields (imageText transform fields.board)) (List.cons_ne_nil _ _)
    obtain ⟨transform, -, htransform⟩ := List.mem_map.1 hmem
    exact ⟨⟨transform, htransform⟩, fun transform =>
      hle _ (List.mem_map.2 ⟨transform, D4.mem_all transform, rfl⟩)⟩
  constructor
  · intro h
    unfold canonicalMpk at h
    obtain ⟨fields, hfields, h⟩ := Except.bind_ok_iff.1 h
    obtain ⟨candidates, hall, h⟩ := Except.bind_ok_iff.1 h
    have hparse := Checked.ofResult_ok_iff.1 hfields
    rw [hcandidates fields hparse] at hall
    obtain rfl := Except.ok.inj hall
    obtain rfl := Except.ok.inj h
    exact ⟨fields, hparse, hleast fields⟩
  · rintro ⟨fields, hparse, h⟩
    have htext := leastImage_unique h (hleast fields) (fun transform => ⟨transform, rfl⟩)
      fun transform => ⟨transform, rfl⟩
    unfold canonicalMpk
    rw [hparse]
    show (D4.all.mapM (mpkCandidate manifest fields) >>= fun candidates =>
      Except.ok ((candidates.mergeSort fun a b => decide (a ≤ b)).headD [])) = .ok text
    rw [hcandidates fields hparse, htext]
    rfl

/-! ## The fields of a canonical text -/

/-- A nonempty run without ASCII white space. -/
def AsciiToken (text : Text) : Prop :=
  text ≠ [] ∧ ∀ c ∈ text, (c = ' ' || c = '\t' || c = '\n' || c.toNat = 12 || c = '\r') = false

theorem asciiToken_of_mem {value token : Text} (h : token ∈ splitAsciiWhitespace value) :
    AsciiToken token := by
  unfold splitAsciiWhitespace at h
  obtain ⟨hmem, hne⟩ := List.mem_filter.1 h
  refine ⟨?_, Text.solid_of_mem_splitOnP hmem⟩
  rintro rfl
  cases hne

theorem asciiToken_hands (hands : Nat × Nat) :
    AsciiToken (Text.decimal hands.1 ++ ',' :: Text.decimal hands.2) := by
  refine ⟨List.append_ne_nil_of_right_ne_nil _ (List.cons_ne_nil _ _), fun c hc => ?_⟩
  have hsolid : c.isDigit = true ∨ c = ',' := by
    rcases List.mem_append.1 hc with hc | hc
    · exact .inl (Text.isDigit_of_mem_decimal hc)
    · rcases List.mem_cons.1 hc with rfl | hc
      · exact .inr rfl
      · exact .inl (Text.isDigit_of_mem_decimal hc)
  rcases hsolid with hdigit | rfl
  · have hne : ∀ {d : Char}, d.isDigit = false → c ≠ d := Text.ne_of_isDigit hdigit
    have hfeed : c.toNat ≠ 12 := by
      intro heq
      have hchar : c = Char.ofNat 12 := by rw [← heq, Char.ofNat_toNat]
      exact hne (by decide) hchar
    simp only [Bool.or_eq_false_iff, decide_eq_false_iff_not]
    exact ⟨⟨⟨⟨hne (by decide), hne (by decide)⟩, hne (by decide)⟩, hfeed⟩, hne (by decide)⟩
  · decide

theorem asciiToken_of_board {board : Text} (hlength : board.length = 24)
    (hboard : ∀ c ∈ board, c ∈ ['W', 'B', 'w', 'b', '.']) : AsciiToken board := by
  refine ⟨List.ne_nil_of_length_eq_add_one hlength, fun c hc => ?_⟩
  have hall : (['W', 'B', 'w', 'b', '.'].all fun c =>
      !(c = ' ' || c = '\t' || c = '\n' || c.toNat = 12 || c = '\r')) = true := by
    decide
  have hsolid := List.all_eq_true.1 hall c (hboard c hc)
  rwa [Bool.not_eq_true'] at hsolid

/-- The board, the player, the phase and the hands of an accepted key are read back. -/
theorem splitAsciiWhitespace_mpkText {manifest : Manifest} {value : Text} {fields : MpkFields}
    (h : parseMpk manifest value = .ok fields) {board : Text} (hlength : board.length = 24)
    (hboard : ∀ c ∈ board, c ∈ ['W', 'B', 'w', 'b', '.']) :
    splitAsciiWhitespace (mpkText manifest fields board)
      = mpkTokens manifest board fields.side fields.phase
          (Text.decimal fields.hands.1 ++ ',' :: Text.decimal fields.hands.2) := by
  obtain ⟨white, black, hands, -, htokens, -⟩ := parseMpk_ok_iff.1 h
  have htoken : ∀ t ∈ mpkTokens manifest fields.board fields.side fields.phase hands,
      AsciiToken t := by
    intro t ht
    rw [← htokens] at ht
    exact asciiToken_of_mem ht
  have hboardToken := asciiToken_of_board hlength hboard
  unfold splitAsciiWhitespace mpkText
  refine Text.filter_splitOnP_joinBlank (by decide) fun t ht => ?_
  unfold mpkTokens at htoken
  rw [List.forall_mem_cons, List.forall_mem_cons, List.forall_mem_cons, List.forall_mem_cons,
    List.forall_mem_cons, List.forall_mem_cons, List.forall_mem_cons,
    List.forall_mem_cons] at htoken
  obtain ⟨hformat, hprofile, href, hdigest, hkind, -, hside, hphase, -⟩ := htoken
  have hall : ∀ t ∈ ["MPK/1.0".toList, "mill24-state-v1".toList, manifest.reference,
      manifest.semanticDigest, "structural-d4-v1".toList, board, fields.side, fields.phase,
      Text.decimal fields.hands.1 ++ ',' :: Text.decimal fields.hands.2], AsciiToken t := by
    rw [List.forall_mem_cons, List.forall_mem_cons, List.forall_mem_cons, List.forall_mem_cons,
      List.forall_mem_cons, List.forall_mem_cons, List.forall_mem_cons, List.forall_mem_cons,
      List.forall_mem_singleton]
    exact ⟨hformat, hprofile, href, hdigest, hkind, hboardToken, hside, hphase,
      asciiToken_hands fields.hands⟩
  exact hall t ht

theorem parseUint_decimal {n : Nat} (h : n ≤ 2 ^ 64 - 1) (field : String) :
    parseUint (Text.decimal n) field = .ok n := by
  unfold parseUint
  have hzero : ¬(1 < (Text.decimal n).length ∧ (Text.decimal n).head? = some '0') := by
    rintro ⟨hlong, hhead⟩
    rw [Text.decimal_zero n hhead] at hlong
    exact absurd hlong (by decide)
  rw [if_neg hzero, Text.parseUnsigned_decimal h]

theorem parseUint_ok {text : Text} {field : String} {n : Nat} (h : parseUint text field = .ok n) :
    Text.parseUnsigned (2 ^ 64 - 1) text = some n := by
  unfold parseUint at h
  split at h
  · cases h
  · split at h
    · rename_i value hvalue
      rw [hvalue, Except.ok.inj h]
    · cases h

theorem splitOn_hands (white black : Nat) :
    (Text.decimal white ++ ',' :: Text.decimal black).splitOn ','
      = [Text.decimal white, Text.decimal black] := by
  have hdigits : ∀ n : Nat, ∀ c ∈ Text.decimal n, (c == ',') = false := fun n c hc =>
    beq_eq_false_iff_ne.2 (Text.ne_of_isDigit (Text.isDigit_of_mem_decimal hc) (by decide))
  rw [List.splitOn_eq_splitOnP,
    List.splitOnP_append_cons_of_forall_mem (hdigits white) ',' (by decide),
    List.splitOnP_eq_singleton (hdigits black)]

/-- A key with another board of the same length and characters. -/
theorem parseMpk_mpkText {manifest : Manifest} {value : Text} {fields : MpkFields}
    (h : parseMpk manifest value = .ok fields) (transform : D4) :
    parseMpk manifest (mpkText manifest fields (imageText transform fields.board))
      = .ok { fields with board := imageText transform fields.board } := by
  obtain ⟨white, black, hands, -, -, haccepted⟩ := parseMpk_ok_iff.1 h
  have hchars : ∀ c ∈ imageText transform fields.board, c ∈ ['W', 'B', 'w', 'b', '.'] :=
    fun c hc => haccepted.board_chars c ((mem_imageText haccepted.board_length).1 hc)
  have hwhite := Text.parseUnsigned_le (parseUint_ok haccepted.white)
  have hblack := Text.parseUnsigned_le (parseUint_ok haccepted.black)
  refine parseMpk_ok_iff.2 ⟨_, _, _, splitOn_hands fields.hands.1 fields.hands.2, ?_, ?_⟩
  · exact splitAsciiWhitespace_mpkText h (length_imageText _ _) hchars
  · exact ⟨haccepted.digest, length_imageText _ _, hchars, haccepted.side, haccepted.phase,
      parseUint_decimal hwhite "hands", parseUint_decimal hblack "hands"⟩

/-! ## The orbit of a key -/

/-- The `k`-th field of a value. -/
def mpkField (value : Text) (k : Nat) : Text := (splitAsciiWhitespace value).getD k []

/-- The numbers of the hands field. -/
def mpkHands (value : Text) : List (Option Nat) :=
  ((mpkField value 8).splitOn ',').map (Text.parseUnsigned (2 ^ 64 - 1))

/-- The value with another board. -/
def mpkImage (value board : Text) : Text :=
  Text.joinBlank ((splitAsciiWhitespace value).set 5 board)

/-- The boards lie in one orbit, and the player, the phase and the hands are the same. -/
structure SameKey (value value' : Text) : Prop where
  board : ∃ transform, transformMpkBoard (mpkField value 5) transform = .ok (mpkField value' 5)
  side : mpkField value 6 = mpkField value' 6
  phase : mpkField value 7 = mpkField value' 7
  hands : mpkHands value = mpkHands value'

/-- The fields of an accepted value, at their places. -/
structure MpkReads (value : Text) (fields : MpkFields) : Prop where
  board : mpkField value 5 = fields.board
  side : mpkField value 6 = fields.side
  phase : mpkField value 7 = fields.phase
  hands : mpkHands value = [some fields.hands.1, some fields.hands.2]
  transforms : ∀ transform,
    transformMpkBoard (mpkField value 5) transform = .ok (imageText transform fields.board)
  length : fields.board.length = 24

theorem mpkReads_of_parse {manifest : Manifest} {value : Text} {fields : MpkFields}
    (h : parseMpk manifest value = .ok fields) : MpkReads value fields := by
  obtain ⟨white, black, hands, hsplit, htokens, haccepted⟩ := parseMpk_ok_iff.1 h
  have hboard : mpkField value 5 = fields.board := by
    unfold mpkField
    rw [htokens]
    rfl
  refine ⟨hboard, ?_, ?_, ?_, ?_, haccepted.board_length⟩
  · unfold mpkField
    rw [htokens]
    rfl
  · unfold mpkField
    rw [htokens]
    rfl
  · have hfield : mpkField value 8 = hands := by
      unfold mpkField
      rw [htokens]
      rfl
    unfold mpkHands
    rw [hfield, hsplit, List.map_cons, List.map_cons, List.map_nil, parseUint_ok haccepted.white,
      parseUint_ok haccepted.black]
  · intro transform
    rw [hboard]
    exact transformMpkBoard_eq (fun c hc => ascii_of_piece (haccepted.board_chars c hc))
      haccepted.board_length transform

/-- An image of an accepted value is accepted. -/
theorem parseMpk_mpkImage {manifest : Manifest} {value : Text} {fields : MpkFields}
    (h : parseMpk manifest value = .ok fields) (transform : D4) :
    parseMpk manifest (mpkImage value (imageText transform fields.board))
      = .ok { fields with board := imageText transform fields.board } := by
  obtain ⟨white, black, hands, hsplit, htokens, haccepted⟩ := parseMpk_ok_iff.1 h
  have hchars : ∀ c ∈ imageText transform fields.board, c ∈ ['W', 'B', 'w', 'b', '.'] :=
    fun c hc => haccepted.board_chars c ((mem_imageText haccepted.board_length).1 hc)
  refine parseMpk_ok_iff.2 ⟨white, black, hands, hsplit, ?_, haccepted.digest, length_imageText _ _,
    hchars, haccepted.side, haccepted.phase, haccepted.white, haccepted.black⟩
  have hset : (splitAsciiWhitespace value).set 5 (imageText transform fields.board)
      = mpkTokens manifest (imageText transform fields.board) fields.side fields.phase hands := by
    rw [htokens]
    rfl
  unfold mpkImage
  rw [hset]
  refine Text.filter_splitOnP_joinBlank (by decide) fun t ht => ?_
  rw [← hset] at ht
  rcases List.mem_or_eq_of_mem_set ht with hold | rfl
  · exact asciiToken_of_mem hold
  · exact asciiToken_of_board (length_imageText _ _) hchars

/-- The images of an image are the images of the board. -/
theorem LeastImage.of_orbit {manifest : Manifest} {fields fields' : MpkFields} {text text' : Text}
    (h : LeastImage manifest fields text) (h' : LeastImage manifest fields' text')
    (hlength : fields.board.length = 24) (horbit : SameOrbit imageText fields.board fields'.board)
    (hside : fields.side = fields'.side) (hphase : fields.phase = fields'.phase)
    (hhands : fields.hands = fields'.hands) : text = text' := by
  have htext : ∀ board, mpkText manifest fields' board = mpkText manifest fields board := by
    intro board
    unfold mpkText
    rw [hside, hphase, hhands]
  have hlength' : fields'.board.length = 24 := by
    obtain ⟨transform, htransform⟩ := horbit
    rw [← htransform]
    exact length_imageText _ _
  refine leastImage_unique h h' (fun transform => ?_) fun transform' => ?_
  · obtain ⟨transform', himage⟩ := closedFamily_imageText.trans hlength'
      (closedFamily_imageText.symm hlength horbit) ⟨transform, rfl⟩
    exact ⟨transform', by rw [htext, himage]⟩
  · obtain ⟨transform, himage⟩ := closedFamily_imageText.trans hlength horbit ⟨transform', rfl⟩
    exact ⟨transform, by rw [htext, himage]⟩

theorem canonicalMpk_eq_iff {manifest : Manifest} {value value' text text' : Text}
    (h : canonicalMpk manifest value = .ok text) (h' : canonicalMpk manifest value' = .ok text') :
    text = text' ↔ SameKey value value' := by
  obtain ⟨fields, hparse, hleast⟩ := canonicalMpk_ok_iff.1 h
  obtain ⟨fields', hparse', hleast'⟩ := canonicalMpk_ok_iff.1 h'
  have hreads := mpkReads_of_parse hparse
  have hreads' := mpkReads_of_parse hparse'
  constructor
  · rintro rfl
    -- both keys are images of their own boards; parsing the common text puts one into the orbit of
    -- the other
    obtain ⟨transform, htransform⟩ := hleast.image
    obtain ⟨transform', htransform'⟩ := hleast'.image
    have hback := parseMpk_mpkText hparse transform
    rw [htransform, ← htransform', parseMpk_mpkText hparse' transform'] at hback
    obtain ⟨hboard, hside, hphase, hhands⟩ := MpkFields.mk.inj (Except.ok.inj hback)
    obtain ⟨between, hbetween⟩ := closedFamily_imageText.of_common hreads.length hreads'.length
      ⟨transform, rfl⟩ ⟨transform', hboard⟩
    refine ⟨⟨between, ?_⟩, ?_, ?_, ?_⟩
    · rw [hreads.transforms, hbetween, hreads'.board]
    · rw [hreads.side, hreads'.side, hside]
    · rw [hreads.phase, hreads'.phase, hphase]
    · rw [hreads.hands, hreads'.hands, hhands]
  · intro hsame
    obtain ⟨transform, htransform⟩ := hsame.board
    rw [hreads.transforms, hreads'.board] at htransform
    have hhands : fields.hands = fields'.hands := by
      have hnumbers := hsame.hands
      rw [hreads.hands, hreads'.hands] at hnumbers
      obtain ⟨hwhite, hrest⟩ := List.cons.inj hnumbers
      obtain ⟨hblack, -⟩ := List.cons.inj hrest
      exact Prod.ext (Option.some.inj hwhite) (Option.some.inj hblack)
    -- boards of one orbit have the same least image
    refine hleast.of_orbit hleast' hreads.length ⟨transform, Except.ok.inj htransform⟩ ?_ ?_ hhands
    · rw [← hreads.side, ← hreads'.side, hsame.side]
    · rw [← hreads.phase, ← hreads'.phase, hsame.phase]

/-! ## Canonicalizing -/

theorem canonicalizeMpk_ok_iff {identity : Identity} {manifestValue : Option Json} {value : Text}
    {answer : Json} :
    canonicalizeMpk identity value manifestValue = .ok answer
      ↔ ∃ document manifest text, manifestValue = some document
        ∧ Manifest.new identity document = .ok manifest ∧ canonicalMpk manifest value = .ok text
        ∧ answer = .ofMembers [("value", .str text)] := by
  unfold canonicalizeMpk
  cases manifestValue with
  | none =>
    constructor
    · intro h
      cases h
    · rintro ⟨document, -, -, hnone, -⟩
      cases hnone
  | some document =>
    constructor
    · intro h
      obtain ⟨document', hdocument, h⟩ := Except.bind_ok_iff.1 h
      obtain rfl := Except.ok.inj hdocument
      obtain ⟨manifest, hmanifest, h⟩ := Except.bind_ok_iff.1 h
      obtain ⟨text, htext, h⟩ := Except.bind_ok_iff.1 h
      exact ⟨document, manifest, text, rfl, Checked.ofResult_ok_iff.1 hmanifest, htext,
        (Except.ok.inj h).symm⟩
    · rintro ⟨document', manifest, text, hdocument, hmanifest, htext, rfl⟩
      obtain rfl := Option.some.inj hdocument
      exact Except.bind_ok_iff.2 ⟨document, rfl, Except.bind_ok_iff.2
        ⟨manifest, Checked.ofResult_ok_iff.2 hmanifest, Except.bind_ok_iff.2 ⟨text, htext, rfl⟩⟩⟩

theorem answer_injective {text text' : Text}
    (h : Json.ofMembers [("value", .str text)] = Json.ofMembers [("value", .str text')]) :
    text = text' := by
  have hget : ∀ text : Text, (Json.ofMembers [("value", .str text)]).get "value"
      = some (.str text) := by
    intro text
    rw [Json.get_ofMembers]
    rfl
  have hsame := hget text
  rw [h, hget text'] at hsame
  exact (Json.str.inj (Option.some.inj hsame)).symm

/-- **The canonical text of a key is that of its orbit.** -/
theorem canonicalizeMpk_canonical {identity : Identity} {manifestValue : Option Json} {value : Text}
    {answer : Json} (h : canonicalizeMpk identity value manifestValue = .ok answer) :
    (∃ text, answer = .ofMembers [("value", .str text)]
      ∧ canonicalizeMpk identity text manifestValue = .ok answer)
    ∧ (∀ transform, ∃ board, transformMpkBoard (mpkField value 5) transform = .ok board
      ∧ canonicalizeMpk identity (mpkImage value board) manifestValue = .ok answer)
    ∧ ∀ value' answer', canonicalizeMpk identity value' manifestValue = .ok answer' →
      (answer = answer' ↔ SameKey value value') := by
  obtain ⟨document, manifest, text, rfl, hmanifest, htext, rfl⟩ := canonicalizeMpk_ok_iff.1 h
  obtain ⟨fields, hparse, hleast⟩ := canonicalMpk_ok_iff.1 htext
  have hreads := mpkReads_of_parse hparse
  -- the images of a board that is an image are those of the board
  have hagain : ∀ {other : Text} (transform : D4),
      parseMpk manifest other = .ok { fields with board := imageText transform fields.board } →
      canonicalMpk manifest other = .ok text := by
    intro other transform hother
    refine canonicalMpk_ok_iff.2 ⟨_, hother, ?_, fun transform' => ?_⟩
    · obtain ⟨transform', htransform'⟩ := hleast.image
      obtain ⟨back, hback⟩ := closedFamily_imageText.trans (length_imageText transform fields.board)
        (closedFamily_imageText.symm hreads.length ⟨transform, rfl⟩) ⟨transform', rfl⟩
      exact ⟨back, (congrArg (mpkText manifest fields) hback).trans htransform'⟩
    · obtain ⟨both, hboth⟩ := closedFamily_imageText.trans hreads.length ⟨transform, rfl⟩
        ⟨transform', rfl⟩
      exact (hleast.least both).trans_eq (congrArg (mpkText manifest fields) hboth)
  refine ⟨⟨text, rfl, ?_⟩, fun transform => ⟨_, hreads.transforms transform, ?_⟩, ?_⟩
  · obtain ⟨transform, htransform⟩ := hleast.image
    have hback := parseMpk_mpkText hparse transform
    rw [htransform] at hback
    exact canonicalizeMpk_ok_iff.2 ⟨document, manifest, text, rfl, hmanifest,
      hagain transform hback, rfl⟩
  · exact canonicalizeMpk_ok_iff.2 ⟨document, manifest, text, rfl, hmanifest,
      hagain transform (parseMpk_mpkImage hparse transform), rfl⟩
  · intro value' answer' h'
    obtain ⟨document', manifest', text', hdocument, hmanifest', htext', rfl⟩ :=
      canonicalizeMpk_ok_iff.1 h'
    obtain rfl := Option.some.inj hdocument
    obtain rfl := Except.ok.inj (hmanifest.symm.trans hmanifest')
    rw [← canonicalMpk_eq_iff htext htext']
    exact ⟨answer_injective, fun heq => heq ▸ rfl⟩

/-- One white piece in a corner. -/
def sampleKey : Text :=
  "MPK/1.0 mill24-state-v1 example-morris@1 sha256:9a6c8eea359973019f1da00ef2abd88ec595aece8a7c63cf33e89a675aec683b structural-d4-v1 W....................... b p 8,+9".toList

theorem canonicalizeMpk_canonical_corner :
    ∃ answer, canonicalizeMpk Engine.sampleIdentity sampleKey (some Engine.sampleManifest)
      = .ok answer
      ∧ ∀ transform, ∃ board, transformMpkBoard (mpkField sampleKey 5) transform = .ok board
        ∧ canonicalizeMpk Engine.sampleIdentity (mpkImage sampleKey board)
          (some Engine.sampleManifest) = .ok answer := by
  have haccepted : (canonicalizeMpk Engine.sampleIdentity sampleKey
      (some Engine.sampleManifest)).toBool = true := by decide +kernel
  cases hanswer : canonicalizeMpk Engine.sampleIdentity sampleKey (some Engine.sampleManifest) with
  | error fault =>
    rw [hanswer] at haccepted
    cases haccepted
  | ok answer => exact ⟨answer, rfl, (canonicalizeMpk_canonical hanswer).2.1⟩

end Sanmill.Mif
