import Sanmill.Lib.Numerals
import Mathlib.Data.List.DropRight
import Mathlib.Data.List.TakeWhile

/-!
# Text

A string is the list of its characters. The operations are those a line-oriented
format is read and written with: splitting at white space, decimal numbers, and
parsers that accept what the integer types of the source accept (an optional sign,
leading zeros, and no value out of range). The round trips say that what was
written is read back.
-/

namespace Sanmill

/-- A text is its characters. -/
abbrev Text : Type := List Char

namespace Text

/-! ## White space -/

/-- The Unicode property `White_Space`. -/
def isWhitespace (c : Char) : Bool :=
  let n := c.toNat
  (9 ≤ n && n ≤ 13) || n = 0x20 || n = 0x85 || n = 0xA0 || n = 0x1680
    || (0x2000 ≤ n && n ≤ 0x200A) || n = 0x2028 || n = 0x2029 || n = 0x202F || n = 0x205F
    || n = 0x3000

/-- The maximal runs without white space. -/
def splitWhitespace (text : Text) : List Text :=
  (text.splitOnP isWhitespace).filter fun token : Text => !token.isEmpty

/-- Without the characters at both ends that `blank` holds of. -/
def trimWhere (blank : Char → Bool) (text : Text) : Text :=
  ((text.dropWhile blank).reverse.dropWhile blank).reverse

/-- Without the white space at both ends. -/
def trim (text : Text) : Text := trimWhere isWhitespace text

/-- White space, or the byte order mark. -/
def isDartBlank (c : Char) : Bool := isWhitespace c || c = Char.ofNat 0xFEFF

/-- `trim` of a Dart `String`. -/
def dartTrim (text : Text) : Text := trimWhere isDartBlank text

/-- The parts before and after the first `c`. -/
def splitOnce (c : Char) (text : Text) : Option (Text × Text) :=
  match text.dropWhile (· != c) with
  | [] => none
  | _ :: after => some (text.takeWhile (· != c), after)

theorem splitOnce_eq_some {c : Char} {text before after : Text} :
    splitOnce c text = some (before, after) ↔ text = before ++ c :: after ∧ c ∉ before := by
  unfold splitOnce
  constructor
  · intro h
    split at h
    · exact absurd h (by simp)
    · rename_i d rest hdrop
      obtain ⟨rfl, rfl⟩ := Prod.mk.inj (Option.some.inj h)
      have hd : d = c := by
        have := List.dropWhile_get_zero_not (· != c) text (by rw [hdrop]; exact Nat.succ_pos _)
        simpa [hdrop] using this
      refine ⟨?_, fun hmem => ?_⟩
      · rw [← hd, ← hdrop, hd, List.takeWhile_append_dropWhile]
      · have := List.all_eq_true.1 List.all_takeWhile c hmem
        simp at this
  · rintro ⟨rfl, hnot⟩
    have hbefore : ∀ d ∈ before, (d != c) = true := fun d hd => by
      rw [bne_iff_ne]
      exact fun heq => hnot (heq ▸ hd)
    rw [List.dropWhile_append_of_pos hbefore, List.takeWhile_append_of_pos hbefore]
    simp

theorem splitOnce_eq_none {c : Char} {text : Text} : splitOnce c text = none ↔ c ∉ text := by
  unfold splitOnce
  have hiff : text.dropWhile (· != c) = [] ↔ c ∉ text := by
    rw [List.dropWhile_eq_nil_iff]
    constructor
    · intro h hmem
      have := h c hmem
      simp at this
    · intro h d hd
      rw [bne_iff_ne]
      exact fun heq => h (heq ▸ hd)
  split
  · rename_i hnil
    exact iff_of_true rfl (hiff.1 hnil)
  · rename_i d rest hcons
    refine iff_of_false (by simp) fun h => ?_
    rw [hiff.2 h] at hcons
    exact absurd hcons (by simp)

/-- Length in bytes of the UTF-8 form. -/
def utf8Len (text : Text) : Nat := (text.map Char.utf8Size).sum

/-- The tokens with one blank between them. -/
def joinBlank (tokens : List Text) : Text := [' '].intercalate tokens

/-- A nonempty run without white space. -/
structure IsToken (token : Text) : Prop where
  nonempty : token ≠ []
  solid : ∀ c ∈ token, isWhitespace c = false

/-- A fixed token, looked through character by character. -/
theorem isToken_of_all {token : Text} (hne : token ≠ [])
    (hall : token.all (fun c => !isWhitespace c) = true) : IsToken token := by
  refine ⟨hne, fun c hc => ?_⟩
  have hsolid := List.all_eq_true.1 hall c hc
  rwa [Bool.not_eq_true'] at hsolid

/-- The pieces contain no separator. -/
theorem solid_of_mem_splitOnP {p : Char → Bool} {text piece : Text} (h : piece ∈ text.splitOnP p) :
    ∀ c ∈ piece, p c = false := by
  induction text generalizing piece with
  | nil =>
    intro c hc
    rw [List.splitOnP_nil, List.mem_singleton] at h
    subst h
    exact absurd hc List.not_mem_nil
  | cons a rest ih =>
    intro c hc
    rw [List.splitOnP_cons_eq_if_modifyHead] at h
    split at h
    · rcases List.mem_cons.1 h with rfl | h
      · exact absurd hc List.not_mem_nil
      · exact ih h c hc
    · rename_i ha
      obtain ⟨u, us, hu⟩ := List.exists_cons_of_ne_nil (List.splitOnP_ne_nil p rest)
      rw [hu, List.modifyHead_cons] at h
      rw [hu] at ih
      rcases List.mem_cons.1 h with rfl | h
      · rcases List.mem_cons.1 hc with rfl | hc
        · simpa using ha
        · exact ih List.mem_cons_self c hc
      · exact ih (List.mem_cons_of_mem u h) c hc

theorem not_mem_of_mem_splitOn {text piece : Text} {sep : Char} (h : piece ∈ text.splitOn sep) :
    sep ∉ piece := by
  intro hmem
  have := solid_of_mem_splitOnP h sep hmem
  simp at this

theorem isToken_of_mem_splitWhitespace {text token : Text} (h : token ∈ splitWhitespace text) :
    IsToken token := by
  unfold splitWhitespace at h
  rw [List.mem_filter] at h
  exact ⟨by simpa using h.2, solid_of_mem_splitOnP h.1⟩

/-- Splitting at the characters of a kind that has the blank undoes joining. -/
theorem filter_splitOnP_joinBlank {p : Char → Bool} (hblank : p ' ' = true) {tokens : List Text}
    (h : ∀ t ∈ tokens, t ≠ [] ∧ ∀ c ∈ t, p c = false) :
    ((joinBlank tokens).splitOnP p).filter (fun token : Text => !token.isEmpty) = tokens := by
  unfold joinBlank
  induction tokens with
  | nil => rfl
  | cons t ts ih =>
    obtain ⟨hne, hsolid⟩ := h t List.mem_cons_self
    have hts := ih fun u hu => h u (List.mem_cons_of_mem t hu)
    have hkeep : (!t.isEmpty) = true := by simpa using hne
    cases ts with
    | nil =>
      rw [List.intercalate_singleton, List.splitOnP_eq_singleton hsolid, List.filter_cons,
        if_pos hkeep, List.filter_nil]
    | cons u us =>
      rw [List.intercalate_cons_cons, List.append_assoc, List.singleton_append,
        List.splitOnP_append_cons_of_forall_mem hsolid ' ' hblank, List.filter_cons,
        if_pos hkeep, hts]

/-- **Splitting undoes joining.** -/
theorem splitWhitespace_joinBlank {tokens : List Text} (h : ∀ t ∈ tokens, IsToken t) :
    splitWhitespace (joinBlank tokens) = tokens :=
  filter_splitOnP_joinBlank (by decide) fun t ht => ⟨(h t ht).nonempty, (h t ht).solid⟩

theorem splitWhitespace_append (left : Text) {c : Char} (hc : isWhitespace c = true)
    (right : Text) :
    splitWhitespace (left ++ c :: right) = splitWhitespace left ++ splitWhitespace right := by
  unfold splitWhitespace
  rw [List.splitOnP_append_cons left right hc, List.filter_append]

theorem splitWhitespace_blank {text : Text} (h : ∀ c ∈ text, isWhitespace c = true) :
    splitWhitespace text = [] := by
  induction text with
  | nil => rfl
  | cons c rest ih =>
    have := splitWhitespace_append [] (h c List.mem_cons_self) rest
    rw [List.nil_append] at this
    rw [this, ih fun d hd => h d (List.mem_cons_of_mem c hd)]
    rfl

theorem splitWhitespace_append_blank {left right : Text}
    (h : ∀ c ∈ right, isWhitespace c = true) :
    splitWhitespace (left ++ right) = splitWhitespace left := by
  cases right with
  | nil => rw [List.append_nil]
  | cons c rest =>
    rw [splitWhitespace_append left (h c List.mem_cons_self),
      splitWhitespace_blank fun d hd => h d (List.mem_cons_of_mem c hd), List.append_nil]

theorem splitWhitespace_blank_append {left right : Text}
    (h : ∀ c ∈ left, isWhitespace c = true) :
    splitWhitespace (left ++ right) = splitWhitespace right := by
  induction left with
  | nil => rfl
  | cons c rest ih =>
    have := splitWhitespace_append [] (h c List.mem_cons_self) (rest ++ right)
    rw [List.nil_append] at this
    rw [List.cons_append, this, ih fun d hd => h d (List.mem_cons_of_mem c hd)]
    rfl

theorem trim_eq_nil_iff {text : Text} :
    trim text = [] ↔ ∀ c ∈ text, isWhitespace c = true := by
  unfold trim trimWhere
  rw [List.reverse_eq_nil_iff, List.dropWhile_eq_nil_iff]
  constructor
  · intro h
    have hnil : text.dropWhile isWhitespace = [] := by
      by_contra hne
      obtain ⟨c, rest, hcons⟩ := List.exists_cons_of_ne_nil hne
      have hhead := List.dropWhile_get_zero_not isWhitespace text
        (by rw [hcons]; exact Nat.succ_pos _)
      have hws := h c (by rw [hcons]; simp)
      simp only [hcons, List.get_eq_getElem, List.getElem_cons_zero] at hhead
      exact hhead hws
    exact List.dropWhile_eq_nil_iff.1 hnil
  · intro h c hc
    have hmem := (List.dropWhile_suffix isWhitespace).subset (List.mem_reverse.1 hc)
    exact h c hmem

/-- The ends do not matter to a reader of tokens. -/
theorem splitWhitespace_trim (text : Text) :
    splitWhitespace (trim text) = splitWhitespace text := by
  have hblank : ∀ (t : Text), ∀ c ∈ t.takeWhile isWhitespace, isWhitespace c = true :=
    fun t => List.all_eq_true.1 List.all_takeWhile
  have hfront : splitWhitespace (text.dropWhile isWhitespace) = splitWhitespace text := by
    rw [← splitWhitespace_blank_append (hblank text), List.takeWhile_append_dropWhile]
  let middle := (text.dropWhile isWhitespace).reverse
  have hback : splitWhitespace ((middle.dropWhile isWhitespace).reverse
      ++ (middle.takeWhile isWhitespace).reverse)
      = splitWhitespace (middle.dropWhile isWhitespace).reverse :=
    splitWhitespace_append_blank fun c hc => hblank middle c (List.mem_reverse.1 hc)
  rw [← List.reverse_append, List.takeWhile_append_dropWhile] at hback
  rw [← hfront]
  unfold trim trimWhere
  rw [← hback, List.reverse_reverse]

section TrimWhere

variable {blank : Char → Bool}

/-- A text that has no blank at either end, and only such a text, stays as it is. -/
theorem trimWhere_eq_self_iff {text : Text} :
    trimWhere blank text = text ↔ (∀ c ∈ text.head?, blank c = false)
      ∧ ∀ c ∈ text.getLast?, blank c = false := by
  have hdrop : ∀ {l : Text}, (∀ c ∈ l.head?, blank c = false) → l.dropWhile blank = l := by
    intro l hl
    cases l with
    | nil => rfl
    | cons c rest => rw [List.dropWhile_cons_of_neg (by rw [hl c rfl]; decide)]
  constructor
  · intro h
    have hlast : ∀ c ∈ text.getLast?, blank c = false := by
      intro c hc
      have hrev : text.reverse = (text.dropWhile blank).reverse.dropWhile blank := by
        rw [← List.reverse_reverse (List.dropWhile _ _)]
        exact congrArg List.reverse h.symm
      rw [← List.head?_reverse, hrev] at hc
      have := List.head?_dropWhile_not blank (text.dropWhile blank).reverse
      rw [hc] at this
      simpa using this
    refine ⟨fun c hc => ?_, hlast⟩
    -- nothing is cut off at the end, so a blank in front would be missing
    have hkeep : text.dropWhile blank = text := by
      refine (List.dropWhile_suffix blank).eq_of_length_le ?_
      calc text.length = (trimWhere blank text).length := by rw [h]
        _ = ((text.dropWhile blank).reverse.dropWhile blank).length := List.length_reverse
        _ ≤ (text.dropWhile blank).reverse.length := (List.dropWhile_suffix blank).length_le
        _ = (text.dropWhile blank).length := List.length_reverse
    have := List.head?_dropWhile_not blank text
    rw [hkeep, hc] at this
    simpa using this
  · rintro ⟨hhead, hlast⟩
    unfold trimWhere
    rw [hdrop hhead, hdrop (by rwa [List.head?_reverse]), List.reverse_reverse]

theorem trimWhere_of_solid {text : Text} (h : ∀ c ∈ text, blank c = false) :
    trimWhere blank text = text :=
  trimWhere_eq_self_iff.2 ⟨fun c hc => h c (List.mem_of_mem_head? hc),
    fun c hc => h c (List.mem_of_mem_getLast? hc)⟩

/-- Trimming keeps a first character that is not blank. -/
theorem trimWhere_cons {c : Char} (rest : Text) (hc : blank c = false) :
    ∃ rest', trimWhere blank (c :: rest) = c :: rest' := by
  have hneg : ¬blank c = true := by simp [hc]
  unfold trimWhere
  rw [List.dropWhile_cons_of_neg hneg, List.reverse_cons, List.dropWhile_append]
  split
  · rw [List.dropWhile_cons_of_neg hneg]
    exact ⟨[], rfl⟩
  · rw [List.reverse_append]
    exact ⟨_, rfl⟩

/-- A trimmed text does not start with a blank. -/
theorem trimWhere_head (text : Text) :
    ∀ c rest, trimWhere blank text = c :: rest → blank c = false := by
  intro c rest h
  cases hfront : text.dropWhile blank with
  | nil =>
    unfold trimWhere at h
    rw [hfront] at h
    cases h
  | cons d back =>
    have hd : blank d = false := by
      have := List.dropWhile_get_zero_not blank text (by rw [hfront]; exact Nat.succ_pos _)
      simpa [hfront] using this
    obtain ⟨back', hback⟩ := trimWhere_cons back hd
    have hsame : trimWhere blank text = trimWhere blank (d :: back) := by
      unfold trimWhere
      rw [hfront, List.dropWhile_cons_of_neg (by simp [hd])]
    rw [hsame, hback] at h
    rw [← (List.cons.inj h).1]
    exact hd

theorem trimWhere_trimWhere (text : Text) :
    trimWhere blank (trimWhere blank text) = trimWhere blank text := by
  refine trimWhere_eq_self_iff.2 ⟨fun c hc => ?_, fun c hc => ?_⟩
  · obtain ⟨rest, hrest⟩ := List.head?_eq_some_iff.1 hc
    exact trimWhere_head text c rest hrest
  · unfold trimWhere at hc
    rw [List.getLast?_reverse] at hc
    have := List.head?_dropWhile_not blank (text.dropWhile blank).reverse
    rw [hc] at this
    simpa using this

end TrimWhere

theorem trim_of_solid {text : Text} (h : ∀ c ∈ text, isWhitespace c = false) : trim text = text :=
  trimWhere_of_solid h

theorem trim_cons {c : Char} (rest : Text) (hc : isWhitespace c = false) :
    ∃ rest', trim (c :: rest) = c :: rest' := trimWhere_cons rest hc

theorem trim_head (text : Text) : ∀ c rest, trim text = c :: rest → isWhitespace c = false :=
  trimWhere_head text

theorem trim_trim (text : Text) : trim (trim text) = trim text := trimWhere_trimWhere text

theorem dartTrim_dartTrim (text : Text) : dartTrim (dartTrim text) = dartTrim text :=
  trimWhere_trimWhere text

/-! ## Lines -/

/-- `lines`: each ends at a line feed, with a carriage return before it, or at the end of the text,
where an empty one does not count. -/
def lines (text : Text) : List Text :=
  let pieces := text.splitOn '\n'
  let stripped := pieces.dropLast.map fun piece : Text =>
    if piece.getLast? = some '\r' then piece.dropLast else piece
  stripped ++ (pieces.getLast?.toList.filter fun piece : Text => !piece.isEmpty)

theorem mem_intercalate_of_mem {sep piece : Text} {pieces : List Text} (h : piece ∈ pieces)
    {c : Char} (hc : c ∈ piece) : c ∈ sep.intercalate pieces := by
  induction pieces with
  | nil => exact (List.not_mem_nil h).elim
  | cons first rest ih =>
    cases rest with
    | nil =>
      rw [List.intercalate_singleton]
      rwa [List.mem_singleton.1 h] at hc
    | cons second others =>
      rw [List.intercalate_cons_cons, List.append_assoc]
      rcases List.mem_cons.1 h with rfl | hrest
      · exact List.mem_append_left _ hc
      · exact List.mem_append_right _ (List.mem_append_right _ (ih hrest))

/-- Lines are made of the text. -/
theorem mem_of_mem_lines {text line : Text} (h : line ∈ lines text) {c : Char} (hc : c ∈ line) :
    c ∈ text := by
  have hpiece : ∀ piece ∈ text.splitOn '\n', ∀ d ∈ piece, d ∈ text := by
    intro piece hmem d hd
    have hjoin : ['\n'].intercalate (text.splitOn '\n') = text := List.intercalate_splitOn _
    rw [← hjoin]
    exact mem_intercalate_of_mem hmem hd
  rcases List.mem_append.1 h with hfirst | hlast
  · obtain ⟨piece, hmem, rfl⟩ := List.mem_map.1 hfirst
    have hin := List.dropLast_subset _ hmem
    split at hc
    · exact hpiece piece hin c (List.dropLast_subset _ hc)
    · exact hpiece piece hin c hc
  · have hmem := List.mem_of_getLast? (Option.mem_toList.1 (List.mem_of_mem_filter hlast))
    exact hpiece line hmem c hc

/-! ## Decimal numbers -/

/-- A number in decimal digits. -/
def decimal (n : Nat) : Text := Nat.toDigits 10 n

/-- A number with a minus where it is negative. -/
def signedDecimal (n : Int) : Text := if n < 0 then '-' :: decimal n.natAbs else decimal n.natAbs

/-- One or more digits. -/
def parseDigits (text : Text) : Option Nat :=
  if text ≠ [] ∧ text.all Char.isDigit then some (Nat.ofDigitChars 10 text 0) else none

/-- `parse` of an unsigned type: a sign, if any, is `+`. -/
def parseUnsigned (bound : Nat) (text : Text) : Option Nat :=
  let digits := match text with
    | '+' :: rest => rest
    | _ => text
  (parseDigits digits).bind fun value => if value ≤ bound then some value else none

/-- `parse` of a signed type. -/
def parseSigned (low high : Int) (text : Text) : Option Int :=
  let magnitude : Option Int := match text with
    | '-' :: rest => (parseDigits rest).map fun value => -Int.ofNat value
    | '+' :: rest => (parseDigits rest).map Int.ofNat
    | _ => (parseDigits text).map Int.ofNat
  magnitude.bind fun value => if low ≤ value ∧ value ≤ high then some value else none

/-- The overflow or the character that is no digit, whichever comes first. -/
def scanError (low high : Int) (negative : Bool) : Text → Int → String
  | [], _ => ""
  | c :: rest, value =>
    if c.isDigit then
      let digit : Int := (c.toNat - '0'.toNat : Nat)
      let value := if negative then value * 10 - digit else value * 10 + digit
      if high < value then "number too large to fit in target type"
      else if value < low then "number too small to fit in target type"
      else scanError low high negative rest value
    else "invalid digit found in string"

/-- The text of `ParseIntError` for a text that does not parse. -/
def intError (low high : Int) (text : Text) : String :=
  match text with
  | [] => "cannot parse integer from empty string"
  | '+' :: rest =>
    if rest = [] then "invalid digit found in string" else scanError low high false rest 0
  | '-' :: rest =>
    if rest = [] ∨ low = 0 then "invalid digit found in string" else scanError low high true rest 0
  | _ => scanError low high false text 0

theorem isDigit_of_mem_decimal {n : Nat} {c : Char} (h : c ∈ decimal n) : c.isDigit = true :=
  Nat.isDigit_of_mem_toDigits (by decide) (by decide) h

theorem decimal_ne_nil (n : Nat) : decimal n ≠ [] := Nat.toDigits_ne_nil

/-- A digit is none of the characters a format separates with. -/
theorem ne_of_isDigit {c d : Char} (hc : c.isDigit = true) (hd : d.isDigit = false) : c ≠ d :=
  fun h => by
    rw [h, hd] at hc
    exact Bool.false_ne_true hc

theorem isWhitespace_of_isDigit {c : Char} (h : c.isDigit = true) : isWhitespace c = false := by
  have hlow : 48 ≤ c.toNat ∧ c.toNat ≤ 57 := by
    unfold Char.isDigit at h
    rw [Bool.and_eq_true, decide_eq_true_eq, decide_eq_true_eq] at h
    exact ⟨h.1, h.2⟩
  unfold isWhitespace
  simp only [Bool.or_eq_false_iff, Bool.and_eq_false_iff, decide_eq_false_iff_not]
  omega

theorem isToken_decimal (n : Nat) : IsToken (decimal n) :=
  ⟨decimal_ne_nil n, fun _ hc => isWhitespace_of_isDigit (isDigit_of_mem_decimal hc)⟩

theorem isToken_signedDecimal (n : Int) : IsToken (signedDecimal n) := by
  unfold signedDecimal
  split
  · refine ⟨List.cons_ne_nil _ _, fun c hc => ?_⟩
    rcases List.mem_cons.1 hc with rfl | hc
    · decide
    · exact (isToken_decimal n.natAbs).solid c hc
  · exact isToken_decimal n.natAbs

theorem parseDigits_decimal (n : Nat) : parseDigits (decimal n) = some n := by
  unfold parseDigits
  rw [if_pos ⟨decimal_ne_nil n, List.all_eq_true.2 fun _ hc => isDigit_of_mem_decimal hc⟩]
  exact congrArg some Nat.ofDigitChars_ten_toDigits

/-- A digit string does not begin with a sign. -/
theorem decimal_cons {n : Nat} {c : Char} {rest : Text} (h : decimal n = c :: rest) :
    c ≠ '+' ∧ c ≠ '-' := by
  have hc : c.isDigit = true := isDigit_of_mem_decimal (by rw [h]; exact List.mem_cons_self)
  exact ⟨ne_of_isDigit hc (by decide), ne_of_isDigit hc (by decide)⟩

/-- A number above zero does not begin with a zero. -/
theorem decimal_head?_ne {n : Nat} (hpos : 0 < n) : (decimal n).head? ≠ some '0' := by
  induction n using Nat.strongRecOn with
  | ind n ih =>
    unfold decimal at ih ⊢
    by_cases hlt : n < 10
    · rw [Nat.toDigits_of_lt_base hlt]
      intro heq
      have hdigit : n.digitChar = '0' := Option.some.inj heq
      have hzero := Nat.digitChar_eq_zero.1 hdigit
      omega
    · rw [Nat.toDigits_of_base_le (by omega) (by omega),
        List.head?_append_of_ne_nil _ Nat.toDigits_ne_nil]
      exact ih (n / 10) (by omega) (by omega)

theorem decimal_zero (n : Nat) : (decimal n).head? = some '0' → decimal n = ['0'] := by
  intro hhead
  have hpos : ¬ 0 < n := fun hpos => decimal_head?_ne hpos hhead
  obtain rfl : n = 0 := by omega
  rfl

theorem parseUnsigned_decimal {bound n : Nat} (h : n ≤ bound) :
    parseUnsigned bound (decimal n) = some n := by
  have hdigits : (match decimal n with
      | '+' :: rest => rest
      | _ => decimal n) = decimal n := by
    split
    · rename_i rest heq
      exact absurd rfl (decimal_cons heq).1
    · rfl
  unfold parseUnsigned
  simp only [hdigits, parseDigits_decimal, Option.bind_some, if_pos h]

theorem parseSigned_signedDecimal {low high n : Int} (h : low ≤ n ∧ n ≤ high) :
    parseSigned low high (signedDecimal n) = some n := by
  unfold parseSigned signedDecimal
  by_cases hneg : n < 0
  · have hvalue : -Int.ofNat n.natAbs = n := by
      rw [Int.ofNat_eq_natCast]
      omega
    simp only [if_pos hneg, parseDigits_decimal, Option.map_some, hvalue, Option.bind_some,
      if_pos h]
  · have hvalue : Int.ofNat n.natAbs = n := by
      rw [Int.ofNat_eq_natCast]
      omega
    rw [if_neg hneg]
    split
    · rename_i rest heq
      exact absurd rfl (decimal_cons heq).2
    · rename_i rest heq
      exact absurd rfl (decimal_cons heq).1
    · simp only [parseDigits_decimal, Option.map_some, hvalue, Option.bind_some, if_pos h]

/-- What an unsigned parser accepts is in range. -/
theorem parseUnsigned_le {bound n : Nat} {text : Text} (h : parseUnsigned bound text = some n) :
    n ≤ bound := by
  unfold parseUnsigned at h
  obtain ⟨value, -, hvalue⟩ := Option.bind_eq_some_iff.1 h
  split at hvalue
  · rename_i hle
    rwa [← Option.some.inj hvalue]
  · exact absurd hvalue (by simp)

theorem parseSigned_range {low high n : Int} {text : Text}
    (h : parseSigned low high text = some n) : low ≤ n ∧ n ≤ high := by
  unfold parseSigned at h
  obtain ⟨value, -, hvalue⟩ := Option.bind_eq_some_iff.1 h
  split at hvalue
  · rename_i hrange
    rwa [← Option.some.inj hvalue]
  · exact absurd hvalue (by simp)

end Text

end Sanmill
