import Sanmill.Lib.JsonText

/-!
# What was written is read back

A number is read up to a character that cannot continue it, a string up to its closing
quote, and a value up to what follows it.
-/

namespace Sanmill.JsonText

variable {δ : Type} {format : DoubleFormat δ}

/-! ## Numbers -/

/-- No digit comes next. -/
def EndsDigits (rest : Text) : Prop := ∀ c, rest.head? = some c → c.isDigit = false

/-- Nothing comes next that continues a number. -/
def EndsNumber (rest : Text) : Prop :=
  ∀ c, rest.head? = some c → c.isDigit = false ∧ c ≠ '.' ∧ c ≠ 'e' ∧ c ≠ 'E'

theorem EndsNumber.digits {rest : Text} (h : EndsNumber rest) : EndsDigits rest :=
  fun c hc => (h c hc).1

theorem endsDigits_cons {c : Char} {rest : Text} (h : c.isDigit = false) :
    EndsDigits (c :: rest) := by
  intro d hd
  obtain rfl := Option.some.inj hd
  exact h

theorem endsNumber_nil : EndsNumber [] := by
  intro c hc
  cases hc

theorem endsNumber_cons {c : Char} {rest : Text} (hdigit : c.isDigit = false) (hdot : c ≠ '.')
    (hlower : c ≠ 'e') (hupper : c ≠ 'E') : EndsNumber (c :: rest) := by
  intro d hd
  obtain rfl := Option.some.inj hd
  exact ⟨hdigit, hdot, hlower, hupper⟩

theorem digits_iff {text : Text} :
    digits text = true ↔ text ≠ [] ∧ ∀ c ∈ text, c.isDigit = true := by
  unfold digits
  simp

theorem takeWhile_eq_nil_of_endsDigits {rest : Text} (h : EndsDigits rest) :
    rest.takeWhile Char.isDigit = [] ∧ rest.dropWhile Char.isDigit = rest := by
  cases rest with
  | nil => exact ⟨rfl, rfl⟩
  | cons c tail =>
    have hc : ¬ c.isDigit = true := by
      rw [h c rfl]
      exact Bool.false_ne_true
    exact ⟨List.takeWhile_cons_of_neg hc, List.dropWhile_cons_of_neg hc⟩

theorem scanDigits_append {text rest : Text} (htext : digits text = true)
    (hrest : EndsDigits rest) : scanDigits (text ++ rest) = some (text, rest) := by
  obtain ⟨hne, hall⟩ := digits_iff.1 htext
  obtain ⟨htake, hdrop⟩ := takeWhile_eq_nil_of_endsDigits hrest
  unfold scanDigits
  rw [List.takeWhile_append_of_pos hall, List.dropWhile_append_of_pos hall, htake, hdrop,
    List.append_nil, if_neg]
  simpa using hne

theorem scanSign_append {negative : Bool} {rest : Text} (hrest : rest.head? ≠ some '-') :
    scanSign (NumberLiteral.signText negative ++ rest) = (negative, rest) := by
  cases negative with
  | true => rfl
  | false =>
    unfold NumberLiteral.signText scanSign
    split
    · rename_i tail heq
      rw [if_neg Bool.false_ne_true, List.nil_append] at heq
      rw [heq] at hrest
      exact absurd rfl hrest
    · rfl

theorem scanWhole_append {whole rest : Text} (hdigits : digits whole = true)
    (hzero : whole.head? = some '0' → whole = ['0']) (hrest : EndsDigits rest) :
    scanWhole (whole ++ rest) = some (whole, rest) := by
  unfold scanWhole
  rw [scanDigits_append hdigits hrest]
  dsimp only
  rw [if_neg]
  rintro ⟨hhead, hne⟩
  exact hne (hzero hhead)

theorem scanFraction_append {fraction : Option Text} {rest : Text}
    (hfraction : ∀ text ∈ fraction, digits text = true) (hrest : EndsDigits rest)
    (hdot : rest.head? ≠ some '.') :
    scanFraction (NumberLiteral.fractionText fraction ++ rest) = some (fraction, rest) := by
  cases fraction with
  | none =>
    unfold NumberLiteral.fractionText scanFraction
    split
    · rename_i tail heq
      rw [List.nil_append] at heq
      rw [heq] at hdot
      exact absurd rfl hdot
    · rfl
  | some text =>
    change (scanDigits (text ++ rest)).map _ = _
    rw [scanDigits_append (hfraction text rfl) hrest]
    rfl

theorem scanExponent_append {exponent : Option (Text × Text)} {rest : Text}
    (hexponent : ∀ parts ∈ exponent,
      parts.1 ∈ NumberLiteral.exponentMarks ∧ digits parts.2 = true)
    (hrest : EndsNumber rest) :
    scanExponent (NumberLiteral.exponentText exponent ++ rest) = some (exponent, rest) := by
  cases exponent with
  | none =>
    cases rest with
    | nil => rfl
    | cons c tail =>
      obtain ⟨-, -, hlower, hupper⟩ := hrest c rfl
      change (if c = 'e' ∨ c = 'E' then _ else _) = _
      rw [if_neg (not_or.2 ⟨hlower, hupper⟩)]
  | some parts =>
    obtain ⟨mark, text⟩ := parts
    obtain ⟨hmark, htext⟩ := hexponent _ rfl
    have hscan := scanDigits_append htext hrest.digits
    -- an exponent without a sign begins with a digit
    obtain ⟨d, tail, rfl, hd⟩ : ∃ d tail, text = d :: tail ∧ d.isDigit = true := by
      obtain ⟨hne, hall⟩ := digits_iff.1 htext
      cases text with
      | nil => exact absurd rfl hne
      | cons d tail => exact ⟨d, tail, rfl, hall d List.mem_cons_self⟩
    have hplus : d ≠ '+' := Text.ne_of_isDigit hd (by decide)
    have hminus : d ≠ '-' := Text.ne_of_isDigit hd (by decide)
    rw [List.cons_append] at hscan
    unfold NumberLiteral.exponentMarks at hmark
    simp only [List.mem_cons, List.not_mem_nil, or_false] at hmark
    rcases hmark with rfl | rfl | rfl | rfl | rfl | rfl
    all_goals
      simp [NumberLiteral.exponentText, scanExponent, hscan, hplus, hminus]

theorem exponentText_endsDigits {exponent : Option (Text × Text)} {rest : Text}
    (hexponent : ∀ parts ∈ exponent,
      parts.1 ∈ NumberLiteral.exponentMarks ∧ digits parts.2 = true)
    (hrest : EndsNumber rest) :
    EndsDigits (NumberLiteral.exponentText exponent ++ rest)
      ∧ (NumberLiteral.exponentText exponent ++ rest).head? ≠ some '.' := by
  cases exponent with
  | none =>
    refine ⟨hrest.digits, fun hdot => ?_⟩
    exact (hrest '.' hdot).2.1 rfl
  | some parts =>
    obtain ⟨mark, text⟩ := parts
    obtain ⟨hmark, -⟩ := hexponent _ rfl
    unfold NumberLiteral.exponentMarks at hmark
    simp only [List.mem_cons, List.not_mem_nil, or_false] at hmark
    rcases hmark with rfl | rfl | rfl | rfl | rfl | rfl
    all_goals
      exact ⟨endsDigits_cons (by decide), by simp [NumberLiteral.exponentText]⟩

theorem fractionText_endsDigits {fraction : Option Text} {rest : Text} (hrest : EndsDigits rest) :
    EndsDigits (NumberLiteral.fractionText fraction ++ rest) := by
  cases fraction with
  | none => exact hrest
  | some text => exact endsDigits_cons (by decide)

/-- A literal is read up to what cannot continue it. -/
theorem scanNumber_append {literal : NumberLiteral} {rest : Text} (h : literal.WellFormed)
    (hrest : EndsNumber rest) : scanNumber (literal.toText ++ rest) = some (literal, rest) := by
  obtain ⟨hexponent, hdot⟩ := exponentText_endsDigits h.exponent hrest
  have hhead : (literal.whole ++ (NumberLiteral.fractionText literal.fraction
      ++ (NumberLiteral.exponentText literal.exponent ++ rest))).head? ≠ some '-' := by
    obtain ⟨hne, hall⟩ := digits_iff.1 h.whole
    cases hwhole : literal.whole with
    | nil => exact absurd hwhole hne
    | cons c tail =>
      rw [List.cons_append, List.head?_cons]
      intro heq
      have hc := hall c (by rw [hwhole]; exact List.mem_cons_self)
      exact Text.ne_of_isDigit hc (by decide) (Option.some.inj heq)
  unfold scanNumber NumberLiteral.toText
  simp only [List.append_assoc]
  rw [scanSign_append hhead]
  dsimp only
  rw [scanWhole_append h.whole h.zero (fractionText_endsDigits hexponent), Option.bind_some]
  dsimp only
  rw [scanFraction_append h.fraction hexponent hdot, Option.bind_some]
  dsimp only
  rw [scanExponent_append h.exponent hrest]
  rfl

theorem ofInt_wellFormed (n : Int) : (NumberLiteral.ofInt n).WellFormed where
  whole := digits_iff.2 ⟨Text.decimal_ne_nil _, fun _ hc => Text.isDigit_of_mem_decimal hc⟩
  zero := Text.decimal_zero n.natAbs
  fraction := by
    intro text htext
    cases htext
  exponent := by
    intro parts hparts
    cases hparts

theorem numberValue_ofInt (format : DoubleFormat δ) (value : Int64) :
    numberValue format (NumberLiteral.ofInt value.toInt) = .int value := by
  have hvalue : (if decide (value.toInt < 0) = true then -(value.toInt.natAbs : Int)
      else value.toInt.natAbs) = value.toInt := by
    by_cases hneg : value.toInt < 0
    · rw [if_pos (decide_eq_true hneg)]
      omega
    · rw [if_neg (by simpa using hneg)]
      omega
  unfold numberValue
  rw [if_neg (by exact Bool.false_ne_true)]
  unfold NumberLiteral.ofInt
  dsimp only
  rw [Text.parseDigits_decimal]
  dsimp only
  rw [hvalue, if_pos ⟨value.le_toInt, value.toInt_lt⟩, Int64.ofInt_toInt]

theorem numberValue_double (format : DoubleFormat δ) (value : δ) :
    numberValue format (format.literal value) = .double value := by
  unfold numberValue
  rw [if_pos (format.isDouble value), format.nearest_literal]

/-! ## Strings -/

theorem hexValue_hexDigit : ∀ n < 16, hexValue (hexDigit n) = some n := by decide

/-- What follows a unit, read after it. -/
def prepend (unit : Utf16) : Utf16 × Text → Utf16 × Text :=
  fun (units, rest) => (unit ++ units, rest)

theorem parseString_hexUnit (unit : UInt16) (rest : Text) :
    parseString (hexUnit unit ++ rest) = (parseString rest).map (prepend [unit]) := by
  have hlt : unit.toNat < 65536 := unit.toNat_lt
  have hunhex : unhex (hexDigit (unit.toNat / 4096)) (hexDigit (unit.toNat / 256 % 16))
      (hexDigit (unit.toNat / 16 % 16)) (hexDigit (unit.toNat % 16)) = some unit := by
    unfold unhex
    rw [hexValue_hexDigit _ (by omega), hexValue_hexDigit _ (by omega),
      hexValue_hexDigit _ (by omega), hexValue_hexDigit _ (by omega)]
    have hsum : unit.toNat / 4096 * 4096 + unit.toNat / 256 % 16 * 256 + unit.toNat / 16 % 16 * 16
        + unit.toNat % 16 = unit.toNat := by omega
    simp only [Option.bind_some, Option.map_some, hsum, UInt16.ofNat_toNat]
  unfold hexUnit
  simp only [List.cons_append, List.nil_append]
  rw [parseString, hunhex]
  rfl

theorem parseString_unescape {c : Char} {unit : UInt16} (hc : c ≠ 'u')
    (hunit : unescape c = some unit) (rest : Text) :
    parseString ('\\' :: c :: rest) = (parseString rest).map (prepend [unit]) := by
  rw [parseString]
  · rw [hunit]
    rfl
  · rintro a b d e tail hu
    exact absurd hu hc

theorem parseString_char {c : Char} (hlow : 32 ≤ c.toNat) (hquote : c ≠ '"')
    (hbackslash : c ≠ '\\') (rest : Text) :
    parseString (c :: rest) = (parseString rest).map (prepend (Utf16.ofChar c)) := by
  rw [parseString]
  · rw [if_neg]
    · rfl
    · rintro (hlt | heq)
      · omega
      · exact hbackslash heq
  · exact hquote
  · rintro a b d e tail hb -
    exact absurd hb hbackslash
  · rintro d tail hb -
    exact absurd hb hbackslash

theorem single_ne {unit : UInt16} (hsurrogate : Utf16.isSurrogate unit = false) {c : Char}
    (hne : unit.toNat ≠ c.toNat) : Utf16.single unit ≠ c := by
  rintro rfl
  exact hne (Utf16.toNat_single hsurrogate).symm

theorem parseString_escapeUnit (unit : UInt16) (rest : Text) :
    parseString (escapeUnit unit ++ rest) = (parseString rest).map (prepend [unit]) := by
  unfold escapeUnit
  split_ifs with hb ht hn hf hr hquote hbackslash hhex
  -- the seven short escapes are all of one form
  · subst hb
    exact parseString_unescape (by decide) rfl rest
  · subst ht
    exact parseString_unescape (by decide) rfl rest
  · subst hn
    exact parseString_unescape (by decide) rfl rest
  · subst hf
    exact parseString_unescape (by decide) rfl rest
  · subst hr
    exact parseString_unescape (by decide) rfl rest
  · subst hquote
    exact parseString_unescape (by decide) rfl rest
  · subst hbackslash
    exact parseString_unescape (by decide) rfl rest
  · exact parseString_hexUnit unit rest
  -- what is left is written as it is: it is neither a control character nor a surrogate
  · obtain ⟨hlow, hsurrogate⟩ := not_or.1 hhex
    have hsurrogate : Utf16.isSurrogate unit = false := by simpa using hsurrogate
    have hlow : 32 ≤ unit.toNat := by
      rw [UInt16.lt_iff_toNat_lt] at hlow
      exact Nat.not_lt.1 hlow
    have hne : ∀ n : UInt16, unit ≠ n → unit.toNat ≠ n.toNat := fun n hunit heq =>
      hunit (UInt16.toNat_inj.1 heq)
    have hchar := parseString_char (c := Utf16.single unit)
      (by rw [Utf16.toNat_single hsurrogate]; exact hlow)
      (single_ne hsurrogate (hne 34 hquote)) (single_ne hsurrogate (hne 92 hbackslash)) rest
    rw [Utf16.ofChar_single hsurrogate] at hchar
    exact hchar

theorem parseString_pair {high low : UInt16} (hhigh : Utf16.isHigh high = true)
    (hlow : Utf16.isLow low = true) (rest : Text) :
    parseString (Utf16.pair high low :: rest) = (parseString rest).map (prepend [high, low]) := by
  have hpair := Utf16.toNat_pair hhigh hlow
  have hne : ∀ c : Char, c.toNat < 65536 → Utf16.pair high low ≠ c := by
    rintro c hc rfl
    omega
  rw [← Utf16.ofChar_pair hhigh hlow]
  exact parseString_char (by omega) (hne _ (by decide)) (hne _ (by decide)) rest

/-- A string is read up to its closing quote. -/
theorem parseString_escapeString (units : Utf16) (rest : Text) :
    parseString (escapeString units ++ '"' :: rest) = some (units, rest) := by
  fun_induction escapeString units with
  | case1 => rfl
  | case2 unit =>
    rw [parseString_escapeUnit]
    rfl
  | case3 high low tail hpair ih =>
    obtain ⟨hhigh, hlow⟩ := Bool.and_eq_true_iff.1 hpair
    rw [List.cons_append, parseString_pair hhigh hlow, ih]
    rfl
  | case4 high low tail hpair ih =>
    rw [List.append_assoc, parseString_escapeUnit, ih]
    rfl

/-! ## Maps -/

theorem setMember_of_notMem {key : Utf16} {value : JsonValue δ}
    {made : List (Utf16 × JsonValue δ)} (h : key ∉ made.map (·.1)) :
    setMember key value made = made ++ [(key, value)] := by
  induction made with
  | nil => rfl
  | cons member rest ih =>
    obtain ⟨other, old⟩ := member
    rw [List.map_cons, List.mem_cons, not_or] at h
    unfold setMember
    rw [if_neg (Ne.symm h.1), ih h.2]
    rfl

/-- Members with distinct keys stay as they are. -/
theorem ofMembers_of_nodup {members : List (Utf16 × JsonValue δ)}
    (h : (members.map (·.1)).Nodup) : ofMembers members = members := by
  have hfold : ∀ (rest made : List (Utf16 × JsonValue δ)), ((made ++ rest).map (·.1)).Nodup →
      rest.foldl (fun made member => setMember member.1 member.2 made) made = made ++ rest := by
    intro rest
    induction rest with
    | nil => simp
    | cons member rest ih =>
      intro made hnodup
      have hnot : member.1 ∉ made.map (·.1) := by
        rw [List.map_append, List.nodup_append] at hnodup
        intro hmem
        exact hnodup.2.2 _ hmem _ (by simp) rfl
      rw [List.foldl_cons, setMember_of_notMem hnot, ih]
      · simp
      · simpa using hnodup
  exact hfold members [] h

/-! ## Values -/

theorem skipBlanks_cons {c : Char} (hc : isBlank c = false) (rest : Text) :
    skipBlanks (c :: rest) = c :: rest := by
  have hnot : ¬ isBlank c = true := by
    rw [hc]
    exact Bool.false_ne_true
  exact List.dropWhile_cons_of_neg hnot

/-- What a number begins with. -/
def StartsNumber (c : Char) : Prop := c = '-' ∨ c.isDigit = true

theorem StartsNumber.ne {c d : Char} (h : StartsNumber c) (hd : d.isDigit = false)
    (hminus : d ≠ '-') :
    c ≠ d := by
  rcases h with rfl | h
  · exact hminus.symm
  · exact Text.ne_of_isDigit h hd

theorem toText_cons {literal : NumberLiteral} (h : literal.WellFormed) :
    ∃ c tail, literal.toText = c :: tail ∧ StartsNumber c := by
  unfold NumberLiteral.toText NumberLiteral.signText
  cases literal.negative with
  | true => exact ⟨'-', _, rfl, .inl rfl⟩
  | false =>
    obtain ⟨hne, hall⟩ := digits_iff.1 h.whole
    cases hwhole : literal.whole with
    | nil => exact absurd hwhole hne
    | cons c tail => exact ⟨c, _, rfl, .inr (hall c (by rw [hwhole]; exact List.mem_cons_self))⟩

/-- What a value begins with: no blank, and no bracket that would close a list. -/
structure StartsValue (c : Char) : Prop where
  notBlank : isBlank c = false
  notClosing : c ≠ ']'

theorem StartsNumber.startsValue {c : Char} (h : StartsNumber c) : StartsValue c := by
  refine ⟨?_, h.ne (by decide) (by decide)⟩
  unfold isBlank
  simp [h.ne (d := ' ') (by decide) (by decide), h.ne (d := '\t') (by decide) (by decide),
    h.ne (d := '\n') (by decide) (by decide), h.ne (d := '\r') (by decide) (by decide)]

theorem write_cons (format : DoubleFormat δ) (value : JsonValue δ) :
    ∃ c tail, write format value = c :: tail ∧ StartsValue c := by
  cases value with
  | null => exact ⟨_, _, by rw [write], by decide, by decide⟩
  | bool value =>
    cases value with
    | true => exact ⟨_, _, by rw [write], by decide, by decide⟩
    | false => exact ⟨_, _, by rw [write], by decide, by decide⟩
  | int value =>
    obtain ⟨c, tail, htext, hstarts⟩ := toText_cons (ofInt_wellFormed value.toInt)
    exact ⟨c, tail, by rw [write, htext], hstarts.startsValue⟩
  | double value =>
    obtain ⟨c, tail, htext, hstarts⟩ := toText_cons (format.wellFormed value)
    exact ⟨c, tail, by rw [write, htext], hstarts.startsValue⟩
  | str value => exact ⟨_, _, by rw [write, quote, List.cons_append], by decide, by decide⟩
  | list items => exact ⟨_, _, by rw [write, List.cons_append], by decide, by decide⟩
  | map members => exact ⟨_, _, by rw [write, List.cons_append], by decide, by decide⟩

/-- A literal is read as the number it stands for. -/
theorem parseValue_number {literal : NumberLiteral} (h : literal.WellFormed) {rest : Text}
    (hrest : EndsNumber rest) (fuel : Nat) :
    parseValue format (fuel + 1) (literal.toText ++ rest)
      = some (numberValue format literal, rest) := by
  have hscan := scanNumber_append h hrest
  obtain ⟨c, tail, htext, hstarts⟩ := toText_cons h
  rw [htext, List.cons_append] at hscan ⊢
  rw [parseValue, skipBlanks_cons hstarts.startsValue.notBlank]
  simp only [hscan, hstarts.ne (d := '"') (by decide) (by decide),
    hstarts.ne (d := '[') (by decide) (by decide), hstarts.ne (d := '{') (by decide) (by decide),
    hstarts.ne (d := 'n') (by decide) (by decide), hstarts.ne (d := 't') (by decide) (by decide),
    hstarts.ne (d := 'f') (by decide) (by decide), if_false, Option.map_some]

theorem endsNumber_writeMoreItems (items : List (JsonValue δ)) (rest : Text) :
    EndsNumber (writeMoreItems format items ++ ']' :: rest) := by
  cases items with
  | nil =>
    rw [writeMoreItems]
    exact endsNumber_cons (by decide) (by decide) (by decide) (by decide)
  | cons item items =>
    rw [writeMoreItems]
    exact endsNumber_cons (by decide) (by decide) (by decide) (by decide)

theorem endsNumber_writeMoreMembers (members : List (Utf16 × JsonValue δ)) (rest : Text) :
    EndsNumber (writeMoreMembers format members ++ '}' :: rest) := by
  cases members with
  | nil =>
    rw [writeMoreMembers]
    exact endsNumber_cons (by decide) (by decide) (by decide) (by decide)
  | cons member members =>
    obtain ⟨key, value⟩ := member
    rw [writeMoreMembers]
    exact endsNumber_cons (by decide) (by decide) (by decide) (by decide)

mutual

theorem parseValue_write (format : DoubleFormat δ) :
    ∀ (value : JsonValue δ) (fuel : Nat) (rest : Text), value.Distinct →
    (write format value).length ≤ fuel → EndsNumber rest →
    parseValue format fuel (write format value ++ rest) = some (value, rest)
  | value, 0, rest, _, hfuel, _ => by
    obtain ⟨c, tail, htext, -⟩ := write_cons format value
    rw [htext] at hfuel
    cases hfuel
  | .null, fuel + 1, rest, _, _, _ => by
    rw [write, parseValue]
    simp only [List.cons_append, List.nil_append]
    rw [skipBlanks_cons (by decide)]
    simp [expect]
  | .bool true, fuel + 1, rest, _, _, _ => by
    rw [write, parseValue]
    simp only [List.cons_append, List.nil_append]
    rw [skipBlanks_cons (by decide)]
    simp [expect]
  | .bool false, fuel + 1, rest, _, _, _ => by
    rw [write, parseValue]
    simp only [List.cons_append, List.nil_append]
    rw [skipBlanks_cons (by decide)]
    simp [expect]
  | .int value, fuel + 1, rest, _, _, hrest => by
    rw [write, parseValue_number (ofInt_wellFormed value.toInt) hrest, numberValue_ofInt]
  | .double value, fuel + 1, rest, _, _, hrest => by
    rw [write, parseValue_number (format.wellFormed value) hrest, numberValue_double]
  | .str value, fuel + 1, rest, _, _, _ => by
    rw [write, quote, parseValue]
    simp only [List.cons_append, List.append_assoc, List.nil_append]
    rw [skipBlanks_cons (by decide)]
    simp only [if_true, parseString_escapeString, Option.map_some]
  | .list [], fuel + 1, rest, _, _, _ => by
    rw [write, writeItems, parseValue]
    rfl
  | .list (item :: items), fuel + 1, rest, hdistinct, hfuel, hrest => by
    rw [JsonValue.Distinct, JsonValue.DistinctItems] at hdistinct
    rw [write, writeItems] at hfuel ⊢
    simp only [List.length_append, List.length_cons, List.length_nil] at hfuel
    have hitems := parseItems_write format item items fuel rest hdistinct.1 hdistinct.2
      (by simp only [List.length_append]; omega)
    -- the first item does not close the list
    obtain ⟨c, tail, htext, hstarts⟩ := write_cons format item
    rw [htext] at hitems ⊢
    rw [parseValue]
    simp only [List.cons_append, List.append_assoc, List.nil_append] at hitems ⊢
    rw [skipBlanks_cons (by decide)]
    simp only [Char.reduceEq, if_false, if_true]
    rw [skipBlanks_cons hstarts.notBlank]
    split
    · rename_i heq
      exact absurd (List.cons.inj heq).1 hstarts.notClosing
    · rw [hitems]
      rfl
  | .map [], fuel + 1, rest, _, _, _ => by
    rw [write, writeMembers, parseValue]
    rfl
  | .map ((key, value) :: members), fuel + 1, rest, hdistinct, hfuel, hrest => by
    rw [JsonValue.Distinct, JsonValue.DistinctMembers] at hdistinct
    obtain ⟨hnodup, hvalue, hmembers⟩ := hdistinct
    rw [write, writeMembers] at hfuel ⊢
    simp only [quote, List.length_append, List.length_cons, List.length_nil] at hfuel
    have hread := parseMembers_write format key value members fuel rest hvalue hmembers
      (by simp only [quote, List.length_append, List.length_cons, List.length_nil]; omega)
    rw [parseValue]
    simp only [quote, List.cons_append, List.append_assoc, List.nil_append] at hread ⊢
    rw [skipBlanks_cons (by decide)]
    simp only [Char.reduceEq, if_false, if_true]
    rw [skipBlanks_cons (by decide)]
    split
    · rename_i heq
      cases (List.cons.inj heq).1
    · rw [hread, Option.map_some, ofMembers_of_nodup hnodup]

theorem parseItems_write (format : DoubleFormat δ) : ∀ (item : JsonValue δ)
    (items : List (JsonValue δ)) (fuel : Nat) (rest : Text), item.Distinct →
      JsonValue.DistinctItems items →
    (write format item ++ writeMoreItems format items).length + 1 ≤ fuel →
    parseItems format fuel (write format item ++ (writeMoreItems format items ++ ']' :: rest))
      = some (item :: items, rest)
  | item, items, 0, rest, _, _, hfuel => by cases hfuel
  | item, [], fuel + 1, rest, hitem, _, hfuel => by
    rw [List.length_append] at hfuel
    have hread := parseValue_write format item fuel (writeMoreItems format [] ++ ']' :: rest) hitem
      (by omega) (endsNumber_writeMoreItems [] rest)
    rw [parseItems, hread, writeMoreItems]
    rfl
  | item, next :: items, fuel + 1, rest, hitem, hitems, hfuel => by
    rw [JsonValue.DistinctItems] at hitems
    rw [List.length_append] at hfuel
    have hread := parseValue_write format item fuel
      (writeMoreItems format (next :: items) ++ ']' :: rest) hitem (by omega)
      (endsNumber_writeMoreItems (next :: items) rest)
    obtain ⟨c, tail, htext, -⟩ := write_cons format item
    rw [htext] at hfuel
    rw [writeMoreItems] at hfuel hread ⊢
    simp only [List.length_cons, List.length_append] at hfuel
    have hrest := parseItems_write format next items fuel rest hitems.1 hitems.2
      (by rw [List.length_append]; omega)
    rw [parseItems, hread]
    simp only [List.cons_append, List.append_assoc]
    rw [skipBlanks_cons (by decide)]
    simp only [hrest, Option.map_some]

theorem parseMembers_write (format : DoubleFormat δ) : ∀ (key : Utf16) (value : JsonValue δ)
    (members : List (Utf16 × JsonValue δ)) (fuel : Nat) (rest : Text), value.Distinct →
    JsonValue.DistinctMembers members →
    (quote key ++ ':' :: write format value ++ writeMoreMembers format members).length + 1 ≤ fuel →
    parseMembers format fuel
        (quote key ++ ':' :: (write format value
          ++ (writeMoreMembers format members ++ '}' :: rest)))
      = some ((key, value) :: members, rest)
  | key, value, members, 0, rest, _, _, hfuel => by cases hfuel
  | key, value, [], fuel + 1, rest, hvalue, _, hfuel => by
    simp only [quote, List.length_append, List.length_cons] at hfuel
    have hread := parseValue_write format value fuel (writeMoreMembers format [] ++ '}' :: rest)
      hvalue (by omega) (endsNumber_writeMoreMembers [] rest)
    rw [parseMembers, quote]
    simp only [List.cons_append, List.append_assoc, List.nil_append]
    rw [skipBlanks_cons (by decide)]
    simp only [parseString_escapeString]
    rw [skipBlanks_cons (by decide)]
    simp only [hread]
    rw [writeMoreMembers]
    rfl
  | key, value, (nextKey, next) :: members, fuel + 1, rest, hvalue, hmembers, hfuel => by
    rw [JsonValue.DistinctMembers] at hmembers
    simp only [quote, List.length_append, List.length_cons] at hfuel
    have hread := parseValue_write format value fuel
      (writeMoreMembers format ((nextKey, next) :: members) ++ '}' :: rest) hvalue (by omega)
      (endsNumber_writeMoreMembers ((nextKey, next) :: members) rest)
    -- the comma and the next key stand before what the recursion has read
    rw [writeMoreMembers] at hfuel hread ⊢
    simp only [quote, List.length_cons, List.length_append] at hfuel
    have hrest := parseMembers_write format nextKey next members fuel rest hmembers.1 hmembers.2
      (by simp only [quote, List.length_append, List.length_cons]; omega)
    rw [parseMembers, quote]
    simp only [List.cons_append, List.append_assoc, List.nil_append] at hread ⊢
    rw [skipBlanks_cons (by decide)]
    simp only [parseString_escapeString]
    rw [skipBlanks_cons (by decide)]
    simp only [hread]
    rw [skipBlanks_cons (by decide)]
    simp only [quote, List.cons_append, List.append_assoc, List.nil_append] at hrest ⊢
    simp only [hrest, Option.map_some]

end

/-- What was written is read back. -/
theorem parse_write {value : JsonValue δ} (h : value.Distinct) :
    parse format (write format value) = some value := by
  have hread := parseValue_write format value ((write format value).length + 1) [] h
    (by omega) endsNumber_nil
  rw [List.append_nil] at hread
  unfold parse
  rw [hread]
  rfl

/-! ## The maps that are read -/

theorem mem_keys_setMember {key other : Utf16} {value : JsonValue δ}
    {made : List (Utf16 × JsonValue δ)} :
    other ∈ (setMember key value made).map (·.1) ↔ other = key ∨ other ∈ made.map (·.1) := by
  induction made with
  | nil => simp [setMember]
  | cons member rest ih =>
    obtain ⟨known, old⟩ := member
    unfold setMember
    split
    · rename_i hknown
      subst hknown
      simp
    · rw [List.map_cons, List.mem_cons, ih, List.map_cons, List.mem_cons]
      exact or_left_comm

theorem setMember_nodup {key : Utf16} {value : JsonValue δ} {made : List (Utf16 × JsonValue δ)}
    (h : (made.map (·.1)).Nodup) : ((setMember key value made).map (·.1)).Nodup := by
  induction made with
  | nil => simp [setMember]
  | cons member rest ih =>
    obtain ⟨known, old⟩ := member
    rw [List.map_cons, List.nodup_cons] at h
    unfold setMember
    split
    · rename_i hknown
      subst hknown
      exact List.nodup_cons.2 h
    · rename_i hknown
      rw [List.map_cons, List.nodup_cons, mem_keys_setMember, not_or]
      exact ⟨⟨hknown, h.1⟩, ih h.2⟩

theorem setMember_distinct {key : Utf16} {value : JsonValue δ} {made : List (Utf16 × JsonValue δ)}
    (hvalue : value.Distinct) (h : JsonValue.DistinctMembers made) :
    JsonValue.DistinctMembers (setMember key value made) := by
  induction made with
  | nil => exact ⟨hvalue, trivial⟩
  | cons member rest ih =>
    obtain ⟨known, old⟩ := member
    rw [JsonValue.DistinctMembers] at h
    unfold setMember
    split
    · exact ⟨hvalue, h.2⟩
    · exact ⟨h.1, ih h.2⟩

theorem ofMembers_distinct {members : List (Utf16 × JsonValue δ)}
    (h : JsonValue.DistinctMembers members) : (JsonValue.map (ofMembers members)).Distinct := by
  have hfold : ∀ (rest made : List (Utf16 × JsonValue δ)), JsonValue.DistinctMembers rest →
      (JsonValue.map made).Distinct → (JsonValue.map (rest.foldl
        (fun made member => setMember member.1 member.2 made) made)).Distinct := by
    intro rest
    induction rest with
    | nil => exact fun made _ hmade => hmade
    | cons member rest ih =>
      intro made hrest hmade
      obtain ⟨key, value⟩ := member
      rw [JsonValue.DistinctMembers] at hrest
      rw [JsonValue.Distinct] at hmade
      refine ih _ hrest.2 ?_
      rw [JsonValue.Distinct]
      exact ⟨setMember_nodup hmade.1, setMember_distinct hrest.1 hmade.2⟩
  refine hfold members [] h ?_
  rw [JsonValue.Distinct]
  exact ⟨List.nodup_nil, trivial⟩

theorem numberValue_distinct (format : DoubleFormat δ) (literal : NumberLiteral) :
    (numberValue format literal).Distinct := by
  unfold numberValue
  split
  · exact trivial
  · split
    · exact trivial
    · dsimp only
      generalize (if literal.negative = true then _ else _ : Int) = value
      split
      · exact trivial
      · exact trivial

/-- The keys of the maps that are read are distinct, whatever the text repeats. -/
theorem parse_distinct_fuel (format : DoubleFormat δ) (fuel : Nat) :
    (∀ text value rest, parseValue format fuel text = some (value, rest) → value.Distinct)
      ∧ (∀ text items rest, parseItems format fuel text = some (items, rest) →
        JsonValue.DistinctItems items)
      ∧ ∀ text members rest, parseMembers format fuel text = some (members, rest) →
        JsonValue.DistinctMembers members := by
  induction fuel with
  | zero =>
    refine ⟨fun text value rest h => ?_, fun text items rest h => ?_, fun text members rest h => ?_⟩
    · rw [parseValue] at h
      cases h
    · rw [parseItems] at h
      cases h
    · rw [parseMembers] at h
      cases h
  | succ fuel ih =>
    obtain ⟨hvalues, hitems, hmembers⟩ := ih
    refine ⟨fun text value rest h => ?_, fun text items rest h => ?_, fun text members rest h => ?_⟩
    · rw [parseValue] at h
      split at h
      · cases h
      · split_ifs at h
        · obtain ⟨_, -, heq⟩ := Option.map_eq_some_iff.1 h
          obtain ⟨rfl, -⟩ := Prod.mk.inj heq
          exact trivial
        · split at h
          · obtain ⟨rfl, -⟩ := Prod.mk.inj (Option.some.inj h)
            exact trivial
          · obtain ⟨_, hread, heq⟩ := Option.map_eq_some_iff.1 h
            obtain ⟨rfl, -⟩ := Prod.mk.inj heq
            exact hitems _ _ _ hread
        · split at h
          · obtain ⟨rfl, -⟩ := Prod.mk.inj (Option.some.inj h)
            exact ⟨List.nodup_nil, trivial⟩
          · obtain ⟨_, hread, heq⟩ := Option.map_eq_some_iff.1 h
            obtain ⟨rfl, -⟩ := Prod.mk.inj heq
            exact ofMembers_distinct (hmembers _ _ _ hread)
        · obtain ⟨_, -, heq⟩ := Option.map_eq_some_iff.1 h
          obtain ⟨rfl, -⟩ := Prod.mk.inj heq
          exact trivial
        · obtain ⟨_, -, heq⟩ := Option.map_eq_some_iff.1 h
          obtain ⟨rfl, -⟩ := Prod.mk.inj heq
          exact trivial
        · obtain ⟨_, -, heq⟩ := Option.map_eq_some_iff.1 h
          obtain ⟨rfl, -⟩ := Prod.mk.inj heq
          exact trivial
        · obtain ⟨_, -, heq⟩ := Option.map_eq_some_iff.1 h
          obtain ⟨rfl, -⟩ := Prod.mk.inj heq
          exact numberValue_distinct format _
    -- the items of an array are values one by one
    · rw [parseItems] at h
      split at h
      · cases h
      · rename_i item tail hread
        split at h
        · obtain ⟨rfl, -⟩ := Prod.mk.inj (Option.some.inj h)
          exact ⟨hvalues _ _ _ hread, trivial⟩
        · obtain ⟨_, hrest, heq⟩ := Option.map_eq_some_iff.1 h
          obtain ⟨rfl, -⟩ := Prod.mk.inj heq
          exact ⟨hvalues _ _ _ hread, hitems _ _ _ hrest⟩
        · cases h
    -- the reader of members needs nothing of the keys: `ofMembers` makes them distinct afterwards
    · rw [parseMembers] at h
      split at h
      · split at h
        · cases h
        · split at h
          · split at h
            · cases h
            · rename_i value tail hread
              split at h
              · obtain ⟨rfl, -⟩ := Prod.mk.inj (Option.some.inj h)
                exact ⟨hvalues _ _ _ hread, trivial⟩
              · obtain ⟨_, hrest, heq⟩ := Option.map_eq_some_iff.1 h
                obtain ⟨rfl, -⟩ := Prod.mk.inj heq
                exact ⟨hvalues _ _ _ hread, hmembers _ _ _ hrest⟩
              · cases h
          · cases h
      · cases h

theorem parse_distinct {text : Text} {value : JsonValue δ} (h : parse format text = some value) :
    value.Distinct := by
  unfold parse at h
  split at h
  · cases h
  · rename_i hread
    split at h
    · obtain rfl := Option.some.inj h
      exact (parse_distinct_fuel format _).1 _ _ _ hread
    · cases h

end Sanmill.JsonText
