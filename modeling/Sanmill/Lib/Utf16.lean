import Mathlib.Data.UInt
import Mathlib.Data.Char
import Sanmill.Lib.Text

/-!
# UTF-16 strings

A string of a language with UTF-16 strings is a list of code units, any list. A text is
encoded with one unit or a pair of surrogates a character; what a pair encodes is read back.
-/

namespace Sanmill

/-- A text in UTF-16; the surrogates need not be paired. -/
abbrev Utf16 : Type := List UInt16

namespace Utf16

/-- The first half of a pair. -/
def isHigh (unit : UInt16) : Bool := 0xD800 ≤ unit && unit < 0xDC00

/-- The second half of a pair. -/
def isLow (unit : UInt16) : Bool := 0xDC00 ≤ unit && unit < 0xE000

/-- Either half. -/
def isSurrogate (unit : UInt16) : Bool := 0xD800 ≤ unit && unit < 0xE000

/-- The units of a character. -/
def ofChar (c : Char) : Utf16 :=
  if c.toNat < 0x10000 then [UInt16.ofNat c.toNat]
  else
    [UInt16.ofNat (0xD800 + (c.toNat - 0x10000) / 0x400),
      UInt16.ofNat (0xDC00 + (c.toNat - 0x10000) % 0x400)]

/-- The units of a text. -/
def ofText (text : Text) : Utf16 := text.flatMap ofChar

/-- The units of a string. -/
def ofString (text : String) : Utf16 := ofText text.toList

/-- The character of a pair of surrogates. -/
def pair (high low : UInt16) : Char :=
  Char.ofNat (0x10000 + (high.toNat - 0xD800) * 0x400 + (low.toNat - 0xDC00))

/-- The character of a unit that is no surrogate. -/
def single (unit : UInt16) : Char := Char.ofNat unit.toNat

theorem isHigh_iff {unit : UInt16} :
    isHigh unit = true ↔ 0xD800 ≤ unit.toNat ∧ unit.toNat < 0xDC00 := by
  unfold isHigh
  rw [Bool.and_eq_true, decide_eq_true_iff, decide_eq_true_iff, UInt16.le_iff_toNat_le,
    UInt16.lt_iff_toNat_lt]
  rfl

theorem isLow_iff {unit : UInt16} :
    isLow unit = true ↔ 0xDC00 ≤ unit.toNat ∧ unit.toNat < 0xE000 := by
  unfold isLow
  rw [Bool.and_eq_true, decide_eq_true_iff, decide_eq_true_iff, UInt16.le_iff_toNat_le,
    UInt16.lt_iff_toNat_lt]
  rfl

theorem isSurrogate_iff {unit : UInt16} :
    isSurrogate unit = true ↔ 0xD800 ≤ unit.toNat ∧ unit.toNat < 0xE000 := by
  unfold isSurrogate
  rw [Bool.and_eq_true, decide_eq_true_iff, decide_eq_true_iff, UInt16.le_iff_toNat_le,
    UInt16.lt_iff_toNat_lt]
  rfl

/-- A number that is no surrogate code point names a character. -/
theorem toNat_ofNat {n : Nat} (h : n < 0xD800 ∨ 0xDFFF < n ∧ n < 0x110000) :
    (Char.ofNat n).toNat = n := by
  have hvalid : n.isValidChar := h
  rw [Char.ofNat, dif_pos hvalid]
  rfl

theorem toNat_single {unit : UInt16} (h : isSurrogate unit = false) :
    (single unit).toNat = unit.toNat := by
  have hlt : unit.toNat < 0x10000 := unit.toNat_lt
  have hnot : ¬ (0xD800 ≤ unit.toNat ∧ unit.toNat < 0xE000) := by
    rw [← isSurrogate_iff, h]
    exact Bool.false_ne_true
  exact toNat_ofNat (by omega)

theorem ofChar_single {unit : UInt16} (h : isSurrogate unit = false) :
    ofChar (single unit) = [unit] := by
  have hlt : unit.toNat < 0x10000 := unit.toNat_lt
  unfold ofChar
  rw [toNat_single h, if_pos hlt, UInt16.ofNat_toNat]

theorem toNat_pair {high low : UInt16} (hhigh : isHigh high = true) (hlow : isLow low = true) :
    (pair high low).toNat = 0x10000 + (high.toNat - 0xD800) * 0x400 + (low.toNat - 0xDC00) := by
  rw [isHigh_iff] at hhigh
  rw [isLow_iff] at hlow
  exact toNat_ofNat (by omega)

theorem ofChar_pair {high low : UInt16} (hhigh : isHigh high = true) (hlow : isLow low = true) :
    ofChar (pair high low) = [high, low] := by
  unfold ofChar
  rw [toNat_pair hhigh hlow, if_neg (by omega)]
  rw [isHigh_iff] at hhigh
  rw [isLow_iff] at hlow
  have hdiv : 0xD800 + (0x10000 + (high.toNat - 0xD800) * 0x400 + (low.toNat - 0xDC00) - 0x10000)
      / 0x400 = high.toNat := by omega
  have hmod : 0xDC00 + (0x10000 + (high.toNat - 0xD800) * 0x400 + (low.toNat - 0xDC00) - 0x10000)
      % 0x400 = low.toNat := by omega
  rw [hdiv, hmod, UInt16.ofNat_toNat, UInt16.ofNat_toNat]

theorem toNat_valid (c : Char) : c.toNat < 0xD800 ∨ 0xDFFF < c.toNat ∧ c.toNat < 0x110000 := c.valid

theorem toNat_unit {n : Nat} (h : n < 0x10000) : (UInt16.ofNat n).toNat = n := by
  rw [UInt16.toNat_ofNat', Nat.mod_eq_of_lt h]

/-- What one character is encoded as ends where the next one starts. -/
theorem ofChar_append_inj {c d : Char} {rest rest' : Utf16}
    (h : ofChar c ++ rest = ofChar d ++ rest') : c = d ∧ rest = rest' := by
  have hc := toNat_valid c
  have hd := toNat_valid d
  have hunit : ∀ {m n : Nat}, m < 0x10000 → n < 0x10000 →
      UInt16.ofNat m = UInt16.ofNat n → m = n := by
    intro m n hm hn heq
    rw [← toNat_unit hm, heq, toNat_unit hn]
  unfold ofChar at h
  by_cases hc' : c.toNat < 0x10000 <;> by_cases hd' : d.toNat < 0x10000
  · rw [if_pos hc', if_pos hd'] at h
    obtain ⟨hhead, htail⟩ := List.cons.inj h
    exact ⟨Char.toNat_inj.1 (hunit hc' hd' hhead), htail⟩
  · rw [if_pos hc', if_neg hd'] at h
    have := hunit hc' (by omega) (List.cons.inj h).1
    omega
  · rw [if_neg hc', if_pos hd'] at h
    have := hunit (by omega) hd' (List.cons.inj h).1
    omega
  · rw [if_neg hc', if_neg hd'] at h
    obtain ⟨hhigh, htail⟩ := List.cons.inj h
    obtain ⟨hlow, htail⟩ := List.cons.inj htail
    have hhigh := hunit (by omega) (by omega) hhigh
    have hlow := hunit (by omega) (by omega) hlow
    exact ⟨Char.toNat_inj.1 (by omega), htail⟩

theorem ofText_injective : Function.Injective ofText := by
  intro text
  induction text with
  | nil =>
    intro text' h
    cases text' with
    | nil => rfl
    | cons d rest' =>
      unfold ofText ofChar at h
      rw [List.flatMap_cons] at h
      split at h <;> cases h
  | cons c rest ih =>
    intro text' h
    cases text' with
    | nil =>
      unfold ofText ofChar at h
      rw [List.flatMap_cons] at h
      split at h <;> cases h
    | cons d rest' =>
      obtain ⟨rfl, hrest⟩ := ofChar_append_inj h
      rw [ih hrest]

end Utf16

end Sanmill
