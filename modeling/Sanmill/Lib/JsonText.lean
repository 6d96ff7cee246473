import Mathlib.Data.List.Nodup
import Sanmill.Lib.Utf16

/-!
# JSON texts

JSON values with integers of 64 bits, doubles, UTF-16 strings, and maps that keep the order
in which their keys were first set. The writer leaves no white space; the parser accepts
the whole grammar, and a later member replaces the value of an earlier one with its key.
What was written is read back.

How a double is written, and the nearest double of a literal, are a parameter: a double is
written as a literal with a fraction or an exponent, of which it is the nearest double.
-/

namespace Sanmill

/-- A JSON value over UTF-16 strings, 64-bit integers and some type of doubles. -/
inductive JsonValue (δ : Type) where
  | null
  | bool (value : Bool)
  | int (value : Int64)
  | double (value : δ)
  | str (value : Utf16)
  | list (items : List (JsonValue δ))
  | map (members : List (Utf16 × JsonValue δ))

namespace JsonValue

variable {δ : Type}

/-! ## Maps -/

mutual

/-- The keys of a map are distinct, at every depth. -/
def Distinct : JsonValue δ → Prop
  | .list items => DistinctItems items
  | .map members => (members.map (·.1)).Nodup ∧ DistinctMembers members
  | _ => True

/-- No map inside the items has a key twice. -/
def DistinctItems : List (JsonValue δ) → Prop
  | [] => True
  | item :: rest => item.Distinct ∧ DistinctItems rest

/-- No map inside the values has a key twice. -/
def DistinctMembers : List (Utf16 × JsonValue δ) → Prop
  | [] => True
  | (_, value) :: rest => value.Distinct ∧ DistinctMembers rest

end

end JsonValue

namespace JsonText

variable {δ : Type}

/-! ## Numbers -/

/-- A number as it is written. -/
structure NumberLiteral where
  negative : Bool
  whole : Text
  fraction : Option Text
  /-- The letter with the sign, and the digits. -/
  exponent : Option (Text × Text)

/-- One digit or more. -/
def digits (text : Text) : Bool := !text.isEmpty && text.all Char.isDigit

namespace NumberLiteral

/-- A fraction or an exponent makes it a double. -/
def isDouble (literal : NumberLiteral) : Bool :=
  literal.fraction.isSome || literal.exponent.isSome

/-- What an exponent begins with. -/
def exponentMarks : List Text :=
  [['e'], ['E'], ['e', '+'], ['e', '-'], ['E', '+'], ['E', '-']]

/-- The grammar of a number: no leading zero, and digits wherever a part is there. -/
structure WellFormed (literal : NumberLiteral) : Prop where
  whole : digits literal.whole = true
  zero : literal.whole.head? = some '0' → literal.whole = ['0']
  fraction : ∀ text ∈ literal.fraction, digits text = true
  exponent : ∀ parts ∈ literal.exponent, parts.1 ∈ exponentMarks ∧ digits parts.2 = true

/-- The sign; a plus is not written. -/
def signText (negative : Bool) : Text := if negative then ['-'] else []

/-- The fraction behind its dot. -/
def fractionText : Option Text → Text
  | none => []
  | some text => '.' :: text

/-- The exponent behind its mark. -/
def exponentText : Option (Text × Text) → Text
  | none => []
  | some (mark, text) => mark ++ text

/-- The parts in order. -/
def toText (literal : NumberLiteral) : Text :=
  signText literal.negative ++ (literal.whole ++ (fractionText literal.fraction
    ++ exponentText literal.exponent))

/-- An integer has neither fraction nor exponent. -/
def ofInt (n : Int) : NumberLiteral := ⟨n < 0, Text.decimal n.natAbs, none, none⟩

end NumberLiteral

/-- One digit or more, and what follows them. -/
def scanDigits (text : Text) : Option (Text × Text) :=
  if (text.takeWhile Char.isDigit).isEmpty then none
  else some (text.takeWhile Char.isDigit, text.dropWhile Char.isDigit)

/-- A minus in front is read. -/
def scanSign : Text → Bool × Text
  | '-' :: rest => (true, rest)
  | text => (false, text)

/-- A whole number begins with a zero only if it is zero. -/
def scanWhole (text : Text) : Option (Text × Text) :=
  match scanDigits text with
  | none => none
  | some (whole, rest) => if whole.head? = some '0' ∧ whole ≠ ['0'] then none
    else some (whole, rest)

/-- A dot asks for digits; without one there is no fraction. -/
def scanFraction : Text → Option (Option Text × Text)
  | '.' :: rest => (scanDigits rest).map fun (text, rest) => (some text, rest)
  | text => some (none, text)

/-- An `e` asks for digits, with or without a sign; without one there is no exponent. -/
def scanExponent : Text → Option (Option (Text × Text) × Text)
  | [] => some (none, [])
  | letter :: rest =>
    if letter = 'e' ∨ letter = 'E' then
      match rest with
      | '+' :: rest => (scanDigits rest).map fun (text, rest) => (some ([letter, '+'], text), rest)
      | '-' :: rest => (scanDigits rest).map fun (text, rest) => (some ([letter, '-'], text), rest)
      | rest => (scanDigits rest).map fun (text, rest) => (some ([letter], text), rest)
    else some (none, letter :: rest)

/-- A number in front, and what is left. -/
def scanNumber (text : Text) : Option (NumberLiteral × Text) :=
  (scanWhole (scanSign text).2).bind fun (whole, rest) =>
    (scanFraction rest).bind fun (fraction, rest) =>
      (scanExponent rest).map fun (exponent, rest) =>
        (⟨(scanSign text).1, whole, fraction, exponent⟩, rest)

/-- A type of doubles with its decimal forms: what is written is read back. -/
structure DoubleFormat (δ : Type) where
  /-- How a double is written. -/
  literal : δ → NumberLiteral
  /-- The nearest double. -/
  nearest : NumberLiteral → δ
  wellFormed : ∀ d, (literal d).WellFormed
  isDouble : ∀ d, (literal d).isDouble = true
  nearest_literal : ∀ d, nearest (literal d) = d

/-- A literal without fraction and exponent is an integer if it fits 64 bits. -/
def numberValue (format : DoubleFormat δ) (literal : NumberLiteral) : JsonValue δ :=
  if literal.isDouble then .double (format.nearest literal)
  else
    match Text.parseDigits literal.whole with
    | none => .double (format.nearest literal)
    | some magnitude =>
      let value : Int := if literal.negative then -magnitude else magnitude
      if -2 ^ 63 ≤ value ∧ value < 2 ^ 63 then .int (Int64.ofInt value)
      else .double (format.nearest literal)

/-! ## Strings -/

/-- A digit below 16, in lower case. -/
def hexDigit (n : Nat) : Char := Nat.digitChar n

/-- A unit as `\u` with four digits. -/
def hexUnit (unit : UInt16) : Text :=
  ['\\', 'u', hexDigit (unit.toNat / 4096), hexDigit (unit.toNat / 256 % 16),
    hexDigit (unit.toNat / 16 % 16), hexDigit (unit.toNat % 16)]

/-- The short escapes, and `\u` for other control characters and lone surrogates. -/
def escapeUnit (unit : UInt16) : Text :=
  if unit = 8 then ['\\', 'b']
  else if unit = 9 then ['\\', 't']
  else if unit = 10 then ['\\', 'n']
  else if unit = 12 then ['\\', 'f']
  else if unit = 13 then ['\\', 'r']
  else if unit = 34 then ['\\', '"']
  else if unit = 92 then ['\\', '\\']
  else if unit < 32 ∨ Utf16.isSurrogate unit then hexUnit unit
  else [Utf16.single unit]

/-- A surrogate without its partner is escaped. -/
def escapeString : Utf16 → Text
  | [] => []
  | [unit] => escapeUnit unit
  | high :: low :: rest =>
    if Utf16.isHigh high && Utf16.isLow low then Utf16.pair high low :: escapeString rest
    else escapeUnit high ++ escapeString (low :: rest)

/-- A digit in either case. -/
def hexValue (c : Char) : Option Nat :=
  if '0' ≤ c ∧ c ≤ '9' then some (c.toNat - 48)
  else if 'a' ≤ c ∧ c ≤ 'f' then some (c.toNat - 87)
  else if 'A' ≤ c ∧ c ≤ 'F' then some (c.toNat - 55)
  else none

/-- The unit of four hexadecimal digits. -/
def unhex (a b c d : Char) : Option UInt16 :=
  (hexValue a).bind fun a => (hexValue b).bind fun b => (hexValue c).bind fun c =>
    (hexValue d).map fun d => UInt16.ofNat (a * 4096 + b * 256 + c * 16 + d)

/-- The unit of an escape of one letter. -/
def unescape (c : Char) : Option UInt16 :=
  if c = '"' then some 34
  else if c = '\\' then some 92
  else if c = '/' then some 47
  else if c = 'b' then some 8
  else if c = 'f' then some 12
  else if c = 'n' then some 10
  else if c = 'r' then some 13
  else if c = 't' then some 9
  else none

/-- The rest of a string, after its opening quote. -/
def parseString : Text → Option (Utf16 × Text)
  | [] => none
  | '"' :: rest => some ([], rest)
  | '\\' :: 'u' :: a :: b :: c :: d :: rest =>
    match unhex a b c d with
    | none => none
    | some unit => (parseString rest).map fun (units, rest) => (unit :: units, rest)
  | '\\' :: c :: rest =>
    match unescape c with
    | none => none
    | some unit => (parseString rest).map fun (units, rest) => (unit :: units, rest)
  | c :: rest =>
    if c.toNat < 32 ∨ c = '\\' then none
    else (parseString rest).map fun (units, rest) => (Utf16.ofChar c ++ units, rest)

/-! ## Writing -/

section Writing

variable (format : DoubleFormat δ)

/-- A string in its quotes. -/
def quote (text : Utf16) : Text := '"' :: escapeString text ++ ['"']

mutual

/-- A value without blanks. -/
def write : JsonValue δ → Text
  | .null => ['n', 'u', 'l', 'l']
  | .bool true => ['t', 'r', 'u', 'e']
  | .bool false => ['f', 'a', 'l', 's', 'e']
  | .int value => (NumberLiteral.ofInt value.toInt).toText
  | .double value => (format.literal value).toText
  | .str value => quote value
  | .list items => '[' :: writeItems items ++ [']']
  | .map members => '{' :: writeMembers members ++ ['}']

/-- The items of a list. -/
def writeItems : List (JsonValue δ) → Text
  | [] => []
  | item :: rest => write item ++ writeMoreItems rest

/-- The items after the first, each behind a comma. -/
def writeMoreItems : List (JsonValue δ) → Text
  | [] => []
  | item :: rest => ',' :: write item ++ writeMoreItems rest

/-- The members of a map. -/
def writeMembers : List (Utf16 × JsonValue δ) → Text
  | [] => []
  | (key, value) :: rest => quote key ++ ':' :: write value ++ writeMoreMembers rest

/-- The members after the first, each behind a comma. -/
def writeMoreMembers : List (Utf16 × JsonValue δ) → Text
  | [] => []
  | (key, value) :: rest => ',' :: quote key ++ ':' :: write value ++ writeMoreMembers rest

end

end Writing

/-! ## Parsing -/

/-- The blanks of JSON. -/
def isBlank (c : Char) : Bool := c = ' ' || c = '\t' || c = '\n' || c = '\r'

/-- What is left behind the blanks in front. -/
def skipBlanks (text : Text) : Text := text.dropWhile isBlank

/-- What follows the word. -/
def expect (word text : Text) : Option Text :=
  if word.isPrefixOf text then some (text.drop word.length) else none

/-- A new key goes to the end; a known one keeps its place. -/
def setMember (key : Utf16) (value : JsonValue δ) :
    List (Utf16 × JsonValue δ) → List (Utf16 × JsonValue δ)
  | [] => [(key, value)]
  | (other, old) :: rest =>
    if other = key then (key, value) :: rest else (other, old) :: setMember key value rest

/-- The map of the members in order: the last value of a key counts. -/
def ofMembers (members : List (Utf16 × JsonValue δ)) : List (Utf16 × JsonValue δ) :=
  members.foldl (fun made member => setMember member.1 member.2 made) []

section Parsing

variable (format : DoubleFormat δ)

-- The fuel is more than the length of the text, and each call is on a shorter one.
mutual

/-- A value behind blanks, and what is left. -/
def parseValue : Nat → Text → Option (JsonValue δ × Text)
  | 0, _ => none
  | fuel + 1, text =>
    match skipBlanks text with
    | [] => none
    | c :: rest =>
      if c = '"' then (parseString rest).map fun (units, rest) => (.str units, rest)
      else if c = '[' then
        match skipBlanks rest with
        | ']' :: rest => some (.list [], rest)
        | rest => (parseItems fuel rest).map fun (items, rest) => (.list items, rest)
      else if c = '{' then
        match skipBlanks rest with
        | '}' :: rest => some (.map [], rest)
        | rest =>
          (parseMembers fuel rest).map fun (members, rest) => (.map (ofMembers members), rest)
      else if c = 'n' then (expect ['u', 'l', 'l'] rest).map fun rest => (.null, rest)
      else if c = 't' then (expect ['r', 'u', 'e'] rest).map fun rest => (.bool true, rest)
      else if c = 'f' then (expect ['a', 'l', 's', 'e'] rest).map fun rest => (.bool false, rest)
      else
        (scanNumber (c :: rest)).map fun (literal, rest) => (numberValue format literal, rest)

/-- The items of a list, up to its bracket. -/
def parseItems : Nat → Text → Option (List (JsonValue δ) × Text)
  | 0, _ => none
  | fuel + 1, text =>
    match parseValue fuel text with
    | none => none
    | some (item, rest) =>
      match skipBlanks rest with
      | ']' :: rest => some ([item], rest)
      | ',' :: rest => (parseItems fuel rest).map fun (items, rest) => (item :: items, rest)
      | _ => none

/-- The members of a map, up to its brace. -/
def parseMembers : Nat → Text → Option (List (Utf16 × JsonValue δ) × Text)
  | 0, _ => none
  | fuel + 1, text =>
    match skipBlanks text with
    | '"' :: rest =>
      match parseString rest with
      | none => none
      | some (key, rest) =>
        match skipBlanks rest with
        | ':' :: rest =>
          match parseValue fuel rest with
          | none => none
          | some (value, rest) =>
            match skipBlanks rest with
            | '}' :: rest => some ([(key, value)], rest)
            | ',' :: rest =>
              (parseMembers fuel rest).map fun (members, rest) => ((key, value) :: members, rest)
            | _ => none
        | _ => none
    | _ => none

end

/-- A document is one value, with blanks around it. -/
def parse (text : Text) : Option (JsonValue δ) :=
  match parseValue format (text.length + 1) text with
  | none => none
  | some (value, rest) => if (skipBlanks rest).isEmpty then some value else none

end Parsing

end JsonText

end Sanmill
