import Sanmill.Lib.Text
import Sanmill.PerfectDb.Database

/-!
# The table of sector values

A `.secval` text has the virtual values of a loss and of a win, the number of sectors, and a
line for each sector. After it is parsed its virtual values are checked against the width of
the packed field.
-/

namespace Sanmill.PerfectDb

/-- A line with its index. -/
abbrev NumberedLine : Type := Nat × Text

/-- The next line, which must be there. -/
def nextLine (lines : List NumberedLine) (fallbackLine : Nat) (expected : String) :
    Except ParseError (NumberedLine × List NumberedLine) :=
  match lines with
  | [] => .error (.missingLine fallbackLine expected)
  | (index, line) :: rest => .ok ((index + 1, line), rest)

/-- A number of 16 bits with a sign. -/
def parseI16 (lineNumber : Nat) (text : Text) : Except ParseError Int :=
  match Text.parseSigned (-32768) 32767 text with
  | some value => .ok value
  | none => .error (.invalidLine lineNumber (Text.intError (-32768) 32767 text))

/-- `parse_u8`, and `parse_usize` with its bound. -/
def parseUnsigned (bound lineNumber : Nat) (text : Text) : Except ParseError Nat :=
  match Text.parseUnsigned bound text with
  | some value => .ok value
  | none => .error (.invalidLine lineNumber (Text.intError 0 bound text))

/-- A number of 64 bits. -/
def parseUsize (lineNumber : Nat) (text : Text) : Except ParseError Nat :=
  parseUnsigned usizeMax lineNumber (Text.trim text)

/-- A number of 8 bits. -/
def parseU8 (lineNumber : Nat) (text : Text) : Except ParseError Nat :=
  parseUnsigned 255 lineNumber text

/-- The rest of a text behind a label. -/
def stripLabel (label text : Text) : Option Text :=
  if label.isPrefixOf text then some (text.drop label.length) else none

/-- `parse_prefixed_i16`. -/
def parseLabelledI16 (lineNumber : Nat) (line : Text) (label : String) : Except ParseError Int :=
  match stripLabel label.toList (Text.trim line) with
  | none => .error (.invalidLine lineNumber ("expected prefix \"" ++ label ++ "\""))
  | some value => parseI16 lineNumber (Text.trim value)

/-- A line of the table: the sector and its value. -/
def parseSectorValue (lineNumber : Nat) (line : Text) :
    Except (Fault ParseError) (SectorId × Int) :=
  match Text.splitWhitespace line with
  | [whiteOnBoard, blackOnBoard, whiteInHand, blackInHand, value] => do
    let whiteOnBoard ← (parseU8 lineNumber whiteOnBoard).mapError .error
    let blackOnBoard ← (parseU8 lineNumber blackOnBoard).mapError .error
    let whiteInHand ← (parseU8 lineNumber whiteInHand).mapError .error
    let blackInHand ← (parseU8 lineNumber blackInHand).mapError .error
    if [whiteOnBoard, blackOnBoard, whiteInHand, blackInHand].any fun count : Nat => 12 < count then
      .error (.error (.invalidLine lineNumber "Perfect DB sector piece counts must be in 0..=12"))
    else do
      let value ← (parseI16 lineNumber value).mapError .error
      let id ← orPanic (SectorId.new whiteOnBoard blackOnBoard whiteInHand blackInHand)
      .ok (id, value)
  | parts => .error (.error (.invalidLine lineNumber s!"expected 5 fields, got {parts.length}"))

/-- The `Debug` text of a sector. -/
def SectorId.debugText (id : SectorId) : String :=
  "SectorId \x7b white_on_board: " ++ toString id.whiteOnBoard
    ++ ", black_on_board: " ++ toString id.blackOnBoard
    ++ ", white_in_hand: " ++ toString id.whiteInHand
    ++ ", black_in_hand: " ++ toString id.blackInHand ++ " \x7d"

/-- The loop over the sectors, with the values so far. -/
def parseSectorValues (countLine : Nat) :
    Nat → List NumberedLine → List (SectorId × Int) →
    Except (Fault ParseError) (List (SectorId × Int) × List NumberedLine)
  | 0, lines, values => .ok (values, lines)
  | rest + 1, lines, values => do
    let ((lineNumber, line), lines)
      ← (nextLine lines (countLine + 1) "sector value").mapError .error
    let (id, value) ← parseSectorValue lineNumber line
    if (values.lookup id).isSome then
      .error (.error (.invalidLine lineNumber
        ("duplicate Perfect DB sector id: " ++ id.debugText)))
    else parseSectorValues countLine rest lines ((id, value) :: values)

/-- The negation of an `i16`; `none` stands for the overflow. -/
def negI16 (value : Int) : Option Int := if value = -32768 then none else some (-value)

/-- The part of `parse` behind the two virtual values. -/
def parseSectors (lines : List NumberedLine) (virtLossVal virtWinVal : Int) :
    Except (Fault ParseError) SecValTable := do
  let ((countLine, countText), lines) ← (nextLine lines 3 "sector count").mapError .error
  let expectedCount ← (parseUsize countLine countText).mapError .error
  let (values, lines) ← parseSectorValues countLine expectedCount lines []
  match lines.find? fun line => !(Text.trim line.2).isEmpty with
  | some (lineIndex, _) =>
    .error (.error (.invalidLine (lineIndex + 1) "unexpected trailing content"))
  | none =>
    if values.length ≠ expectedCount then
      .error (.error (.invalidHeader "parsed sector count must match std.secval header"))
    else .ok ⟨virtLossVal, virtWinVal, fun id => values.lookup id⟩

/-- `lines().enumerate()`. -/
def numberedLines (text : Text) : List NumberedLine :=
  (Text.lines text).zipIdx.map fun (line, index) => (index, line)

/-- `SecValTable::parse`: the two virtual values, then a line for each sector. -/
def SecValTable.parse (text : Text) : Except (Fault ParseError) SecValTable :=
  if (Text.trim text).isEmpty then .error (.error .emptyInput)
  else do
    let ((lossLine, lossText), lines) ←
      (nextLine (numberedLines text) 1 "virt_loss_val").mapError .error
    let virtLossVal ← (parseLabelledI16 lossLine lossText "virt_loss_val:").mapError .error
    let ((winLine, winText), lines) ← (nextLine lines 2 "virt_win_val").mapError .error
    let virtWinVal ← (parseLabelledI16 winLine winText "virt_win_val:").mapError .error
    let negated ← orPanic (negI16 virtLossVal)
    if virtWinVal ≠ negated then
      .error (.error (.invalidHeader "Perfect DB virtual win/loss values must be symmetric"))
    else parseSectors lines virtLossVal virtWinVal

/-- `validate_value_range`: the values fit in the field of the sector files. -/
def SecValTable.validateValueRange (table : SecValTable) (field1Size : Nat) :
    Except (Fault ParseError) Unit :=
  if ¬ (1 ≤ field1Size ∧ field1Size ≤ 15) then .error .panic
  else
    let secValMinValue : Int := -(2 ^ (field1Size - 1))
    let guardedLoss := 2 * table.virtLossVal - 5
    if guardedLoss ≤ secValMinValue then
      .error (.error (.invalidHeader
        s!"virt_loss_val {table.virtLossVal} is outside field1_size {field1Size}"))
    else .ok ()

/-- `none` where the variant is not a known one. -/
def DatabaseVariant.field1Size (variant : DatabaseVariant) : Option Nat :=
  if variant ∈ known then some (if variant = standard then 12 else 14) else none

/-- The part of `read_secval` behind the reading of the text. -/
def SecValTable.read (text : Text) (variant : DatabaseVariant) :
    Except (Fault ParseError) SecValTable := do
  let table ← SecValTable.parse text
  let field1Size ← orPanic variant.field1Size
  table.validateValueRange field1Size
  .ok table

end Sanmill.PerfectDb
