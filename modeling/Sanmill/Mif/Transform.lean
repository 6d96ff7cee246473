import Sanmill.Lib.Fallible
import Sanmill.Mif.Manifest

/-!
# Board symmetries of documents

`transform.rs` turns the points of a document by one of the eight symmetries of the board. A point
goes through its coordinate text. A board field is cut into rings at byte offsets, and a cut inside
a character panics.
-/

namespace Sanmill.Mif

/-- What a call of a build that panics returns: a value, a diagnostic, or nothing. -/
abbrev Checked (α : Type) : Type := Except (Fault Diagnostic) α

/-- The part of a call that cannot panic. -/
def Checked.ofResult {α : Type} : Result α → Checked α
  | .ok a => .ok a
  | .error diagnostic => .error (.error diagnostic)

/-! ## Points -/

/-- `TRANSFORMS`. -/
inductive D4 where
  | i
  | r90ccw
  | r180
  | r90cw
  | mirrorV
  | mirrorH
  | mirrorMain
  | mirrorAnti
deriving DecidableEq, Repr

namespace D4

/-- The symmetries in the order of the source. -/
def all : List D4 := [.i, .r90ccw, .r180, .r90cw, .mirrorV, .mirrorH, .mirrorMain, .mirrorAnti]

/-- The image of an offset from the centre `d4`. -/
def map (x y : Int) : D4 → Int × Int
  | .i => (x, y)
  | .r90ccw => (-y, x)
  | .r180 => (-x, -y)
  | .r90cw => (y, -x)
  | .mirrorV => (-x, y)
  | .mirrorH => (x, -y)
  | .mirrorMain => (y, x)
  | .mirrorAnti => (-y, -x)

end D4

/-- The character of an offset from `base`. -/
def offsetChar (base : Char) (offset : Int) : Char := Char.ofNat (base.toNat + offset).toNat

/-- The image of a point, by its coordinates around the centre. -/
def transformIndex (index : Point) (transform : D4) : Result Point :=
  let coord := COORDS.getD index.val []
  let x : Int := (coord.getD 0 'd').toNat - 'd'.toNat
  let y : Int := (coord.getD 1 '4').toNat - '4'.toNat
  let image := transform.map x y
  match coordIndex [offsetChar 'd' image.1, offsetChar '4' image.2] with
  | some point => .ok point
  | none =>
    .error {
      category := "inconsistent"
      code := "transform-coordinate-invalid"
      message := "D4 transform left the mill24 topology" }

/-! ## Boards -/

/-- The bytes before and from an offset; a cut inside a character, or past the end, is none. -/
def splitAtByte : Text → Nat → Option (Text × Text)
  | [], n => if n = 0 then some ([], []) else none
  | c :: rest, n =>
    if n = 0 then some ([], c :: rest)
    else if c.utf8Size ≤ n then
      (splitAtByte rest (n - c.utf8Size)).map fun parts => (c :: parts.1, parts.2)
    else none

/-- The rings at bytes 0, 8 and 16 of a text. -/
def sliceRings (text : Text) : Checked Text :=
  match splitAtByte text 8 with
  | none => .error .panic
  | some (outer, text) =>
    match splitAtByte text 8 with
    | none => .error .panic
    | some (middle, text) =>
      match splitAtByte text 8 with
      | none => .error .panic
      | some (inner, _) => .ok (outer ++ '/' :: middle ++ '/' :: inner)

/-- One round of the loop of `transform_board`; a text of 24 bytes has at most 24 characters. -/
def placePiece (compact : Text) (transform : D4) (output : Board) (index : Point) : Result Board :=
  match compact[index.val]? with
  | none => .ok output
  | some piece => do
    let target ← transformIndex index transform
    .ok (Function.update output target piece)

/-- The board with each piece at the image of its point. -/
def transformBoard (value : Text) (transform : D4) : Checked Text :=
  let compact := value.filter fun c => c ≠ '/'
  if Text.utf8Len compact ≠ 24 then
    .error (.error {
      category := "syntax"
      code := "board-invalid"
      message := "board field does not contain 24 points" })
  else do
    let output ← Checked.ofResult
      ((List.finRange 24).foldlM (placePiece compact transform) fun _ => '.')
    sliceRings (boardText output)

/-- The image without the slashes. -/
def transformMpkBoard (value : Text) (transform : D4) : Checked Text := do
  let transformed ← transformBoard value transform
  .ok (transformed.filter fun c => c ≠ '/')

end Sanmill.Mif
