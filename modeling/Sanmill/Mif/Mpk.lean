import Mathlib.Data.Char
import Mathlib.Data.List.Lex
import Sanmill.Mif.Transform

/-!
# Position keys

An MPK is the text of a position up to the symmetries of the board: the rule set, the board
without separators, the player to move, the phase and the hands. `canonicalize_mpk` takes the least
of the eight images.
-/

namespace Sanmill.Mif

/-- `is_ascii_hexdigit`. -/
def isHexDigit (c : Char) : Bool := (hexDigit c).isSome

/-- The hexadecimal digits that are digits or small letters. -/
def isLowerHexDigit (c : Char) : Bool := ('0' ≤ c && c ≤ '9') || ('a' ≤ c && c ≤ 'f')

/-- Lower case, for ASCII letters only. -/
def asciiLower (c : Char) : Char := if 'A' ≤ c ∧ c ≤ 'Z' then Char.ofNat (c.toNat + 32) else c

/-- The answer to a digest that is no SHA-256 text. -/
def digestInvalid : Diagnostic :=
  { category := "syntax"
    code := "digest-invalid"
    message := "MPK semantic digest must be SHA-256 text" }

/-- A digest is SHA-256 in lower case. -/
def validateMpkDigest (value : Text) : Result Unit :=
  match Text.splitOnce ':' value with
  | none => .error digestInvalid
  | some (algorithm, digest) =>
    if algorithm.map asciiLower = "sha256".toList ∧ Text.utf8Len digest = 64
        ∧ digest.all isHexDigit = true then
      if algorithm = "sha256".toList ∧ digest.all isLowerHexDigit = true then .ok ()
      else
        .error {
          category := "canonical"
          code := "non-canonical-digest"
          message := "MPK semantic digest is not canonical lowercase SHA-256 text" }
    else .error digestInvalid

/-- The fields of a key that has passed every check; its rule set is the manifest's. -/
structure MpkFields where
  board : Text
  side : Text
  phase : Text
  hands : Nat × Nat

/-- The id and the version of the rules. -/
def Manifest.reference (manifest : Manifest) : Text :=
  ((manifest.value.get "id").bind Json.asString).getD [] ++ '@' ::
    Text.decimal (((manifest.value.get "version").bind Json.asU64).getD 0)

/-- `parse_mpk`: eight tokens, or the form without a digest, which has its own answer. -/
def parseMpk (manifest : Manifest) (value : Text) : Result MpkFields :=
  match splitAsciiWhitespace value with
  | [format, profile, _, kind, _, _, _, _] =>
    if format = "MPK/1.0".toList ∧ profile = "mill24-state-v1".toList
        ∧ kind = "structural-d4-v1".toList then
      .error {
        category := "integrity"
        code := "mpk-semantic-digest-missing"
        message := "MPK semantic digest is missing" }
    else
      .error {
        category := "syntax"
        code := "mpk-invalid"
        message := "MPK/1.0 value is incomplete" }
  | [format, profile, reference, digest, kind, board, side, phase, hands] =>
    if format ≠ "MPK/1.0".toList ∨ profile ≠ "mill24-state-v1".toList then
      .error {
        category := "syntax"
        code := "mpk-invalid"
        message := "MPK/1.0 value is incomplete" }
    else do
      validateMpkDigest digest
      if reference ≠ manifest.reference then
        .error {
          category := "integrity"
          code := "manifest-conflict"
          message := "MPK ruleset reference does not match manifest" }
      else if digest ≠ manifest.semanticDigest then
        .error {
          category := "integrity"
          code := "semantic-digest-mismatch"
          message := "MPK semantic digest does not match manifest" }
      else if kind ≠ "structural-d4-v1".toList then
        .error {
          category := "unsupported"
          code := "key-profile-unsupported"
          message := "only structural-d4-v1 is implemented" }
      else if Text.utf8Len board ≠ 24 ∨ board.contains '/' = true
          ∨ board.any (fun c => c ∉ ['W', 'B', 'w', 'b', '.']) = true then
        .error {
          category := "syntax"
          code := "mpk-board-invalid"
          message := "MPK board must contain 24 points without separators" }
      else if side ∉ [['w'], ['b']] ∨ phase ∉ [['p'], ['m']] then
        .error {
          category := "syntax"
          code := "mpk-state-invalid"
          message := "MPK side and phase must be active" }
      else
        match hands.splitOn ',' with
        | [white, black] => do
          let white ← parseUint white "hands"
          let black ← parseUint black "hands"
          .ok { board, side, phase, hands := (white, black) }
        | _ =>
          .error {
            category := "syntax"
            code := "hands-invalid"
            message := "MPK hands require white,black" }
  | _ =>
    .error {
      category := "syntax"
      code := "mpk-invalid"
      message := "MPK/1.0 value is incomplete" }

/-- A key with one of the images of its board. -/
def mpkText (manifest : Manifest) (fields : MpkFields) (board : Text) : Text :=
  Text.joinBlank ["MPK/1.0".toList, "mill24-state-v1".toList, manifest.reference,
    manifest.semanticDigest, "structural-d4-v1".toList, board, fields.side, fields.phase,
    Text.decimal fields.hands.1 ++ ',' :: Text.decimal fields.hands.2]

/-- The text of the image under a symmetry. -/
def mpkCandidate (manifest : Manifest) (fields : MpkFields) (transform : D4) : Checked Text := do
  let board ← transformMpkBoard fields.board transform
  .ok (mpkText manifest fields board)

/-- The least of the eight candidates. -/
def canonicalMpk (manifest : Manifest) (value : Text) : Checked Text := do
  let fields ← Checked.ofResult (parseMpk manifest value)
  let candidates ← D4.all.mapM (mpkCandidate manifest fields)
  .ok ((candidates.mergeSort fun a b => decide (a ≤ b)).headD [])

/-- `canonicalize_mpk`: the least of the eight images. -/
def canonicalizeMpk (identity : Identity) (value : Text) (manifestValue : Option Json) :
    Checked Json := do
  let manifestValue ← match manifestValue with
    | some manifestValue => .ok manifestValue
    | none =>
      .error (.error {
        category := "integrity"
        code := "manifest-missing"
        message := "MPK binding requires caller ruleset context" })
  let manifest ← Checked.ofResult (Manifest.new identity manifestValue)
  let text ← canonicalMpk manifest value
  .ok (.ofMembers [("value", .str text)])

end Sanmill.Mif
