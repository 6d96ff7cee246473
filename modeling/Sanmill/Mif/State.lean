import Mathlib.Data.List.Lex
import Mathlib.Data.Char
import Mathlib.Logic.Function.Basic
import Sanmill.Lib.Json

/-!
# MFEN states

The state of the interoperability engine is the text of an MFEN position taken apart:
the board, who moves and how, the hands, the removals that are owed, two counters and
the outcome. A state that has an outcome other than `-` is decided. Machine integers of
64 bits wrap around.
-/

namespace Sanmill.Mif

/-- The limit that a diagnostic names. -/
structure ResourceLimit where
  name : String
  limit : Nat
  actual : Nat
deriving DecidableEq, Repr

/-- `Diagnostic`: what is wrong with a document, and where. -/
structure Diagnostic where
  category : String
  code : String
  message : String
  eventSeq : Option Nat := none
  resourceLimit : Option ResourceLimit := none
deriving DecidableEq, Repr

/-- What is answered, or the first diagnostic. -/
abbrev Result (α : Type) : Type := Except Diagnostic α

/-- A number above its limit is refused. -/
def enforceResourceLimit (name : String) (actual limit : Nat) : Result Unit :=
  if limit < actual then
    .error {
      category := "resource"
      code := "resource-limit"
      message := name ++ " resource limit exceeded"
      resourceLimit := some ⟨name, limit, actual⟩ }
  else .ok ()

/-- `illegal`: the replay refuses the event. -/
def illegal (code message : String) (seq : Nat) : Diagnostic :=
  { category := "replay", code, message, eventSeq := some seq }

/-- Addition and subtraction of `u64` values in a release build. -/
def u64Add (a b : Nat) : Nat := (a + b) % 2 ^ 64

/-- One less, in `u64` arithmetic of a release build. -/
def u64Pred (a : Nat) : Nat := (a + (2 ^ 64 - 1)) % 2 ^ 64

/-- A point of the board, in the order of the format. -/
abbrev Point : Type := Fin 24

/-- `COORDS`: ring by ring from the outermost, from the upper left corner clockwise. -/
def COORDS : List Text :=
  ["a7", "d7", "g7", "g4", "g1", "d1", "a1", "a4", "b6", "d6", "f6", "f4", "f2", "d2", "b2", "b4",
    "c5", "d5", "e5", "e4", "e3", "d3", "c3", "c4"].map String.toList

/-- `coord_index`. -/
def coordIndex (coord : Text) : Option Point :=
  (List.finRange 24).find? fun point => COORDS.getD point.val [] = coord

/-- The sixteen lines of three. -/
def LINES : List (List Point) :=
  [[0, 1, 2], [2, 3, 4], [4, 5, 6], [6, 7, 0], [8, 9, 10], [10, 11, 12], [12, 13, 14],
    [14, 15, 8], [16, 17, 18], [18, 19, 20], [20, 21, 22], [22, 23, 16], [1, 9, 17], [3, 11, 19],
    [5, 13, 21], [7, 15, 23]]

/-- The neighbours of a point. -/
def ADJACENCY (point : Point) : List Point :=
  [[1, 7], [0, 2, 9], [1, 3], [2, 4, 11], [3, 5], [4, 6, 13], [5, 7], [0, 6, 15], [9, 15],
    [1, 8, 10, 17], [9, 11], [3, 10, 12, 19], [11, 13], [5, 12, 14, 21], [13, 15], [7, 8, 14, 23],
    [17, 23], [9, 16, 18], [17, 19], [11, 18, 20], [19, 21], [13, 20, 22], [21, 23],
    [15, 16, 22]].getD point.val []

/-- What stands on each point: a letter, small where it is marked, or a dot. -/
abbrev Board : Type := Point → Char

/-- `State`: the fields of the position text. -/
structure State where
  board : Board
  side : Char
  phase : Char
  action : Char
  hands : Fin 2 → Nat
  obligations : Text
  noProgress : Nat
  primaryPly : Nat
  outcome : Text
  extensions : List Text

/-- The field of a state without obligations and the field of an undecided one. -/
def dash : Text := ['-']

/-- A field of one character. -/
def oneChar (value : Text) (field : String) : Result Char :=
  match value with
  | [] =>
    .error { category := "syntax", code := "mfen-invalid",
             message := "empty " ++ field ++ " field" }
  | [c] => .ok c
  | _ =>
    .error { category := "syntax", code := "mfen-invalid",
             message := "invalid " ++ field ++ " field" }

/-- A number without leading zeros. -/
def parseUint (value : Text) (field : String) : Result Nat :=
  if 1 < value.length ∧ value.head? = some '0' then
    .error {
      category := "canonical"
      code := "integer-not-canonical"
      message := field ++ " has a leading zero" }
  else match Text.parseUnsigned (2 ^ 64 - 1) value with
    | some n => .ok n
    | none =>
      .error {
        category := "syntax"
        code := "integer-invalid"
        message := field ++ " is not an unsigned integer" }

/-- White is 0. -/
def playerIndex (player : Char) : Fin 2 := if player = 'b' then 1 else 0

/-- The other player. -/
def opponent (player : Char) : Char := if player = 'w' then 'b' else 'w'

/-- `split_ascii_whitespace`. -/
def splitAsciiWhitespace (text : Text) : List Text :=
  (text.splitOnP fun c => c = ' ' || c = '\t' || c = '\n' || c.toNat = 12 || c = '\r').filter
    fun token : Text => !token.isEmpty

/-- `validate_shape`: side, phase and action go together, before and after the end. -/
def State.validateShape (s : State) : Result Unit :=
  if s.outcome = dash ∧ (s.side ∉ ['w', 'b'] ∨ s.phase ∉ ['p', 'm']
    ∨ s.action ∉ ['p', 'm', 'r']) then
    .error {
      category := "inconsistent"
      code := "state-fields-inconsistent"
      message := "ongoing side, phase and action are inconsistent" }
  else if s.outcome ≠ dash ∧ (s.side ≠ '-' ∨ s.phase ≠ 'o' ∨ s.action ≠ 'o'
    ∨ s.obligations ≠ dash) then
    .error {
      category := "inconsistent"
      code := "terminal-state-not-normalized"
      message := "terminal MFEN fields are not normalized" }
  else if s.obligations = dash ∧ s.outcome = dash ∧ s.action ≠ s.phase then
    .error {
      category := "inconsistent"
      code := "action-phase-mismatch"
      message := "stable action must match phase" }
  else if s.obligations ≠ dash ∧ s.action ≠ 'r' then
    .error {
      category := "inconsistent"
      code := "obligation-action-mismatch"
      message := "an obligation requires remove action" }
  else .ok ()

/-- The board of a field, with or without the slashes between the rings. -/
def parseBoard (field : Text) : Result Board :=
  let compact := field.filter fun c => c ≠ '/'
  if compact.length ≠ 24 ∨ compact.any (fun c => c ∉ ['W', 'B', 'w', 'b', '.']) then
    .error {
      category := "syntax"
      code := "board-invalid"
      message := "MFEN board must contain three eight-point rings" }
  else .ok fun point => compact.getD point.val '.'

/-- Two numbers, white first. -/
def parseHands (field : Text) : Result (Fin 2 → Nat) :=
  match field.splitOn ',' with
  | [white, black] => do
    let white ← parseUint white "hands"
    let black ← parseUint black "hands"
    .ok fun player => if player = 0 then white else black
  | _ =>
    .error {
      category := "syntax"
      code := "hands-invalid"
      message := "hands must contain white,black counts" }

/-- `State::parse`: every field of the text, and their agreement. -/
def State.parse (text : Text) : Result State :=
  match splitAsciiWhitespace text with
  | format :: profile :: board :: side :: phase :: action :: hands :: obligations :: noProgress
      :: primaryPly :: outcome :: extensions =>
    if format ≠ "MFEN/1.0".toList ∨ profile ≠ "mill24-state-v1".toList then
      .error {
        category := "syntax"
        code := "mfen-invalid"
        message := "MFEN must use MFEN/1.0 mill24-state-v1 and all required fields" }
    else do
      let board ← parseBoard board
      let side ← oneChar side "side"
      let phase ← oneChar phase "phase"
      let action ← oneChar action "action"
      let hands ← parseHands hands
      let noProgress ← parseUint noProgress "no-progress"
      let primaryPly ← parseUint primaryPly "primary-ply"
      let state : State :=
        { board, side, phase, action, hands, obligations, noProgress, primaryPly, outcome,
          extensions }
      state.validateShape
      .ok state
  | _ =>
    .error {
      category := "syntax"
      code := "mfen-invalid"
      message := "MFEN must use MFEN/1.0 mill24-state-v1 and all required fields" }

/-- The pieces in the order of the points. -/
def boardText (board : Board) : Text := (List.finRange 24).map board

/-- Three rings of eight points. -/
def joinRings (compact : Text) : Text :=
  compact.take 8 ++ '/' :: (compact.drop 8).take 8 ++ '/' :: (compact.drop 16).take 8

/-- The board with its rings apart. -/
def State.boardField (s : State) : Text := joinRings (boardText s.board)

/-- The text of a state. -/
def State.canonical (s : State) : Text :=
  Text.joinBlank
    (["MFEN/1.0".toList, "mill24-state-v1".toList, s.boardField, [s.side], [s.phase], [s.action],
        Text.decimal (s.hands 0) ++ ',' :: Text.decimal (s.hands 1), s.obligations,
        Text.decimal s.noProgress, Text.decimal s.primaryPly, s.outcome]
      ++ s.extensions.mergeSort fun a b => decide (a ≤ b))

/-- Undecided, nothing owed, and the action that of the phase. -/
def State.stable (s : State) : Bool :=
  s.outcome = dash ∧ s.obligations = dash ∧ s.action = s.phase

/-- `terminal`: the state is decided. -/
def State.terminal (s : State) (result : Char) (reason : Text) : State :=
  { s with
    side := '-', phase := 'o', action := 'o', obligations := dash
    outcome := result :: ':' :: reason }

/-- The pieces of a player that are not marked. -/
def liveOn (board : Board) (player : Char) : Nat :=
  (List.finRange 24).countP fun point => board point = player.toUpper

/-- The pieces of a player on the board of the state. -/
def State.liveCount (s : State) (player : Char) : Nat := liveOn s.board player

/-! ## Mills and removals -/

/-- `closes_mill`. -/
def closesMill (board : Board) (player : Char) (destination : Point) : Bool :=
  LINES.any fun line =>
    line.contains destination && line.all fun point => board point = player.toUpper

/-- `removal_targets`: the pieces outside mills, or all when there is none. -/
def removalTargets (board : Board) (owner : Char) : BitVec 32 :=
  let owned := (List.finRange 24).filter fun point => board point = owner.toUpper
  let outside := owned.filter fun point => !closesMill board owner point
  let candidates := if outside.isEmpty then owned else outside
  candidates.foldl (fun mask point => mask ||| (1#32 <<< point.val)) 0

/-- A removal that is owed. -/
structure Obligation where
  actor : Char
  cause : Text
  zone : Char
  owner : Char
  remaining : Nat
  targets : BitVec 32
  targetsDeferred : Bool
  after : Char
deriving DecidableEq

/-- A hexadecimal digit in either case. -/
def hexDigit (c : Char) : Option Nat :=
  if '0' ≤ c ∧ c ≤ '9' then some (c.toNat - '0'.toNat)
  else if 'a' ≤ c ∧ c ≤ 'f' then some (c.toNat - 'a'.toNat + 10)
  else if 'A' ≤ c ∧ c ≤ 'F' then some (c.toNat - 'A'.toNat + 10)
  else none

/-- `u32::from_str_radix(_, 16)`. -/
def parseHex (text : Text) : Option (BitVec 32) :=
  let digits := match text with
    | '+' :: rest => rest
    | _ => text
  if digits = [] then none
  else (digits.mapM hexDigit).bind fun values =>
    let value := values.foldl (fun n d => 16 * n + d) 0
    if value < 2 ^ 32 then some (BitVec.ofNat 32 value) else none

/-- `{:06x}`. -/
def hex6 (value : BitVec 32) : Text :=
  let digits := Nat.toDigits 16 value.toNat
  List.replicate (6 - digits.length) '0' ++ digits

/-- Seven parts; the targets may be left open. -/
def parseObligation (value : Text) : Result Obligation :=
  match value.splitOn ':' with
  | [actor, cause, zone, owner, remaining, targets, after] => do
    let targetsDeferred := decide (targets = ['~'])
    let targets ←
      if targetsDeferred ∨ targets = dash then .ok 0
      else match parseHex targets with
        | some mask => .ok mask
        | none =>
          .error { category := "syntax", code := "obligation-invalid",
                   message := "invalid target bit set" }
    let actor ← oneChar actor "obligation actor"
    let zone ← oneChar zone "obligation zone"
    let owner ← oneChar owner "obligation owner"
    let remaining ← parseUint remaining "obligation remaining"
    let after ← oneChar after "obligation after"
    .ok { actor, cause, zone, owner, remaining, targets, targetsDeferred, after }
  | _ =>
    .error {
      category := "syntax"
      code := "obligation-invalid"
      message := "obligation requires seven fields" }

/-- Alternatives, each a sequence of removals. -/
def parseObligationBranches (value : Text) : Result (List (List Obligation)) :=
  (value.splitOn '|').mapM fun branch => (branch.splitOn ';').mapM parseObligation

/-- A removal that is owed, as it is written. -/
def serializeObligation (o : Obligation) : Text :=
  [':'].intercalate
    [[o.actor], o.cause, [o.zone], [o.owner], Text.decimal o.remaining,
      if o.targetsDeferred then ['~'] else if o.zone = 'h' then dash else hex6 o.targets, [o.after]]

/-- A sequence of removals, as it is written. -/
def serializeBranch (branch : List Obligation) : Text :=
  [';'].intercalate (branch.map serializeObligation)

end Sanmill.Mif
