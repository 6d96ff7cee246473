import Mathlib.Data.Int.Init
import Mathlib.Logic.Function.Basic
import Sanmill.Lib.Fallible
import Sanmill.Lib.LittleEndian
import Sanmill.PerfectDb.Hash

/-!
# Sector files

A sector file is a header, an array with one packed evaluation a slot, and a table of the
values that did not fit their packed field. It is read slot by slot through a reader that
seeks, or as a whole from a buffer.
-/

namespace Sanmill.PerfectDb

open LittleEndian

/-- How a file fails to parse. -/
inductive ParseError where
  | emptyInput
  | missingLine (line : Nat) (expected : String)
  | invalidLine (line : Nat) (message : String)
  | invalidHeader (message : String)
  | invalidLength (expected actual : Nat)
  | outOfBounds (index len : Nat)
  | missingEmSetEntry (index : Nat)
deriving DecidableEq, Repr

/-- The largest `usize`. -/
def usizeMax : Nat := 2 ^ 64 - 1

/-- `checked_add` of two sizes. -/
def checkedAdd (a b : Nat) : Option Nat := if a + b ≤ usizeMax then some (a + b) else none

/-- `checked_mul` of two sizes. -/
def checkedMul (a b : Nat) : Option Nat := if a * b ≤ usizeMax then some (a * b) else none

/-- `i32::from_le_bytes`. -/
def i32FromLeBytes (chunk : List Byte) : Int := (BitVec.ofNat 32 (decode chunk)).toInt

/-- `bytes.get(offset..offset + len)`. -/
def slice? (bytes : List Byte) (offset len : Nat) : Option (List Byte) :=
  if offset + len ≤ bytes.length then some ((bytes.drop offset).take len) else none

/-- Four bytes as a number with a sign, the lowest first. -/
def readI32Le (bytes : List Byte) (offset : Nat) : Except ParseError Int :=
  match checkedAdd offset 4 with
  | none => .error (.invalidLength usizeMax bytes.length)
  | some stop =>
    match slice? bytes offset 4 with
    | none => .error (.invalidLength stop bytes.length)
    | some chunk => .ok (i32FromLeBytes chunk)

/-! ## The header -/

/-- The bytes of the header. -/
def sectorHeaderSize : Nat := 64

/-- The version that is read. -/
def sectorFormatVersion : Int := 2

/-- A header, with what `parse` checks of it. -/
structure SectorHeader where
  version : Int
  evalStructSize : Nat
  field2Offset : Nat
  stoneDiff : Bool
  evalStructSize_pos : 1 ≤ evalStructSize
  evalStructSize_le : evalStructSize ≤ 4
  field2Offset_pos : 1 ≤ field2Offset
  field2Offset_lt : field2Offset < evalStructSize * 8
deriving DecidableEq

/-- `SectorHeader::parse`: the version and the layout of the slots. -/
def SectorHeader.parse (bytes : List Byte) : Except ParseError SectorHeader :=
  if bytes.length < sectorHeaderSize then
    .error (.invalidLength sectorHeaderSize bytes.length)
  else do
    let version ← readI32Le bytes 0
    if version ≠ sectorFormatVersion then
      .error (.invalidHeader s!"expected version {sectorFormatVersion}, got {version}")
    else
      let evalStructSize ← readI32Le bytes 4
      if hsize : 1 ≤ evalStructSize ∧ evalStructSize ≤ 4 then
        let field2Offset ← readI32Le bytes 8
        let bitWidth := evalStructSize * 8
        if hoffset : 1 ≤ field2Offset ∧ field2Offset < bitWidth then
          let flag := ((bytes[12]?).getD 0).toNat
          if flag ≤ 1 then
            .ok {
              version := version
              evalStructSize := evalStructSize.toNat
              field2Offset := field2Offset.toNat
              stoneDiff := flag = 1
              evalStructSize_pos := by omega
              evalStructSize_le := by omega
              field2Offset_pos := by omega
              field2Offset_lt := by omega }
          else
            .error (.invalidHeader s!"unsupported stone_diff flag {flag}")
        else
          .error (.invalidHeader s!"field2 offset {field2Offset} is outside 1..{bitWidth}")
      else
        .error (.invalidHeader s!"unsupported eval struct size {evalStructSize}")

/-! ## Evaluations -/

/-- The two fields of a slot. -/
structure RawEval where
  key1 : Int
  key2 : Int
deriving DecidableEq, Repr

/-- What a slot says: a value, a count or a redirect. -/
inductive RawEvalKind where
  | value
  | count
  | symmetry (operation : SymmetryOp)
deriving DecidableEq, Repr

/-- `try_kind`: which of the three a slot is. -/
def RawEval.tryKind (raw : RawEval) : Except ParseError RawEvalKind :=
  if raw.key1 ≠ 0 then .ok .value
  else if 0 ≤ raw.key2 then .ok .count
  else
    let operation := -(raw.key2 + 1)
    if h : 0 ≤ operation ∧ operation < 16 then
      .ok (.symmetry ⟨operation.toNat, by omega⟩)
    else
      .error (.invalidHeader s!"symmetry operation must be in 0..16, got {operation}")

/-- `kind`, which expects that `try_kind` succeeds. -/
def RawEval.kind (raw : RawEval) : Except (Fault ParseError) RawEvalKind :=
  match raw.tryKind with
  | .ok kind => .ok kind
  | .error _ => .error .panic

/-- The table of the values that did not fit. -/
abbrev EmSet : Type := Nat → Option Int

/-- The low `bits` bits as a signed number; a header keeps them in `1..32`. -/
def signExtend (value : BitVec 32) (bits : Nat) : Int :=
  ((value <<< (32 - bits)).sshiftRight (32 - bits)).toInt

namespace SectorHeader

variable (header : SectorHeader)

/-- The width of the first field. -/
def field1Bits : Nat := header.field2Offset

/-- The width of the second field. -/
def field2Bits : Nat := header.evalStructSize * 8 - header.field1Bits

/-- The packed value that refers to the table. -/
def specField2 : Int := -(2 ^ (header.field2Bits - 1))

/-- A slot from its bytes: the same lines in `eval_at` and in `decode_all_from_bytes`. -/
def unpack (emSet : EmSet) (index : Nat) (chunk : List Byte) : Except ParseError RawEval :=
  let raw := BitVec.ofNat 32 (decode chunk)
  let field1Mask := BitVec.ofNat 32 (2 ^ header.field1Bits - 1)
  let key1 := signExtend (raw &&& field1Mask) header.field1Bits
  let key2 := signExtend (raw >>> header.field1Bits) header.field2Bits
  if key2 = header.specField2 then
    match emSet index with
    | none => .error (.missingEmSetEntry index)
    | some key2 => .ok ⟨key1, key2⟩
  else .ok ⟨key1, key2⟩

end SectorHeader

/-! ## The table -/

/-- One entry of the table, in both readers. -/
def addEmSetEntry (evalCount : Nat) (emSet : EmSet) (index value : Int) :
    Except ParseError EmSet :=
  if index < 0 then .error (.invalidHeader s!"negative em_set index {index}")
  else
    let index := index.toNat
    if evalCount ≤ index then .error (.outOfBounds index evalCount)
    else if (emSet index).isSome then
      .error (.invalidHeader s!"duplicate em_set entry for eval index {index}")
    else .ok (Function.update emSet index (some value))

/-- The loop of `parse_em_set`. -/
def parseEmSetEntries (bytes : List Byte) (evalCount : Nat) :
    Nat → Nat → EmSet → Except ParseError EmSet
  | 0, _, emSet => .ok emSet
  | rest + 1, offset, emSet => do
    let index ← readI32Le bytes offset
    let value ← readI32Le bytes (offset + 4)
    let emSet ← addEmSetEntry evalCount emSet index value
    parseEmSetEntries bytes evalCount rest (offset + 8) emSet

/-- The list of the slots whose count is too large for the field. -/
def parseEmSet (bytes : List Byte) (evalSize evalCount : Nat) : Except ParseError EmSet :=
  match checkedAdd sectorHeaderSize evalSize with
  | none => .error (.invalidLength usizeMax bytes.length)
  | some emSetCountOffset => do
    let emSetCount ← readI32Le bytes emSetCountOffset
    if emSetCount < 0 then .error (.invalidHeader s!"negative em_set length {emSetCount}")
    else
      let emSetLen := emSetCount.toNat
      let expectedLen := do
        let base ← checkedAdd emSetCountOffset 4
        let entries ← checkedMul emSetLen 8
        checkedAdd base entries
      match expectedLen with
      | none => .error (.invalidLength usizeMax bytes.length)
      | some expectedLen =>
        if bytes.length ≠ expectedLen then .error (.invalidLength expectedLen bytes.length)
        else parseEmSetEntries bytes evalCount emSetLen (emSetCountOffset + 4) fun _ => none

/-! ## The readers -/

/-- The start of `decode_all_from_bytes`: the header and the table. -/
def parseLayout (bytes : List Byte) (evalCount : Nat) :
    Except ParseError (SectorHeader × EmSet) := do
  let header ← SectorHeader.parse bytes
  match checkedMul evalCount header.evalStructSize with
  | none => .error (.invalidLength usizeMax bytes.length)
  | some evalSize =>
    let emSet ← parseEmSet bytes evalSize evalCount
    .ok (header, emSet)

/-- One round of its loop, which panics where the slot is not in the buffer. -/
def decodeSlot (bytes : List Byte) (header : SectorHeader) (emSet : EmSet) (index : Nat) :
    Except (Fault ParseError) RawEval :=
  match slice? bytes (sectorHeaderSize + index * header.evalStructSize) header.evalStructSize with
  | none => .error .panic
  | some chunk => (header.unpack emSet index chunk).mapError .error

/-- `decode_all_from_bytes`: every slot of the file at once. -/
def decodeAllFromBytes (bytes : List Byte) (evalCount : Nat) :
    Except (Fault ParseError) (List RawEval) :=
  match parseLayout bytes evalCount with
  | .error e => .error (.error e)
  | .ok (header, emSet) => (List.range evalCount).mapM (decodeSlot bytes header emSet)

/-- An opened sector; `reader` are the bytes that it seeks in. -/
structure SectorFile where
  header : SectorHeader
  evalCount : Nat
  emSet : EmSet
  reader : List Byte

namespace SectorFile

/-- A whole buffer, wrapped as a reader; `parse_em_set` is the one above. -/
def parse (bytes : List Byte) (evalCount : Nat) : Except ParseError SectorFile := do
  let header ← SectorHeader.parse bytes
  match checkedMul evalCount header.evalStructSize with
  | none => .error (.invalidLength usizeMax bytes.length)
  | some evalSize =>
    let emSet ← parseEmSet bytes evalSize evalCount
    .ok ⟨header, evalCount, emSet, bytes⟩

/-- What `read_exact` says at the end of the bytes. -/
def shortRead : String := "failed to fill whole buffer"

/-- The loop of `open` over the table. -/
def openEntries (reader : List Byte) (evalCount : Nat) :
    Nat → Nat → EmSet → Except ParseError EmSet
  | 0, _, emSet => .ok emSet
  | rest + 1, offset, emSet =>
    match slice? reader offset 8 with
    | none => .error (.invalidHeader s!"read em_set entry failed: {shortRead}")
    | some entry => do
      let emSet ← addEmSetEntry evalCount emSet (i32FromLeBytes (entry.take 4))
        (i32FromLeBytes (entry.drop 4))
      openEntries reader evalCount rest (offset + 8) emSet

/-- `open`. -/
def openReader (reader : List Byte) (evalCount : Nat) : Except ParseError SectorFile :=
  match slice? reader 0 sectorHeaderSize with
  | none => .error (.invalidLength sectorHeaderSize 0)
  | some headerBytes => do
    let header ← SectorHeader.parse headerBytes
    match checkedMul evalCount header.evalStructSize with
    | none => .error (.invalidLength usizeMax usizeMax)
    | some evalSize =>
      match checkedAdd sectorHeaderSize evalSize with
      | none => .error (.invalidLength usizeMax usizeMax)
      | some emSetCountOffset =>
        match slice? reader emSetCountOffset 4 with
        | none => .error (.invalidHeader s!"read em_set count failed: {shortRead}")
        | some countBytes =>
          let emSetCount := i32FromLeBytes countBytes
          if emSetCount < 0 then
            .error (.invalidHeader s!"negative em_set length {emSetCount}")
          else do
            let emSet ← openEntries reader evalCount emSetCount.toNat (emSetCountOffset + 4)
              fun _ => none
            .ok ⟨header, evalCount, emSet, reader⟩

/-- `eval_at`: one slot, read where it lies. -/
def evalAt (file : SectorFile) (index : Nat) : Except ParseError RawEval :=
  if file.evalCount ≤ index then .error (.outOfBounds index file.evalCount)
  else
    match slice? file.reader (sectorHeaderSize + index * file.header.evalStructSize)
      file.header.evalStructSize with
    | none => .error (.invalidHeader s!"eval read failed: {shortRead}")
    | some chunk => file.header.unpack file.emSet index chunk

end SectorFile

end Sanmill.PerfectDb
