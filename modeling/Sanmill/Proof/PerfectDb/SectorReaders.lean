import Sanmill.Proof.PerfectDb.SectorFile

/-!
# The three readers of a sector

`parse` accepts what ends with its table, `open` also what goes on behind it, and
`decode_all_from_bytes` only what has an entry for every slot that refers to the table. Where
two of them accept they give the same evaluations.
-/

namespace Sanmill

namespace PerfectDb

open LittleEndian

variable {bytes : List Byte} {evalCount : Nat} {file : SectorFile}

/-! ## Parsing -/

theorem parse_eq_ok_iff : SectorFile.parse bytes evalCount = .ok file
    ↔ ∃ header emSet, parseLayout bytes evalCount = .ok (header, emSet)
      ∧ file = ⟨header, evalCount, emSet, bytes⟩ := by
  unfold SectorFile.parse parseLayout
  constructor
  -- `parse` differs from the layout only in what it keeps at the end
  · intro h
    obtain ⟨header, hheader, hafter⟩ := Except.bind_ok_iff.1 h
    cases hsize : checkedMul evalCount header.evalStructSize with
    | none =>
      rw [hsize] at hafter
      cases hafter
    | some evalSize =>
      rw [hsize] at hafter
      obtain ⟨emSet, hemSet, hfile⟩ := Except.bind_ok_iff.1 hafter
      refine ⟨header, emSet, Except.bind_ok_iff.2 ⟨header, hheader, ?_⟩, (Except.ok.inj hfile).symm⟩
      rw [hsize]
      exact Except.bind_ok_iff.2 ⟨emSet, hemSet, rfl⟩
  · rintro ⟨header, emSet, h, rfl⟩
    obtain ⟨header', hheader, hafter⟩ := Except.bind_ok_iff.1 h
    cases hsize : checkedMul evalCount header'.evalStructSize with
    | none =>
      rw [hsize] at hafter
      cases hafter
    | some evalSize =>
      rw [hsize] at hafter
      obtain ⟨emSet', hemSet, hpair⟩ := Except.bind_ok_iff.1 hafter
      cases hpair
      refine Except.bind_ok_iff.2 ⟨header, hheader, ?_⟩
      rw [hsize]
      exact Except.bind_ok_iff.2 ⟨emSet, hemSet, rfl⟩

/-- What can be parsed can be opened, as the same file. -/
theorem openReader_of_parse (h : SectorFile.parse bytes evalCount = .ok file) :
    SectorFile.openReader bytes evalCount = .ok file := by
  obtain ⟨header, emSet, hlayout, rfl⟩ := parse_eq_ok_iff.1 h
  exact (parseLayout_eq_ok hlayout).1

/-! ## Opening -/

theorem slice?_append {offset len : Nat} {chunk more : List Byte}
    (h : slice? bytes offset len = some chunk) :
    slice? (bytes ++ more) offset len = some chunk := by
  obtain ⟨hle, rfl⟩ := slice?_eq_some_iff.1 h
  refine slice?_eq_some_iff.2 ⟨?_, ?_⟩
  · rw [List.length_append]
    omega
  · rw [List.drop_append_of_le_length (by omega), List.take_append_of_le_length]
    rw [List.length_drop]
    omega

/-- What is opened: the header, the table behind the array, and the bytes. -/
theorem openReader_eq_ok_iff : SectorFile.openReader bytes evalCount = .ok file
    ↔ ∃ headerBytes header evalSize tableOffset countBytes emSet,
      slice? bytes 0 sectorHeaderSize = some headerBytes
      ∧ SectorHeader.parse headerBytes = .ok header
      ∧ checkedMul evalCount header.evalStructSize = some evalSize
      ∧ checkedAdd sectorHeaderSize evalSize = some tableOffset
      ∧ slice? bytes tableOffset 4 = some countBytes
      ∧ ¬ i32FromLeBytes countBytes < 0
      ∧ SectorFile.openEntries bytes evalCount (i32FromLeBytes countBytes).toNat (tableOffset + 4)
        (fun _ => none) = .ok emSet
      ∧ file = ⟨header, evalCount, emSet, bytes⟩ := by
  unfold SectorFile.openReader
  constructor
  -- each read of the source in turn; the first that fails ends it
  · intro h
    cases hstart : slice? bytes 0 sectorHeaderSize with
    | none =>
      rw [hstart] at h
      cases h
    | some headerBytes =>
      rw [hstart] at h
      obtain ⟨header, hheader, h⟩ := Except.bind_ok_iff.1 h
      cases hsize : checkedMul evalCount header.evalStructSize with
      | none =>
        rw [hsize] at h
        cases h
      | some evalSize =>
        rw [hsize] at h
        dsimp only at h
        cases hoffset : checkedAdd sectorHeaderSize evalSize with
        | none =>
          rw [hoffset] at h
          cases h
        | some tableOffset =>
          rw [hoffset] at h
          dsimp only at h
          cases hcount : slice? bytes tableOffset 4 with
          | none =>
            rw [hcount] at h
            cases h
          | some countBytes =>
            rw [hcount] at h
            dsimp only at h
            split at h
            · cases h
            · rename_i hnonneg
              obtain ⟨emSet, hentries, hfile⟩ := Except.bind_ok_iff.1 h
              exact ⟨headerBytes, header, evalSize, tableOffset, countBytes, emSet, rfl, hheader,
                hsize, hoffset, hcount, hnonneg, hentries, (Except.ok.inj hfile).symm⟩
  · rintro ⟨headerBytes, header, evalSize, tableOffset, countBytes, emSet, hstart, hheader, hsize,
      hoffset, hcount, hnonneg, hentries, rfl⟩
    rw [hstart]
    refine Except.bind_ok_iff.2 ⟨header, hheader, ?_⟩
    rw [hsize]
    dsimp only
    rw [hoffset]
    dsimp only
    rw [hcount]
    dsimp only
    rw [if_neg hnonneg]
    exact Except.bind_ok_iff.2 ⟨emSet, hentries, rfl⟩

theorem openEntries_append {rest offset : Nat} {emSet result : EmSet} {more : List Byte}
    (h : SectorFile.openEntries bytes evalCount rest offset emSet = .ok result) :
    SectorFile.openEntries (bytes ++ more) evalCount rest offset emSet = .ok result := by
  induction rest generalizing offset emSet with
  | zero => exact h
  | succ rest ih =>
    unfold SectorFile.openEntries at h ⊢
    cases hentry : slice? bytes offset 8 with
    | none =>
      rw [hentry] at h
      cases h
    | some entry =>
      rw [hentry] at h
      rw [slice?_append hentry]
      obtain ⟨added, hadded, hrest⟩ := Except.bind_ok_iff.1 h
      exact Except.bind_ok_iff.2 ⟨added, hadded, ih hrest⟩

/-- Further bytes do not matter to `open`. -/
theorem openReader_append (h : SectorFile.openReader bytes evalCount = .ok file)
    (more : List Byte) :
    SectorFile.openReader (bytes ++ more) evalCount
      = .ok { file with reader := bytes ++ more } := by
  obtain ⟨headerBytes, header, evalSize, tableOffset, countBytes, emSet, hstart, hheader, hsize,
    hoffset, hcount, hnonneg, hentries, rfl⟩ := openReader_eq_ok_iff.1 h
  exact openReader_eq_ok_iff.2 ⟨headerBytes, header, evalSize, tableOffset, countBytes, emSet,
    slice?_append hstart, hheader, hsize, hoffset, slice?_append hcount, hnonneg,
    openEntries_append hentries, rfl⟩

/-- The entries that are read lie in the bytes, and are all that is needed. -/
theorem parseEmSetEntries_of_open {rest offset stop : Nat} {emSet result : EmSet}
    (hlen : bytes.length ≤ usizeMax)
    (h : SectorFile.openEntries bytes evalCount rest offset emSet = .ok result)
    (hoffset : offset ≤ bytes.length) (hstop : stop = offset + 8 * rest) :
    stop ≤ bytes.length
      ∧ parseEmSetEntries (bytes.take stop) evalCount rest offset emSet = .ok result := by
  induction rest generalizing offset emSet with
  | zero => exact ⟨by omega, h⟩
  | succ rest ih =>
    unfold SectorFile.openEntries at h
    cases hentry : slice? bytes offset 8 with
    | none =>
      rw [hentry] at h
      cases h
    | some entry =>
      rw [hentry] at h
      obtain ⟨hle, rfl⟩ := slice?_eq_some_iff.1 hentry
      obtain ⟨added, hadded, hrest⟩ := Except.bind_ok_iff.1 h
      -- the entries after this one reach to `stop`, so cutting there loses none of them
      obtain ⟨hin, htail⟩ := ih hrest (by omega) (by omega)
      refine ⟨hin, ?_⟩
      have hshort : (bytes.take stop).length = stop := List.length_take_of_le hin
      have hchunk : ∀ from4, offset ≤ from4 → from4 + 4 ≤ offset + 8 →
          readI32Le (bytes.take stop) from4 = .ok (i32FromLeBytes ((bytes.drop from4).take 4)) := by
        intro from4 hfrom hto
        refine readI32Le_eq_ok_iff.2 ⟨by omega, by omega, ?_⟩
        rw [List.drop_take, List.take_take, Nat.min_eq_left (by omega)]
      have hlow : ((bytes.drop offset).take 8).take 4 = (bytes.drop offset).take 4 :=
        List.take_take.trans rfl
      have hhigh : ((bytes.drop offset).take 8).drop 4 = (bytes.drop (offset + 4)).take 4 := by
        rw [List.drop_take, List.drop_drop]
      unfold parseEmSetEntries
      refine Except.bind_ok_iff.2 ⟨_, hchunk offset (by omega) (by omega), ?_⟩
      refine Except.bind_ok_iff.2 ⟨_, hchunk (offset + 4) (by omega) (by omega), ?_⟩
      rw [hlow, hhigh] at hadded
      exact Except.bind_ok_iff.2 ⟨added, hadded, htail⟩

theorem checkedAdd_eq_some {a b sum : Nat} (h : checkedAdd a b = some sum) :
    sum = a + b ∧ a + b ≤ usizeMax := by
  unfold checkedAdd at h
  split at h
  · rename_i hle
    exact ⟨(Option.some.inj h).symm, hle⟩
  · cases h

/-- What can be opened can be parsed, up to the end of its table. -/
theorem parse_of_openReader (hlen : bytes.length ≤ usizeMax)
    (h : SectorFile.openReader bytes evalCount = .ok file) :
    ∃ stop ≤ bytes.length, SectorFile.parse (bytes.take stop) evalCount
      = .ok { file with reader := bytes.take stop } := by
  obtain ⟨headerBytes, header, evalSize, tableOffset, countBytes, emSet, hstart, hheader, hsize,
    hoffset, hcount, hnonneg, hentries, rfl⟩ := openReader_eq_ok_iff.1 h
  obtain ⟨hheaderLen, rfl⟩ := slice?_eq_some_iff.1 hstart
  obtain ⟨hcountLen, rfl⟩ := slice?_eq_some_iff.1 hcount
  obtain ⟨rfl, hmax⟩ := checkedAdd_eq_some hoffset
  rw [Nat.zero_add] at hheaderLen
  obtain ⟨hstop, hparse⟩ := parseEmSetEntries_of_open hlen hentries hcountLen rfl
  -- the file is cut where its last entry ends, which is the length that `parse` expects
  generalize hk : sectorHeaderSize + evalSize + 4
    + 8 * (i32FromLeBytes ((bytes.drop (sectorHeaderSize + evalSize)).take 4)).toNat = stop
    at hstop hparse
  have hshort : (bytes.take stop).length = stop := List.length_take_of_le hstop
  refine ⟨stop, hstop, parse_eq_ok_iff.2 ⟨header, emSet, ?_, rfl⟩⟩
  have hheader' : SectorHeader.parse (bytes.take stop) = .ok header := by
    have hlong : sectorHeaderSize ≤ (bytes.take stop).length := by omega
    rw [← parse_take hlong, List.take_take, Nat.min_eq_left (by omega)]
    exact hheader
  have hread : readI32Le (bytes.take stop) (sectorHeaderSize + evalSize)
      = .ok (i32FromLeBytes ((bytes.drop (sectorHeaderSize + evalSize)).take 4)) := by
    refine readI32Le_eq_ok_iff.2 ⟨by omega, by omega, ?_⟩
    rw [List.drop_take, List.take_take, Nat.min_eq_left (by omega)]
  refine Except.bind_ok_iff.2 ⟨header, hheader', ?_⟩
  rw [hsize]
  refine Except.bind_ok_iff.2 ⟨emSet, ?_, rfl⟩
  unfold parseEmSet
  rw [hoffset]
  refine Except.bind_ok_iff.2 ⟨_, hread, ?_⟩
  rw [if_neg hnonneg]
  have hexpected : (do
      let base ← checkedAdd (sectorHeaderSize + evalSize) 4
      let entries ← checkedMul
        (i32FromLeBytes ((bytes.drop (sectorHeaderSize + evalSize)).take 4)).toNat 8
      checkedAdd base entries) = some stop := by
    have hbase : checkedAdd (sectorHeaderSize + evalSize) 4
        = some (sectorHeaderSize + evalSize + 4) :=
      if_pos (by omega)
    have htimes : checkedMul
        (i32FromLeBytes ((bytes.drop (sectorHeaderSize + evalSize)).take 4)).toNat 8
        = some ((i32FromLeBytes ((bytes.drop (sectorHeaderSize + evalSize)).take 4)).toNat * 8) :=
      if_pos (by omega)
    rw [hbase, htimes]
    show checkedAdd _ _ = _
    rw [show checkedAdd _ _ = some _ from if_pos (by omega)]
    congr 1
    omega
  dsimp only
  rw [hexpected]
  dsimp only
  rw [hshort, if_neg (not_not.2 rfl)]
  exact hparse

/-- Slots read the same from any reader that has them. -/
theorem evalAt_take {stop : Nat} (hparse : SectorFile.parse (bytes.take stop) evalCount
      = .ok { file with reader := bytes.take stop }) (hreader : file.reader = bytes)
    (index : Nat) :
    file.evalAt index = SectorFile.evalAt { file with reader := bytes.take stop } index := by
  obtain ⟨header, emSet, hlayout, hfile⟩ := parse_eq_ok_iff.1 hparse
  obtain ⟨-, hlong⟩ := parseLayout_eq_ok hlayout
  have hcount : file.evalCount = evalCount := congrArg SectorFile.evalCount hfile
  have hheader : file.header = header := congrArg SectorFile.header hfile
  unfold SectorFile.evalAt
  dsimp only
  split
  · rfl
  · rename_i hindex
    have hin := slot_in_buffer (Nat.not_le.1 (hcount ▸ hindex)) hlong
    have hslot : slice? (bytes.take stop) (sectorHeaderSize + index * header.evalStructSize)
        header.evalStructSize = some _ := slice?_eq_some_iff.2 ⟨hin, rfl⟩
    have hslot' := @slice?_append _ _ _ _ (bytes.drop stop) hslot
    rw [List.take_append_drop] at hslot'
    rw [hheader, hreader, hslot, hslot']

/-! ## The readers together -/

/-- The widths that `sign_extend` asserts, and no offset beyond the addresses. -/
theorem widths_in_range (header : SectorHeader) : (1 ≤ header.field1Bits ∧ header.field1Bits < 32)
    ∧ 1 ≤ header.field2Bits ∧ header.field2Bits < 32 := by
  have h1 := header.evalStructSize_le
  have h2 := header.field2Offset_pos
  have h3 := header.field2Offset_lt
  unfold SectorHeader.field2Bits SectorHeader.field1Bits
  omega

/-- **No reader panics. `open` accepts what `parse` accepts with any bytes behind it, and
`decode_all_from_bytes` what `parse` accepts with an evaluation at every index; the evaluations
are the same.** -/
theorem sector_readers (bytes : List Byte) (evalCount : Nat) (hlen : bytes.length ≤ usizeMax) :
    decodeAllFromBytes bytes evalCount ≠ .error .panic
      ∧ (∀ file, SectorFile.openReader bytes evalCount = .ok file →
        ((1 ≤ file.header.field1Bits ∧ file.header.field1Bits < 32)
          ∧ 1 ≤ file.header.field2Bits ∧ file.header.field2Bits < 32)
        ∧ ∀ index < file.evalCount,
          sectorHeaderSize + index * file.header.evalStructSize ≤ usizeMax)
      ∧ (∀ file, SectorFile.parse bytes evalCount = .ok file →
        SectorFile.openReader bytes evalCount = .ok file)
      ∧ (∀ file, SectorFile.openReader bytes evalCount = .ok file ↔
        ∃ stop parsed, stop ≤ bytes.length
          ∧ SectorFile.parse (bytes.take stop) evalCount = .ok parsed
          ∧ file = { parsed with reader := bytes }
          ∧ ∀ index, file.evalAt index = parsed.evalAt index)
      ∧ ∀ evals, decodeAllFromBytes bytes evalCount = .ok evals ↔
        ∃ file, SectorFile.parse bytes evalCount = .ok file ∧ evals.length = evalCount
          ∧ ∀ index raw, evals[index]? = some raw → file.evalAt index = .ok raw := by
  -- no panic, widths and offsets in range, `parse` against the reader, and the decoder
  refine ⟨?_, ?_, fun file hparse => openReader_of_parse hparse, ?_, ?_⟩
  · intro hpanic
    rcases decodeAllFromBytes_cases bytes evalCount with ⟨e, herror⟩ | ⟨evals, hok, -⟩
    · rw [hpanic] at herror
      cases herror
    · rw [hpanic] at hok
      cases hok
  · intro file hopen
    refine ⟨widths_in_range file.header, fun index hindex => ?_⟩
    obtain ⟨headerBytes, header, evalSize, tableOffset, countBytes, emSet, -, -, hsize, hoffset, -,
      -, -, rfl⟩ := openReader_eq_ok_iff.1 hopen
    obtain ⟨-, hmax⟩ := checkedAdd_eq_some hoffset
    have hmul := Nat.mul_le_mul_right header.evalStructSize (Nat.le_of_lt hindex)
    rw [checkedMul_eq_some hsize] at hmax
    exact Nat.le_trans (Nat.add_le_add_left hmul _) hmax
  · intro file
    constructor
    · intro hopen
      obtain ⟨stop, hstop, hparse⟩ := parse_of_openReader hlen hopen
      have hreader : file.reader = bytes := by
        obtain ⟨_, _, _, _, _, _, -, -, -, -, -, -, -, rfl⟩ := openReader_eq_ok_iff.1 hopen
        rfl
      -- bytes behind the last entry do not change what is read
      refine ⟨stop, _, hstop, hparse, ?_, evalAt_take hparse hreader⟩
      rw [← hreader]
    · rintro ⟨stop, parsed, -, hparse, rfl, -⟩
      have hopen := openReader_append (openReader_of_parse hparse) (bytes.drop stop)
      rwa [List.take_append_drop] at hopen
  · intro evals
    constructor
    · intro hdecode
      unfold decodeAllFromBytes at hdecode
      cases hlayout : parseLayout bytes evalCount with
      | error e =>
        rw [hlayout] at hdecode
        cases hdecode
      | ok layout =>
        obtain ⟨header, emSet⟩ := layout
        rw [hlayout] at hdecode
        have hparse : SectorFile.parse bytes evalCount = .ok ⟨header, evalCount, emSet, bytes⟩ :=
          parse_eq_ok_iff.2 ⟨header, emSet, hlayout, rfl⟩
        refine ⟨_, hparse, ?_⟩
        rcases decodeAllFromBytes_cases bytes evalCount with ⟨e, herror⟩ | ⟨evals', hok, hdecoded⟩
        · unfold decodeAllFromBytes at herror
          rw [hlayout] at herror
          rw [hdecode] at herror
          cases herror
        · unfold decodeAllFromBytes at hok
          rw [hlayout] at hok
          obtain rfl := Except.ok.inj (hdecode.symm.trans hok)
          obtain ⟨file, hopen, hread⟩ := hdecoded.opened
          obtain rfl := Except.ok.inj ((openReader_of_parse hparse).symm.trans hopen)
          exact ⟨hdecoded.length, hread⟩
    · rintro ⟨file, hparse, hcount, hread⟩
      obtain ⟨header, emSet, hlayout, rfl⟩ := parse_eq_ok_iff.1 hparse
      obtain ⟨-, hlong⟩ := parseLayout_eq_ok hlayout
      unfold decodeAllFromBytes
      rw [hlayout]
      dsimp only
      refine Except.mapM_eq_ok_iff.2 (List.forall₂_iff_get.2 ⟨?_, fun index hindex heval => ?_⟩)
      · rw [List.length_range, hcount]
      · rw [List.length_range] at hindex
        rw [List.get_eq_getElem, List.get_eq_getElem, List.getElem_range,
          decodeSlot_eq hindex hlong, hread index _ (List.getElem?_eq_getElem heval)]
        rfl

/-- A sector of one win has the same evaluation in all three. -/
theorem sector_readers_oneSlot :
    ∃ file, SectorFile.parse (oneSlot [0x16, 0x11, 0x00]) 1 = .ok file
      ∧ SectorFile.openReader (oneSlot [0x16, 0x11, 0x00]) 1 = .ok file
      ∧ file.evalAt 0 = .ok ⟨278, 1⟩ := by
  obtain ⟨-, -, hopen, -, hdecode⟩ := sector_readers (oneSlot [0x16, 0x11, 0x00]) 1 (by decide)
  obtain ⟨file, hparse, -, hread⟩ := (hdecode [⟨278, 1⟩]).1 (by decide)
  exact ⟨file, hparse, hopen file hparse, hread 0 _ rfl⟩

/-- A byte behind the table is seen by all readers but `open`, and a slot that refers to a missing
entry only by the one that decodes every slot. -/
theorem sector_readers_differ :
    (SectorFile.openReader (oneSlot [0x16, 0x11, 0x00] ++ [0]) 1).toOption.isSome
      ∧ (SectorFile.parse (oneSlot [0x16, 0x11, 0x00] ++ [0]) 1).toOption.isSome = false
      ∧ (SectorFile.parse (oneSlot [0x00, 0x00, 0x80]) 1).toOption.isSome
      ∧ decodeAllFromBytes (oneSlot [0x00, 0x00, 0x80]) 1
        = .error (.error (.missingEmSetEntry 0)) := by
  refine ⟨by decide, by decide, by decide, by decide⟩

end PerfectDb

end Sanmill
