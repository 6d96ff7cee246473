import Sanmill.PerfectDb.SectorFile

/-!
# The two readers of a sector agree

A buffer that is decoded as a whole can also be opened, and every slot reads the same. The
whole-buffer reader checks the length first, so that it never leaves the buffer.
-/

namespace Sanmill

namespace PerfectDb

open LittleEndian

variable {bytes : List Byte} {evalCount : Nat}

theorem slice?_eq_some_iff {offset len : Nat} {chunk : List Byte} :
    slice? bytes offset len = some chunk
      ↔ offset + len ≤ bytes.length ∧ chunk = (bytes.drop offset).take len := by
  unfold slice?
  split
  · rename_i hle
    rw [Option.some_inj]
    exact ⟨fun h => ⟨hle, h.symm⟩, fun h => h.2.symm⟩
  · rename_i hle
    constructor
    · intro h
      cases h
    · intro h
      exact absurd h.1 hle

theorem readI32Le_eq_ok_iff {offset : Nat} {value : Int} :
    readI32Le bytes offset = .ok value
      ↔ offset + 4 ≤ usizeMax ∧ offset + 4 ≤ bytes.length
        ∧ value = i32FromLeBytes ((bytes.drop offset).take 4) := by
  unfold readI32Le checkedAdd
  by_cases hmax : offset + 4 ≤ usizeMax
  · rw [if_pos hmax]
    dsimp only
    by_cases hle : offset + 4 ≤ bytes.length
    · rw [slice?_eq_some_iff.2 ⟨hle, rfl⟩]
      constructor
      · intro h
        exact ⟨hmax, hle, (Except.ok.inj h).symm⟩
      · rintro ⟨-, -, rfl⟩
        rfl
    · have hnone : slice? bytes offset 4 = none := if_neg hle
      rw [hnone]
      constructor
      · intro h
        cases h
      · intro h
        exact absurd h.2.1 hle
  · rw [if_neg hmax]
    constructor
    · intro h
      cases h
    · intro h
      exact absurd h.1 hmax

/-! ## The header -/

theorem readI32Le_take {offset : Nat} (hlen : sectorHeaderSize ≤ bytes.length)
    (hoffset : offset + 4 ≤ sectorHeaderSize) :
    readI32Le (bytes.take sectorHeaderSize) offset = readI32Le bytes offset := by
  have hmax : offset + 4 ≤ usizeMax := Nat.le_trans hoffset (by decide)
  have hshort : (bytes.take sectorHeaderSize).length = sectorHeaderSize :=
    List.length_take_of_le hlen
  have hchunk : ((bytes.take sectorHeaderSize).drop offset).take 4
      = (bytes.drop offset).take 4 := by
    rw [List.drop_take, List.take_take, Nat.min_eq_left (by omega)]
  have hleft : readI32Le (bytes.take sectorHeaderSize) offset = .ok _ :=
    readI32Le_eq_ok_iff.2 ⟨hmax, hshort.symm ▸ hoffset, rfl⟩
  have hright : readI32Le bytes offset = .ok _ :=
    readI32Le_eq_ok_iff.2 ⟨hmax, Nat.le_trans hoffset hlen, rfl⟩
  rw [hleft, hright, hchunk]

/-- The header is in the first bytes. -/
theorem parse_take (hlen : sectorHeaderSize ≤ bytes.length) :
    SectorHeader.parse (bytes.take sectorHeaderSize) = SectorHeader.parse bytes := by
  have hshort : ¬ (bytes.take sectorHeaderSize).length < sectorHeaderSize := by
    rw [List.length_take]
    omega
  have hflag : (bytes.take sectorHeaderSize)[12]? = bytes[12]? :=
    List.getElem?_take_of_lt (by decide)
  unfold SectorHeader.parse
  rw [if_neg hshort, if_neg (Nat.not_lt.2 hlen), readI32Le_take hlen (by decide),
    readI32Le_take hlen (by decide), readI32Le_take hlen (by decide), hflag]

/-! ## The table -/

theorem openEntries_eq {rest offset : Nat} {emSet result : EmSet}
    (h : parseEmSetEntries bytes evalCount rest offset emSet = .ok result) :
    SectorFile.openEntries bytes evalCount rest offset emSet = .ok result := by
  induction rest generalizing offset emSet with
  | zero => exact h
  | succ rest ih =>
    unfold parseEmSetEntries at h
    obtain ⟨index, hindex, hafter⟩ := Except.bind_ok_iff.1 h
    obtain ⟨value, hvalue, hentries⟩ := Except.bind_ok_iff.1 hafter
    obtain ⟨added, hadded, hrest⟩ := Except.bind_ok_iff.1 hentries
    obtain ⟨-, -, hindex⟩ := readI32Le_eq_ok_iff.1 hindex
    obtain ⟨-, hlen, hvalue⟩ := readI32Le_eq_ok_iff.1 hvalue
    have hentry : slice? bytes offset 8 = some ((bytes.drop offset).take 8) :=
      slice?_eq_some_iff.2 ⟨by omega, rfl⟩
    have hlow : ((bytes.drop offset).take 8).take 4 = (bytes.drop offset).take 4 :=
      List.take_take.trans rfl
    have hhigh : ((bytes.drop offset).take 8).drop 4 = (bytes.drop (offset + 4)).take 4 := by
      rw [List.drop_take, List.drop_drop]
    unfold SectorFile.openEntries
    rw [hentry]
    dsimp only
    rw [hlow, hhigh, ← hindex, ← hvalue, hadded]
    exact ih hrest

/-- The table begins after the array and ends with the buffer. -/
theorem parseEmSet_eq_ok {evalSize : Nat} {emSet : EmSet}
    (h : parseEmSet bytes evalSize evalCount = .ok emSet) :
    checkedAdd sectorHeaderSize evalSize = some (sectorHeaderSize + evalSize)
      ∧ ∃ count : Int, slice? bytes (sectorHeaderSize + evalSize) 4
          = some ((bytes.drop (sectorHeaderSize + evalSize)).take 4)
        ∧ count = i32FromLeBytes ((bytes.drop (sectorHeaderSize + evalSize)).take 4)
        ∧ ¬ count < 0
        ∧ parseEmSetEntries bytes evalCount count.toNat (sectorHeaderSize + evalSize + 4)
          (fun _ => none) = .ok emSet := by
  unfold parseEmSet at h
  cases hadd : checkedAdd sectorHeaderSize evalSize with
  | none =>
    rw [hadd] at h
    cases h
  | some offset =>
    rw [hadd] at h
    dsimp only at h
    obtain rfl : sectorHeaderSize + evalSize = offset := by
      unfold checkedAdd at hadd
      split at hadd
      · exact Option.some.inj hadd
      · cases hadd
    obtain ⟨count, hcount, h⟩ := Except.bind_ok_iff.1 h
    obtain ⟨-, hlen, hvalue⟩ := readI32Le_eq_ok_iff.1 hcount
    refine ⟨rfl, count, slice?_eq_some_iff.2 ⟨hlen, rfl⟩, hvalue, ?_⟩
    split at h
    · cases h
    · rename_i hnonneg
      refine ⟨hnonneg, ?_⟩
      split at h
      · cases h
      · split at h
        · cases h
        · exact h

/-! ## Whole buffers -/

/-- What a decoded buffer is, slot by slot. -/
structure Decoded (bytes : List Byte) (evalCount : Nat) (evals : List RawEval) : Prop where
  length : evals.length = evalCount
  opened : ∃ file, SectorFile.openReader bytes evalCount = .ok file
    ∧ ∀ index raw, evals[index]? = some raw → file.evalAt index = .ok raw

/-- Every slot of a parsed buffer lies in it. -/
theorem slot_in_buffer {size index : Nat} (hindex : index < evalCount)
    (hlen : sectorHeaderSize + evalCount * size + 4 ≤ bytes.length) :
    sectorHeaderSize + index * size + size ≤ bytes.length := by
  have hmul := Nat.mul_le_mul_right size (Nat.succ_le_of_lt hindex)
  rw [Nat.succ_mul] at hmul
  omega

theorem parse_length {header : SectorHeader} (h : SectorHeader.parse bytes = .ok header) :
    sectorHeaderSize ≤ bytes.length := by
  unfold SectorHeader.parse at h
  split at h
  · cases h
  · rename_i hlen
    exact Nat.not_lt.1 hlen

theorem checkedMul_eq_some {a b product : Nat} (h : checkedMul a b = some product) :
    product = a * b := by
  unfold checkedMul at h
  split at h
  · exact (Option.some.inj h).symm
  · cases h

/-- A buffer with a sound header and table can be opened, and has all its slots. -/
theorem parseLayout_eq_ok {header : SectorHeader} {emSet : EmSet}
    (h : parseLayout bytes evalCount = .ok (header, emSet)) :
    SectorFile.openReader bytes evalCount = .ok ⟨header, evalCount, emSet, bytes⟩
      ∧ sectorHeaderSize + evalCount * header.evalStructSize + 4 ≤ bytes.length := by
  unfold parseLayout at h
  obtain ⟨header', hheader, hlayout⟩ := Except.bind_ok_iff.1 h
  have hlen := parse_length hheader
  cases hsize : checkedMul evalCount header'.evalStructSize with
  | none =>
    rw [hsize] at hlayout
    cases hlayout
  | some evalSize =>
    rw [hsize] at hlayout
    obtain ⟨emSet', hemSet, hpair⟩ := Except.bind_ok_iff.1 hlayout
    cases hpair
    obtain ⟨hadd, count, hslice, hcount, hnonneg, hentries⟩ := parseEmSet_eq_ok hemSet
    -- the reader takes the same parts one after the other, each a slice of the whole
    have hstart : slice? bytes 0 sectorHeaderSize = some (bytes.take sectorHeaderSize) :=
      slice?_eq_some_iff.2 ⟨by omega, rfl⟩
    constructor
    · unfold SectorFile.openReader
      rw [hstart]
      dsimp only
      rw [parse_take hlen, hheader]
      dsimp only [bind, Except.bind]
      rw [hsize]
      dsimp only
      rw [hadd]
      dsimp only
      rw [hslice]
      dsimp only
      rw [← hcount, if_neg hnonneg, openEntries_eq hentries]
    · rw [← checkedMul_eq_some hsize]
      exact (slice?_eq_some_iff.1 hslice).1

theorem decodeSlot_eq {header : SectorHeader} {emSet : EmSet} {index : Nat}
    (hindex : index < evalCount)
    (hlen : sectorHeaderSize + evalCount * header.evalStructSize + 4 ≤ bytes.length) :
    decodeSlot bytes header emSet index
      = (SectorFile.evalAt ⟨header, evalCount, emSet, bytes⟩ index).mapError .error := by
  have hslot := slice?_eq_some_iff.2 ⟨slot_in_buffer hindex hlen, rfl⟩
  unfold decodeSlot SectorFile.evalAt
  rw [if_neg (Nat.not_le.2 hindex), hslot]

/-- **The readers agree**, and the one for whole buffers does not panic. -/
theorem decodeAllFromBytes_cases (bytes : List Byte) (evalCount : Nat) :
    (∃ e, decodeAllFromBytes bytes evalCount = .error (.error e))
      ∨ ∃ evals, decodeAllFromBytes bytes evalCount = .ok evals
        ∧ Decoded bytes evalCount evals := by
  unfold decodeAllFromBytes
  cases hlayout : parseLayout bytes evalCount with
  | error e => exact .inl ⟨e, rfl⟩
  | ok layout =>
    obtain ⟨header, emSet⟩ := layout
    obtain ⟨hopen, hlen⟩ := parseLayout_eq_ok hlayout
    dsimp only
    -- a slot is decoded by what `evalAt` reads at its index
    cases hall : (List.range evalCount).mapM (decodeSlot bytes header emSet) with
    | error fault =>
      obtain ⟨index, hindex, hfail⟩ := Except.mapM_eq_error hall
      rw [decodeSlot_eq (List.mem_range.1 hindex) hlen] at hfail
      cases hread : SectorFile.evalAt ⟨header, evalCount, emSet, bytes⟩ index with
      | error e =>
        rw [hread] at hfail
        exact .inl ⟨e, congrArg _ (Except.error.inj hfail).symm⟩
      | ok raw =>
        rw [hread] at hfail
        cases hfail
    | ok evals =>
      have hslots := Except.mapM_eq_ok_iff.1 hall
      have hcount : evals.length = evalCount := by
        rw [← hslots.length_eq, List.length_range]
      refine .inr ⟨evals, rfl, hcount, _, hopen, fun index raw hraw => ?_⟩
      obtain ⟨hlt, heq⟩ := List.getElem?_eq_some_iff.1 hraw
      have hindex : index < evalCount := hcount ▸ hlt
      have hslot := hslots.get (i := index) (by rw [List.length_range]; exact hindex) hlt
      rw [List.get_eq_getElem, List.get_eq_getElem, List.getElem_range, heq,
        decodeSlot_eq hindex hlen] at hslot
      cases hread : SectorFile.evalAt ⟨header, evalCount, emSet, bytes⟩ index with
      | error e =>
        rw [hread] at hslot
        cases hslot
      | ok raw' =>
        rw [hread] at hslot
        rw [Except.ok.inj hslot]

/-- A sector of one slot of three bytes. -/
def oneSlot (slot : List Byte) : List Byte :=
  encode 4 2 ++ encode 4 3 ++ encode 4 12 ++ List.replicate 52 0 ++ slot ++ encode 4 0

end PerfectDb

end Sanmill
