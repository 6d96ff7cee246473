import Sanmill.Proof.PerfectDb.PlaneAgreement

/-!
# Planes that are read from files

A file that is read is the file of the plane that is made of it. Nothing looks at its two-bit
codes, or compares its count with that of the sector, so a plane from a file answers for the
sector only if the file is good in both.
-/

namespace Sanmill.PerfectDb

open LittleEndian

namespace WdlPlane

variable {plane : WdlPlane} {bytes : List Byte}

/-- The two bits of a slot. -/
def slotCode (plane : WdlPlane) (index : Nat) : Option Byte :=
  (plane.bits[index / 4]?).map fun byte : Byte => (byte >>> (index % 4 * 2)) &&& (3 : Byte)

theorem wdlOfCode_eq_none_iff (byte : Byte) :
    wdlOfCode (byte &&& 3) = none ↔ byte &&& 3 = 3 := by
  have hle : (byte &&& 3).toNat ≤ 3 := by
    rw [BitVec.toNat_and]
    exact Nat.and_le_right
  have hthree : byte &&& 3 = 3 ↔ (byte &&& 3).toNat = 3 := by
    constructor
    · intro h
      rw [h]
      rfl
    · intro h
      exact BitVec.eq_of_toNat_eq h
  rw [hthree]
  unfold wdlOfCode
  generalize (byte &&& 3).toNat = code at hle ⊢
  match code, hle with
  | 0, _ => decide
  | 1, _ => decide
  | 2, _ => decide
  | 3, _ => decide

/-- A slot of a plane is defined unless its code is the one that is never written. -/
theorem wdlAt_isSome_iff (h : plane.Shaped) {index : Nat} (hindex : index < plane.hashCount) :
    (plane.wdlAt index).isSome ↔ plane.slotCode index ≠ some 3 := by
  have hin : index / 4 < plane.bits.length := by
    rw [show plane.bits.length = packedLen plane.hashCount from h]
    unfold packedLen
    omega
  unfold wdlAt slotCode
  rw [if_pos hindex, List.getElem?_eq_getElem hin]
  show (wdlOfCode _).isSome ↔ some _ ≠ some _
  rw [Option.isSome_iff_ne_none, ne_eq, wdlOfCode_eq_none_iff, ne_eq, Option.some_inj]

/-- **A file that is read is the file of the plane.** -/
theorem toBytes_fromBytes? (h : fromBytes? bytes = some plane) :
    plane.toBytes = bytes ∧ plane.Shaped := by
  unfold fromBytes? at h
  split at h
  · cases h
  · rename_i hheader
    rw [not_or, Nat.not_lt, not_not] at hheader
    obtain ⟨hlong, hmagic⟩ := hheader
    split at h
    · cases h
    · rename_i hversion
      rw [not_not] at hversion
      dsimp only at h
      split at h
      · cases h
      · rename_i hlength
        rw [not_not] at hlength
        obtain rfl := Option.some.inj h
        unfold planeHeaderLen at hlong hlength
        -- the count fills its eight bytes, so writing it gives them back
        have hcount : encode 8 (decode ((bytes.drop 5).take 8)) = (bytes.drop 5).take 8 := by
          have height : ((bytes.drop 5).take 8).length = 8 := by
            rw [List.length_take, List.length_drop]
            omega
          have henc := encode_decode ((bytes.drop 5).take 8)
          rwa [height] at henc
        have hfour : bytes.drop 4 = planeVersion :: bytes.drop 5 := by
          obtain ⟨hlt, hget⟩ := List.getElem?_eq_some_iff.1 hversion
          rw [List.drop_eq_getElem_cons hlt, hget]
        constructor
        · unfold toBytes planeHeaderLen
          dsimp only
          rw [hcount, ← hmagic, show bytes.drop 13 = (bytes.drop 5).drop 8 by rw [List.drop_drop],
            List.take_append_drop, ← hfour, List.take_append_drop]
        · show (bytes.drop planeHeaderLen).length = packedLen (decode ((bytes.drop 5).take 8))
          rw [List.length_drop]
          unfold planeHeaderLen
          omega

end WdlPlane

variable {provider : DatabaseProvider} {variant : DatabaseVariant} {secVals : SecValTable}
  {id : SectorId} {plane : WdlPlane}

/-- What `SectorId::new` asserts of the stones on the board. -/
def SectorId.Fits (id : SectorId) : Prop := id.whiteOnBoard ≤ 12 ∧ id.blackOnBoard ≤ 12

/-- The count of the plane is that of the sector. -/
def WdlPlane.CountsSector (plane : WdlPlane) (id : SectorId) : Prop :=
  ∃ hasher, PerfectHasher.new id.whiteOnBoard id.blackOnBoard = some hasher
    ∧ plane.hashCount = hasher.hashCount

/-- A plane that every query of the sector can be answered from. -/
structure WdlPlane.FitsSector (plane : WdlPlane) (id : SectorId) : Prop where
  count : plane.CountsSector id
  defined : ∀ index < plane.hashCount, (plane.wdlAt index).isSome

/-- Every plane that the cache hands out fits its sector, and every query of the sector is
answered from it. -/
structure AnswersSafely (provider : DatabaseProvider) (variant : DatabaseVariant)
    (secVals : SecValTable) (capacity : Option Nat)
    (cacheDir : Option (SectorId → Option (List Byte))) : Prop where
  fits : ∀ calls id written plane cache', id.Fits →
    ((PlaneCache.opened provider variant secVals capacity cacheDir).after calls).planeFor id written
      = .ok (plane, cache') → plane.FitsSector id
  answered : ∀ calls query id board written hasher withHasher plane cache',
    query.onlyStoneTaking = false → query.sectorAndBoard = some (id, board) →
    ((PlaneCache.opened provider variant secVals capacity cacheDir).after calls).hasherFor id
      = some (hasher, withHasher) →
    withHasher.planeFor id written = .ok (plane, cache') →
    ∃ wdl, (((PlaneCache.opened provider variant secVals capacity cacheDir).after
      calls).wdlForQuery query written).1 = .ok (some wdl)

/-- A plane that is built fits its sector. -/
theorem IsPlane.fitsSector (h : IsPlane provider variant secVals id plane) :
    plane.FitsSector id := by
  obtain ⟨hasher, value, bytes, hdata, hbuild⟩ := h
  rcases WdlPlane.build_cases bytes hasher value secVals with
    ⟨e, -, herror⟩ | ⟨rawEvals, -, -, ⟨built, hbuilt, -, hcount, hslots⟩ | ⟨hpanic, -⟩⟩
  · rw [hbuild] at herror
    cases herror
  · rw [hbuild] at hbuilt
    obtain rfl := Except.ok.inj hbuilt
    refine ⟨⟨hasher, hdata.hasher, hcount⟩, fun index hindex => ?_⟩
    obtain ⟨raw, -, hwdl⟩ := hslots index (hcount ▸ hindex)
    rw [hwdl]
    rfl
  · rw [hbuild] at hpanic
    cases hpanic

/-- A query of the sector is answered from a plane that fits it. -/
theorem PlaneCache.wdlForQuery_fits {cache withHasher cache' : PlaneCache} {query : PerfectQuery}
    {board : Nat} {written : Option Nat} {hasher : PerfectHasher}
    (hsettled : query.onlyStoneTaking = false) (hsector : query.sectorAndBoard = some (id, board))
    (hhasher : cache.hasherFor id = some (hasher, withHasher))
    (hplane : withHasher.planeFor id written = .ok (plane, cache')) (hfits : plane.FitsSector id) :
    ∃ wdl, (cache.wdlForQuery query written).1 = .ok (some wdl) := by
  have hnew := PlaneCache.Sound.hasherFor_unique hhasher
  have hsize := PlaneCache.Sound.sector_fits hsector
  obtain ⟨hasher', hnew', hok⟩ :=
    new_eq_some (show id.whiteOnBoard + id.blackOnBoard ≤ 24 by omega)
  obtain rfl := Option.some.inj (hnew.symm.trans hnew')
  obtain ⟨hasher', hother, hcount⟩ := hfits.count
  obtain rfl := Option.some.inj (hnew.symm.trans hother)
  -- the folded board of a query is a board of its sector, so it has a slot below the count
  have hboard : BoardOf id.whiteOnBoard id.blackOnBoard board := by
    obtain ⟨-, rfl, rfl⟩ := (query.sectorAndBoard_eq_some_iff id board).1 hsector
    exact query.boardOf_foldedBoard
  obtain ⟨probe, hprobe⟩ := exists_probed hok hboard
  have hindex : probe.index < plane.hashCount := by
    rw [hcount]
    exact hprobe.index_lt hok
  obtain ⟨wdl, hwdl⟩ := Option.isSome_iff_exists.1 (hfits.defined probe.index hindex)
  refine ⟨wdl, ?_⟩
  unfold PlaneCache.wdlForQuery
  rw [hsettled, if_neg Bool.false_ne_true, hsector]
  dsimp only
  rw [hhasher]
  dsimp only
  rw [hprobe.result]
  dsimp only
  rw [hplane]
  dsimp only
  rw [hwdl]
  rfl

/-- A plane that can be read of the directory of a new cache is handed out. -/
theorem PlaneCache.planeFor_saved {capacity : Option Nat}
    {cacheDir : Option (SectorId → Option (List Byte))} (hcapacity : ∀ c ∈ capacity, 0 < c)
    (hsaved : (PlaneCache.opened provider variant secVals capacity cacheDir).savedPlane id
      = some plane) :
    ∃ cache', (PlaneCache.opened provider variant secVals capacity cacheDir).planeFor id none
      = .ok (plane, cache') := by
  have hload : (PlaneCache.opened provider variant secVals capacity cacheDir).loadOrBuildPlane id
      none
      = .ok (plane, PlaneCache.opened provider variant secVals capacity cacheDir) := by
    unfold PlaneCache.loadOrBuildPlane
    rw [hsaved]
  have hempty : (PlaneCache.opened provider variant secVals capacity cacheDir).planes.get? id
      = none := rfl
  obtain ⟨planes, hinsert, -, hget, -⟩ :=
    @LoadCache.insert_spec _ _ _ _ _ plane _ hcapacity LoadCache.ordered_empty hempty
  refine ⟨{ PlaneCache.opened provider variant secVals capacity cacheDir with planes }, ?_⟩
  unfold PlaneCache.planeFor
  rw [hempty]
  refine Except.bind_ok_iff.2 ⟨(plane, _), hload, ?_⟩
  refine Except.bind_ok_iff.2 ⟨planes, orPanic_eq_ok.2 hinsert, ?_⟩
  exact Except.bind_ok_iff.2 ⟨plane, orPanic_eq_ok.2 hget, rfl⟩

/-- **A file that is accepted is given back by `to_bytes`, and its slots are defined exactly when
none has the fourth code; planes are handed out and queries answered safely, whatever was called
before, exactly when every readable file of the directory has the count of its sector and no
fourth code.** -/
theorem plane_files_iff {capacity : Option Nat} (hcapacity : ∀ c ∈ capacity, 0 < c)
    (cacheDir : Option (SectorId → Option (List Byte))) :
    (∀ bytes plane, WdlPlane.fromBytes? bytes = some plane → plane.toBytes = bytes
        ∧ ((∀ index < plane.hashCount, (plane.wdlAt index).isSome)
          ↔ ∀ index < plane.hashCount, plane.slotCode index ≠ some 3))
      ∧ (AnswersSafely provider variant secVals capacity cacheDir
        ↔ ∀ id plane, id.Fits →
          (PlaneCache.opened provider variant secVals capacity cacheDir).savedPlane id
            = some plane →
          plane.CountsSector id ∧ ∀ index < plane.hashCount, plane.slotCode index ≠ some 3) := by
  have hfile : ∀ bytes plane, WdlPlane.fromBytes? bytes = some plane → plane.toBytes = bytes
      ∧ ((∀ index < plane.hashCount, (plane.wdlAt index).isSome)
        ↔ ∀ index < plane.hashCount, plane.slotCode index ≠ some 3) := by
    intro bytes plane hread
    obtain ⟨hbytes, hshaped⟩ := WdlPlane.toBytes_fromBytes? hread
    exact ⟨hbytes, forall₂_congr fun index hindex => WdlPlane.wdlAt_isSome_iff hshaped hindex⟩
  have hdefined : ∀ id plane,
      (PlaneCache.opened provider variant secVals capacity cacheDir).savedPlane id = some plane →
      ((∀ index < plane.hashCount, (plane.wdlAt index).isSome)
        ↔ ∀ index < plane.hashCount, plane.slotCode index ≠ some 3) := by
    intro id plane hsaved
    obtain ⟨files, -, hcontent⟩ := Option.bind_eq_some_iff.1 hsaved
    obtain ⟨bytes, -, hread⟩ := Option.bind_eq_some_iff.1 hcontent
    exact (hfile bytes plane hread).2
  refine ⟨hfile, ?_⟩
  constructor
  · intro hsafe id plane hid hsaved
    obtain ⟨cache', hplane⟩ := PlaneCache.planeFor_saved hcapacity hsaved
    have hfits := hsafe.fits [] id none plane cache' hid hplane
    exact ⟨hfits.count, (hdefined id plane hsaved).1 hfits.defined⟩
  · intro hfiles
    -- a plane that is built fits its sector anyway; the files are what has to be asked for
    have hgood : ∀ id plane, IsPlane provider variant secVals id plane →
        (id.Fits → plane.FitsSector id) := fun id plane hplane _ => hplane.fitsSector
    have hsound : ∀ calls, PlaneCache.Sound (fun id plane => id.Fits → plane.FitsSector id) provider
        variant secVals ((PlaneCache.opened provider variant secVals capacity cacheDir).after
          calls) := by
      intro calls
      have hinit : PlaneCache.Sound (fun id plane => id.Fits → plane.FitsSector id) provider
          variant secVals (PlaneCache.opened provider variant secVals capacity cacheDir) :=
        ⟨rfl, rfl, rfl, hcapacity, LoadCache.ordered_empty,
          fun id plane hentry => (List.not_mem_nil hentry).elim,
          fun id plane hsaved hid => ⟨(hfiles id plane hid hsaved).1,
            (hdefined id plane hsaved).2 (hfiles id plane hid hsaved).2⟩⟩
      exact hinit.run hgood calls
    -- any sequence of calls keeps the planes in the cache fitting
    constructor
    · intro calls id written plane cache' hid hplane
      exact ((hsound calls).planeFor hgood hid hplane).2 hid
    · intro calls query id board written hasher withHasher plane cache' hsettled hsector
        hhasher hplane
      have hid := PlaneCache.Sound.sector_fits hsector
      obtain ⟨hwith, -, -⟩ := (hsound calls).hasherFor hhasher
      exact PlaneCache.wdlForQuery_fits hsettled hsector hhasher hplane
        ((hwith.planeFor hgood hid hplane).2 hid)

/-! ## Files of one slot -/

/-- The file of a plane of one slot. -/
def oneSlotFile (code : Byte) : List Byte := WdlPlane.toBytes ⟨1, [code]⟩

/-- A directory with the plane of the first sector only. -/
def firstSectorDir (file : List Byte) : Option (SectorId → Option (List Byte)) :=
  some fun id => if id = ⟨0, 0, 9, 9⟩ then some file else none

theorem emptySector_count : ∃ hasher, PerfectHasher.new 0 0 = some hasher
    ∧ 1 = hasher.hashCount := by
  have hcount : (PerfectHasher.new 0 0).map (fun h => h.hashCount) = some 1 := by decide +kernel
  obtain ⟨hasher, hnew, hone⟩ := Option.map_eq_some_iff.1 hcount
  exact ⟨hasher, hnew, hone.symm⟩

/-- A saved win answers safely. -/
theorem plane_files_oneSlot : AnswersSafely ⟨fun _ => .ok []⟩ .standard firstValues (some 4)
    (firstSectorDir (oneSlotFile 2)) := by
  refine ((plane_files_iff ?_ (firstSectorDir (oneSlotFile 2))).2).2 ?_
  · intro c hc
    obtain rfl := Option.some.inj hc
    decide
  · intro id plane hid hsaved
    have hfound : ((if id = ⟨0, 0, 9, 9⟩ then some (oneSlotFile 2) else none).bind
        WdlPlane.fromBytes?) = some plane := hsaved
    obtain ⟨bytes, hbytes, hread⟩ := Option.bind_eq_some_iff.1 hfound
    split at hbytes
    · rename_i hfirst
      subst hfirst
      obtain rfl := Option.some.inj hbytes
      obtain rfl : (⟨1, [2]⟩ : WdlPlane) = plane := Option.some.inj
        ((show WdlPlane.fromBytes? (oneSlotFile 2) = some ⟨1, [2]⟩ by decide).symm.trans hread)
      refine ⟨emptySector_count, fun index hindex => ?_⟩
      rw [Nat.lt_one_iff.1 hindex]
      decide
    · cases hbytes

/-- A file whose slot has the fourth code is accepted, and the query of the sector panics; so does
it on a file of no slot. -/
theorem plane_files_panic :
    WdlPlane.fromBytes? (oneSlotFile 3) = some ⟨1, [3]⟩
    ∧ WdlPlane.wdlAt ⟨1, [3]⟩ 0 = none
    ∧ ((PlaneCache.opened ⟨fun _ => .ok []⟩ .standard firstValues none
        (firstSectorDir (oneSlotFile 3))).wdlForQuery emptyBoard none).1 = .error .panic
    ∧ ((PlaneCache.opened ⟨fun _ => .ok []⟩ .standard firstValues none
        (firstSectorDir (WdlPlane.toBytes ⟨0, []⟩))).wdlForQuery emptyBoard none).1
      = .error .panic := by
  refine ⟨by decide, by decide, by decide +kernel, by decide +kernel⟩

end Sanmill.PerfectDb
