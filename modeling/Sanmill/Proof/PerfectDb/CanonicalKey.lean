import Sanmill.PerfectDb.CanonicalKey
import Sanmill.Proof.PerfectDb.OrbitCount

/-!
# A key names a position

Packing loses nothing, so a canonical key gives back the sector and the slot, and the
slot the orbit of the folded board. Two settled queries have one key exactly when one
is a board symmetry of the other, or of the other with its colours swapped.
-/

namespace Sanmill.PerfectDb

open Orbit

/-! ## Packing -/

theorem SectorId.new_eq_some_iff (w b wh bh : Nat) (id : SectorId) :
    SectorId.new w b wh bh = some id ↔
      (w ≤ 12 ∧ b ≤ 12 ∧ wh ≤ 12 ∧ bh ≤ 12) ∧ id = ⟨w, b, wh, bh⟩ := by
  by_cases h : w ≤ 12 ∧ b ≤ 12 ∧ wh ≤ 12 ∧ bh ≤ 12
  · simp [SectorId.new, guard, h, eq_comm]
  · simp only [SectorId.new, guard, h, false_and, iff_false]
    exact fun hfail => by cases hfail

/-- The fields of a key do not overlap. -/
theorem packCanonicalKey_eq_some {id : SectorId} {slot : Nat} (hslot : slot < 2 ^ 32)
    (hbh : id.blackInHand < 256) (hwh : id.whiteInHand < 256) (hb : id.blackOnBoard < 256) :
    packCanonicalKey id slot = some (2 ^ 56 * id.whiteOnBoard + (2 ^ 48 * id.blackOnBoard +
      (2 ^ 40 * id.whiteInHand + (2 ^ 32 * id.blackInHand + slot)))) := by
  have hguard : slot < 1 <<< slotBits := hslot
  have h1 : 2 ^ 32 * id.blackInHand + slot < 2 ^ 40 := by omega
  have h2 : 2 ^ 40 * id.whiteInHand + (2 ^ 32 * id.blackInHand + slot) < 2 ^ 48 := by omega
  have h3 : 2 ^ 48 * id.blackOnBoard + (2 ^ 40 * id.whiteInHand +
      (2 ^ 32 * id.blackInHand + slot)) < 2 ^ 56 := by omega
  rw [Nat.two_pow_add_eq_or_of_lt h3, Nat.two_pow_add_eq_or_of_lt h2,
    Nat.two_pow_add_eq_or_of_lt h1, Nat.two_pow_add_eq_or_of_lt hslot]
  have hpack : packCanonicalKey id slot
      = some ((id.whiteOnBoard <<< 56) ||| (id.blackOnBoard <<< 48) |||
      (id.whiteInHand <<< 40) ||| (id.blackInHand <<< 32) ||| slot) := by
    simp only [packCanonicalKey, guard, if_pos hguard]
    rfl
  rw [hpack]
  simp only [Nat.shiftLeft_eq, Nat.or_assoc, Nat.mul_comm _ (2 ^ _)]

theorem packCanonicalKey_inj {id id' : SectorId} {slot slot' : Nat} {key key' : Nat}
    (hid : id.blackInHand < 256 ∧ id.whiteInHand < 256 ∧ id.blackOnBoard < 256)
    (hid' : id'.blackInHand < 256 ∧ id'.whiteInHand < 256 ∧ id'.blackOnBoard < 256)
    (hslot : slot < 2 ^ 32) (hslot' : slot' < 2 ^ 32) (hkey : packCanonicalKey id slot = some key)
    (hkey' : packCanonicalKey id' slot' = some key') :
    key = key' ↔ id = id' ∧ slot = slot' := by
  rw [packCanonicalKey_eq_some hslot hid.1 hid.2.1 hid.2.2, Option.some_inj] at hkey
  rw [packCanonicalKey_eq_some hslot' hid'.1 hid'.2.1 hid'.2.2, Option.some_inj] at hkey'
  constructor
  · intro heq
    obtain ⟨w, b, wh, bh⟩ := id
    obtain ⟨w', b', wh', bh'⟩ := id'
    simp only at hkey hkey' hid hid'
    rw [SectorId.mk.injEq]
    omega
  · rintro ⟨rfl, rfl⟩
    rw [← hkey, ← hkey']

/-- A key of 64 bits is its sector and its slot. -/
theorem unpackCanonicalKey_inj {key key' : Nat} {unpacked : SectorId × Nat} (hlt : key < 2 ^ 64)
    (hlt' : key' < 2 ^ 64) (h : unpackCanonicalKey key = some unpacked)
    (h' : unpackCanonicalKey key' = some unpacked) : key = key' := by
  have hfields : ∀ {k : Nat}, unpackCanonicalKey k = some unpacked →
      k / 2 ^ 56 % 256 = unpacked.1.whiteOnBoard ∧ k / 2 ^ 48 % 256 = unpacked.1.blackOnBoard
      ∧ k / 2 ^ 40 % 256 = unpacked.1.whiteInHand ∧ k / 2 ^ 32 % 256 = unpacked.1.blackInHand
      ∧ k % 2 ^ 32 = unpacked.2 := by
    intro k hk
    unfold unpackCanonicalKey at hk
    obtain ⟨id, hid, hpair⟩ := Option.bind_eq_some_iff.1 hk
    have hfield : ∀ shift, (k >>> shift) &&& (1 <<< fieldBits) - 1 = k / 2 ^ shift % 256 := by
      intro shift
      rw [← Nat.shiftRight_eq_div_pow]
      exact Nat.and_two_pow_sub_one_eq_mod _ 8
    have hlow : k &&& (1 <<< slotBits) - 1 = k % 2 ^ 32 := Nat.and_two_pow_sub_one_eq_mod _ 32
    rw [SectorId.new_eq_some_iff] at hid
    rw [← Option.some.inj hpair, hid.2]
    exact ⟨(hfield 56).symm, (hfield 48).symm, (hfield 40).symm, (hfield 32).symm, hlow.symm⟩
  obtain ⟨hw, hb, hwh, hbh, hs⟩ := hfields h
  obtain ⟨hw', hb', hwh', hbh', hs'⟩ := hfields h'
  omega

/-! ## The fold -/

namespace PerfectQuery

/-- The stones of the side to move. -/
def moverBits (query : PerfectQuery) : Nat :=
  if query.sideToMove = 0 then query.whiteBits else query.blackBits

def otherBits (query : PerfectQuery) : Nat :=
  if query.sideToMove = 0 then query.blackBits else query.whiteBits

def moverInHand (query : PerfectQuery) : Nat :=
  if query.sideToMove = 0 then query.whiteInHand else query.blackInHand

def otherInHand (query : PerfectQuery) : Nat :=
  if query.sideToMove = 0 then query.blackInHand else query.whiteInHand

/-- The sector a query folds onto. -/
def sector (query : PerfectQuery) : SectorId where
  whiteOnBoard := countOnes query.moverBits
  blackOnBoard := countOnes query.otherBits
  whiteInHand := query.moverInHand
  blackInHand := query.otherInHand

def foldedBoard (query : PerfectQuery) : Nat := query.moverBits ||| (query.otherBits <<< 24)

/-- The image of a position under a board symmetry. -/
def transform (op : SymmetryOp) (query : PerfectQuery) : PerfectQuery :=
  { query with
    whiteBits := transform24 op query.whiteBits
    blackBits := transform24 op query.blackBits
    whiteBits_lt := transform24_lt op query.whiteBits
    blackBits_lt := transform24_lt op query.blackBits
    disjoint := transform24_disjoint op query.disjoint }

/-- The same position with the colours exchanged, the side to move with them. -/
def swapColors (query : PerfectQuery) : PerfectQuery where
  whiteBits := query.blackBits
  blackBits := query.whiteBits
  whiteInHand := query.blackInHand
  blackInHand := query.whiteInHand
  sideToMove := 1 - query.sideToMove
  onlyStoneTaking := query.onlyStoneTaking
  whiteBits_lt := query.blackBits_lt
  blackBits_lt := query.whiteBits_lt
  disjoint := by
    rw [Nat.and_comm]
    exact query.disjoint
  sideToMove_le := Nat.sub_le 1 _
  whiteInHand_le := query.blackInHand_le
  blackInHand_le := query.whiteInHand_le

/-- Equal up to board symmetry and the colour fold. -/
def SamePosition (a b : PerfectQuery) : Prop :=
  ∃ op, b = a.transform op ∨ b = (a.transform op).swapColors

theorem side_cases (query : PerfectQuery) : query.sideToMove = 0 ∨ query.sideToMove = 1 := by
  have h := query.sideToMove_le
  omega

theorem moverBits_lt (query : PerfectQuery) : query.moverBits < 2 ^ 24 := by
  rw [moverBits]
  split
  · exact query.whiteBits_lt
  · exact query.blackBits_lt

theorem otherBits_lt (query : PerfectQuery) : query.otherBits < 2 ^ 24 := by
  rw [otherBits]
  split
  · exact query.blackBits_lt
  · exact query.whiteBits_lt

theorem mover_disjoint (query : PerfectQuery) : query.moverBits &&& query.otherBits = 0 := by
  rw [moverBits, otherBits]
  split
  · exact query.disjoint
  · rw [Nat.and_comm]
    exact query.disjoint

theorem sectorAndBoard_eq_some_iff (query : PerfectQuery) (id : SectorId) (board : Nat) :
    query.sectorAndBoard = some (id, board) ↔
      (countOnes query.whiteBits ≤ 12 ∧ countOnes query.blackBits ≤ 12) ∧
        id = query.sector ∧ board = query.foldedBoard := by
  have hwhite := query.whiteInHand_le
  have hblack := query.blackInHand_le
  rcases query.side_cases with hside | hside
  · simp only [sectorAndBoard, hside, sector, foldedBoard, moverBits, otherBits, moverInHand,
      otherInHand, if_true, Option.bind_eq_bind, Option.bind_eq_some_iff, SectorId.new_eq_some_iff,
      Option.some_inj, Prod.mk.injEq]
    constructor
    · rintro ⟨id', ⟨hle, rfl⟩, rfl, rfl⟩
      exact ⟨⟨hle.1, hle.2.1⟩, rfl, rfl⟩
    · rintro ⟨hle, rfl, rfl⟩
      exact ⟨_, ⟨⟨hle.1, hle.2, hwhite, hblack⟩, rfl⟩, rfl, rfl⟩
  · simp only [sectorAndBoard, hside, sector, foldedBoard, moverBits, otherBits, moverInHand,
      otherInHand, if_neg Nat.one_ne_zero, Option.bind_eq_bind, Option.bind_eq_some_iff,
      SectorId.new_eq_some_iff, Option.some_inj, Prod.mk.injEq]
    constructor
    · rintro ⟨id', ⟨hle, rfl⟩, rfl, rfl⟩
      exact ⟨⟨hle.2.1, hle.1⟩, rfl, rfl⟩
    · rintro ⟨hle, rfl, rfl⟩
      exact ⟨_, ⟨⟨hle.2, hle.1, hblack, hwhite⟩, rfl⟩, rfl, rfl⟩

theorem boardOf_foldedBoard (query : PerfectQuery) :
    BoardOf query.sector.whiteOnBoard query.sector.blackOnBoard query.foldedBoard where
  lt := or_shift_lt query.moverBits_lt query.otherBits_lt
  white := by
    rw [foldedBoard, whiteHalf_or_shift query.moverBits_lt]
    rfl
  black := by
    rw [foldedBoard, blackHalf_or_shift query.moverBits_lt query.otherBits_lt]
    rfl
  disjoint := by
    rw [foldedBoard, whiteHalf_or_shift query.moverBits_lt,
      blackHalf_or_shift query.moverBits_lt query.otherBits_lt]
    exact query.mover_disjoint

/-- An image of the folded board is the image of both halves. -/
theorem transform48_foldedBoard_eq_iff (op : SymmetryOp) (a b : PerfectQuery) :
    transform48 op a.foldedBoard = b.foldedBoard ↔
      transform24 op a.moverBits = b.moverBits ∧ transform24 op a.otherBits = b.otherBits := by
  have hwhite : ∀ q : PerfectQuery, whiteHalf q.foldedBoard = q.moverBits := fun q =>
    whiteHalf_or_shift q.moverBits_lt _
  have hblack : ∀ q : PerfectQuery, blackHalf q.foldedBoard = q.otherBits := fun q =>
    blackHalf_or_shift q.moverBits_lt q.otherBits_lt
  constructor
  · intro h
    rw [← hwhite b, ← hblack b, ← h, whiteHalf_transform48, blackHalf_transform48, hwhite, hblack]
    exact ⟨rfl, rfl⟩
  · rintro ⟨hmover, hother⟩
    refine board_ext (transform48_lt op _) b.boardOf_foldedBoard.lt ?_ ?_
    · rw [whiteHalf_transform48, hwhite, hwhite, hmover]
    · rw [blackHalf_transform48, hblack, hblack, hother]

/-- The fold and a symmetry make two queries equal exactly when their folded data agree. -/
theorem samePosition_iff {a b : PerfectQuery} (ha : a.onlyStoneTaking = b.onlyStoneTaking) :
    SamePosition a b ↔ a.sector = b.sector ∧ SameOrbit transform48 a.foldedBoard b.foldedBoard := by
  constructor
  · rintro ⟨op, rfl | rfl⟩
    · -- the symmetry alone: the sides agree
      have hfold : (a.transform op).moverBits = transform24 op a.moverBits ∧
          (a.transform op).otherBits = transform24 op a.otherBits := by
        rcases a.side_cases with h | h <;> simp [moverBits, otherBits, transform, h]
      refine ⟨?_, op, (transform48_foldedBoard_eq_iff op _ _).2 ⟨hfold.1.symm, hfold.2.symm⟩⟩
      rw [sector, sector, hfold.1, hfold.2, countOnes_transform24 op a.moverBits_lt,
        countOnes_transform24 op a.otherBits_lt]
      rfl
    · have hfold : (a.transform op).swapColors.moverBits = transform24 op a.moverBits ∧
          (a.transform op).swapColors.otherBits = transform24 op a.otherBits ∧
          (a.transform op).swapColors.moverInHand = a.moverInHand ∧
          (a.transform op).swapColors.otherInHand = a.otherInHand := by
        rcases a.side_cases with h | h <;>
          simp [moverBits, otherBits, moverInHand, otherInHand, transform, swapColors, h]
      refine ⟨?_, op, (transform48_foldedBoard_eq_iff op _ _).2 ⟨hfold.1.symm, hfold.2.1.symm⟩⟩
      rw [sector, sector, hfold.1, hfold.2.1, hfold.2.2.1, hfold.2.2.2,
        countOnes_transform24 op a.moverBits_lt, countOnes_transform24 op a.otherBits_lt]
  · rintro ⟨hsector, op, hop⟩
    obtain ⟨hmover, hother⟩ := (transform48_foldedBoard_eq_iff op a b).1 hop
    have hhand : a.moverInHand = b.moverInHand ∧ a.otherInHand = b.otherInHand :=
      ⟨congrArg SectorId.whiteInHand hsector, congrArg SectorId.blackInHand hsector⟩
    refine ⟨op, ?_⟩
    obtain ⟨w, k, wh, bh, side, taking, _, _, _, hside, _, _⟩ := a
    obtain ⟨w', k', wh', bh', side', taking', _, _, _, hside', _, _⟩ := b
    simp only [moverBits, otherBits, moverInHand, otherInHand] at hmover hother hhand ha
    have hcases : ∀ n, n ≤ 1 → n = 0 ∨ n = 1 := fun n hn => by omega
    rcases hcases side hside with rfl | rfl <;> rcases hcases side' hside' with rfl | rfl
    · left
      simp_all [transform]
    · right
      simp_all [transform, swapColors]
    · right
      simp_all [transform, swapColors]
    · left
      simp_all [transform]

end PerfectQuery

/-! ## The key of a query -/

/-- The hasher a cache hands out is the one the constructor builds. -/
theorem WdlPlaneCache.hasherFor_eq_some (cache : WdlPlaneCache) {id : SectorId}
    {hasher : PerfectHasher} (hnew : PerfectHasher.new id.whiteOnBoard id.blackOnBoard
      = some hasher) :
    ∃ cache', cache.hasherFor id = some (hasher, cache') := by
  rw [WdlPlaneCache.hasherFor]
  split
  · next hasher' hcached =>
    have hbuilt := cache.built id hasher' hcached
    rw [hnew, Option.some_inj] at hbuilt
    exact ⟨cache, by rw [hbuilt]⟩
  · split
    · next hnone =>
      rw [hnew] at hnone
      cases hnone
    · next hasher' hsome =>
      rw [hnew, Option.some_inj] at hsome
      subst hsome
      exact ⟨_, rfl⟩

/-- A key, and the sector and slot it was packed from. -/
structure Keyed (query : PerfectQuery) (key : Nat) : Prop where
  fits : countOnes query.whiteBits ≤ 12 ∧ countOnes query.blackBits ≤ 12
  parts : ∃ hasher probe, PerfectHasher.new query.sector.whiteOnBoard query.sector.blackOnBoard =
      some hasher ∧ Probed hasher query.foldedBoard probe ∧ probe.index < 2 ^ 32 ∧
      packCanonicalKey query.sector probe.index = some key

theorem sector_le {query : PerfectQuery}
    (h : countOnes query.whiteBits ≤ 12 ∧ countOnes query.blackBits ≤ 12) :
    query.sector.whiteOnBoard ≤ 12 ∧ query.sector.blackOnBoard ≤ 12 ∧
      query.sector.whiteInHand ≤ 12 ∧ query.sector.blackInHand ≤ 12 := by
  have hwhite := query.whiteInHand_le
  have hblack := query.blackInHand_le
  rcases query.side_cases with hside | hside
  · simp only [PerfectQuery.sector, PerfectQuery.moverBits, PerfectQuery.otherBits,
      PerfectQuery.moverInHand, PerfectQuery.otherInHand, hside, if_true]
    exact ⟨h.1, h.2, hwhite, hblack⟩
  · simp only [PerfectQuery.sector, PerfectQuery.moverBits, PerfectQuery.otherBits,
      PerfectQuery.moverInHand, PerfectQuery.otherInHand, hside, if_neg Nat.one_ne_zero]
    exact ⟨h.2, h.1, hblack, hwhite⟩

/-- With at most twelve stones a side on the board every step of the key succeeds. -/
theorem exists_keyed (cache : WdlPlaneCache) {query : PerfectQuery}
    (h : countOnes query.whiteBits ≤ 12 ∧ countOnes query.blackBits ≤ 12) :
    ∃ key cache', cache.canonicalKeyForQuery query = some (key, cache') ∧ Keyed query key := by
  have hle := sector_le h
  have hboard := query.boardOf_foldedBoard
  obtain ⟨hasher, hnew, hok⟩ := @new_eq_some query.sector.whiteOnBoard
      query.sector.blackOnBoard (by omega)
  obtain ⟨probe, hprobe⟩ := exists_probed hok hboard
  have hslot : probe.index < 2 ^ 32 :=
    (hprobe.index_lt hok).trans (hashCount_lt hok hle.1 hle.2.1)
  have hpack := @packCanonicalKey_eq_some query.sector _ hslot (by omega) (by omega) (by omega)
  obtain ⟨cache', hcache⟩ := cache.hasherFor_eq_some hnew
  refine ⟨_, cache', ?_, h, hasher, probe, hnew, hprobe, hslot, hpack⟩
  have hsector := (query.sectorAndBoard_eq_some_iff query.sector query.foldedBoard).2 ⟨h, rfl, rfl⟩
  simp only [WdlPlaneCache.canonicalKeyForQuery, hsector, hcache, hprobe.result, hpack,
    Option.bind_eq_bind, Option.bind_some]

/-- What a returned key is. -/
theorem keyed_of_canonicalKeyForQuery {cache cache' : WdlPlaneCache} {query : PerfectQuery}
    {key : Nat} (h : cache.canonicalKeyForQuery query = some (key, cache')) : Keyed query key := by
  have hfits : countOnes query.whiteBits ≤ 12 ∧ countOnes query.blackBits ≤ 12 := by
    rw [WdlPlaneCache.canonicalKeyForQuery, Option.bind_eq_bind, Option.bind_eq_some_iff] at h
    obtain ⟨⟨id, board⟩, hsector, _⟩ := h
    exact ((query.sectorAndBoard_eq_some_iff id board).1 hsector).1
  obtain ⟨key', cache'', hkey', hkeyed⟩ := exists_keyed cache hfits
  rw [h, Option.some_inj, Prod.mk.injEq] at hkey'
  rwa [hkey'.1]

/-- The tag bit of the other key space stays clear. -/
theorem Keyed.testBit_tag {query : PerfectQuery} {key : Nat} (h : Keyed query key) :
    key.testBit midRemovalKeyBit = false := by
  obtain ⟨_, probe, _, _, hslot, hpack⟩ := h.parts
  have hle := sector_le h.fits
  rw [packCanonicalKey_eq_some hslot (by omega) (by omega) (by omega), Option.some_inj] at hpack
  refine Nat.testBit_lt_two_pow ?_
  rw [← hpack, midRemovalKeyBit]
  omega

theorem Keyed.eq_iff {a b : PerfectQuery} {ka kb : Nat} (ha : Keyed a ka) (hb : Keyed b kb)
    (htaking : a.onlyStoneTaking = b.onlyStoneTaking) :
    ka = kb ↔ PerfectQuery.SamePosition a b := by
  obtain ⟨hasher, pa, hnew, hpa, hslota, hpacka⟩ := ha.parts
  obtain ⟨hasher', pb, hnew', hpb, hslotb, hpackb⟩ := hb.parts
  have hlea := sector_le ha.fits
  have hleb := sector_le hb.fits
  rw [PerfectQuery.samePosition_iff htaking,
    packCanonicalKey_inj (by omega) (by omega) hslota hslotb hpacka hpackb]
  refine and_congr_right fun hsector => ?_
  -- one sector, one hasher
  obtain ⟨hasher'', hnew'', hok⟩ :=
    @new_eq_some a.sector.whiteOnBoard a.sector.blackOnBoard (by omega)
  have hsame : hasher = hasher'' := by rwa [hnew, Option.some_inj] at hnew''
  have hsame' : hasher' = hasher'' := by rwa [hsector, hnew', Option.some_inj] at hnew''
  subst hsame hsame'
  have hboardb := b.boardOf_foldedBoard
  rw [← hsector] at hboardb
  exact index_eq_iff hok a.boardOf_foldedBoard hboardb hpa hpb

/-! ## The contract -/

/-- A sector's index and canonical board are one for each orbit of the sixteen operations,
for all counts that fit on the board. Settled queries with at most twelve stones a side
have a key, whatever the cache holds; keys are equal exactly for positions equal up to
symmetry and the colour fold, and never carry the tag bit. -/
theorem canonical_index_and_key :
    (∀ whiteCount blackCount, whiteCount + blackCount ≤ 24 →
      ∃ hasher, PerfectHasher.new whiteCount blackCount = some hasher ∧
        ∀ b1 b2, BoardOf whiteCount blackCount b1 → BoardOf whiteCount blackCount b2 →
          ∃ p1 p2, hasher.hashProbe b1 = some p1 ∧ hasher.hashProbe b2 = some p2 ∧
            (p1.index = p2.index ↔ ∃ op, b2 = transform48 op b1) ∧
            (p1.canonicalBoard = p2.canonicalBoard ↔ ∃ op, b2 = transform48 op b1)) ∧
    (∀ (cache : WdlPlaneCache) (query : PerfectQuery), query.onlyStoneTaking = false →
      ((∃ key cache', cache.canonicalKeyForQuery query = some (key, cache')) ↔
        countOnes query.whiteBits ≤ 12 ∧ countOnes query.blackBits ≤ 12)) ∧
    ∀ (cache1 cache2 cache1' cache2' : WdlPlaneCache) (q1 q2 : PerfectQuery) (k1 k2 : Nat),
      q1.onlyStoneTaking = false → q2.onlyStoneTaking = false →
      cache1.canonicalKeyForQuery q1 = some (k1, cache1') →
      cache2.canonicalKeyForQuery q2 = some (k2, cache2') →
        (k1 = k2 ↔ PerfectQuery.SamePosition q1 q2) ∧ k1.testBit midRemovalKeyBit = false := by
  -- the hash of each sector, when a key exists, and that keys tell positions apart
  refine ⟨?_, ?_, ?_⟩
  · intro whiteCount blackCount hle
    obtain ⟨hasher, hnew, hok⟩ := new_eq_some hle
    refine ⟨hasher, hnew, ?_⟩
    intro b1 b2 hb1 hb2
    obtain ⟨p1, hp1⟩ := exists_probed hok hb1
    obtain ⟨p2, hp2⟩ := exists_probed hok hb2
    have hsym : SameOrbit transform48 b1 b2 ↔ ∃ op, b2 = transform48 op b1 :=
      exists_congr fun _ => eq_comm
    refine ⟨p1, p2, hp1.result, hp2.result, ?_, ?_⟩
    · rw [index_eq_iff hok hb1 hb2 hp1 hp2, hsym]
    · rw [canonicalBoard_eq_iff hok hb1 hb2 hp1 hp2, hsym]
  · intro cache query _
    constructor
    · rintro ⟨key, cache', hkey⟩
      exact (keyed_of_canonicalKeyForQuery hkey).fits
    · intro hfits
      obtain ⟨key, cache', hkey, _⟩ := exists_keyed cache hfits
      exact ⟨key, cache', hkey⟩
  · intro cache1 cache2 cache1' cache2' q1 q2 k1 k2 ht1 ht2 h1 h2
    have hk1 := keyed_of_canonicalKeyForQuery h1
    have hk2 := keyed_of_canonicalKeyForQuery h2
    exact ⟨hk1.eq_iff hk2 (ht1.trans ht2.symm), hk1.testBit_tag⟩

/-- One stone each, on two points of a side and on their images. -/
theorem canonical_index_and_key_two_stones :
    ∃ hasher p1 p2, PerfectHasher.new 1 1 = some hasher ∧
      hasher.hashProbe (1 ||| (2 <<< 24)) = some p1 ∧
      hasher.hashProbe (transform48 11 (1 ||| (2 <<< 24))) = some p2 ∧ p1.index = p2.index := by
  have hb : BoardOf 1 1 (1 ||| (2 <<< 24)) := ⟨by decide, by decide, by decide, by decide⟩
  obtain ⟨hasher, hnew, hall⟩ := canonical_index_and_key.1 1 1 (by decide)
  obtain ⟨p1, p2, hp1, hp2, hindex, _⟩ := hall _ _ hb (hb.transform 11)
  exact ⟨hasher, p1, p2, hnew, hp1, hp2, hindex.2 ⟨11, rfl⟩⟩

end Sanmill.PerfectDb
