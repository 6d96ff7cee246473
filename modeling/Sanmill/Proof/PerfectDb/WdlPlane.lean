import Sanmill.PerfectDb.WdlPlane
import Sanmill.Proof.PerfectDb.InverseBoard
import Sanmill.Proof.PerfectDb.SectorFile

/-!
# A plane says what the database says

A plane is built slot by slot from the board that a slot stands for, and the database starts
from the canonical board of the query. Both are the same board, so that a redirect leads both
to the same slot. What is packed into two bits is read back, from memory and from a file.
-/

namespace Sanmill.PerfectDb

open LittleEndian

/-! ## The board behind a probe -/

/-- The board that is stored at the index of a probe is its canonical board. -/
theorem inverseBoard_probe {whiteCount blackCount board : Nat} {hasher : PerfectHasher}
    (h : HasherOk whiteCount blackCount hasher) (hboard : BoardOf whiteCount blackCount board)
    {probe : HashProbe} (hp : Probed hasher board probe) :
    hasher.inverseBoard probe.index = some probe.canonicalBoard := by
  have hcanonical := hp.canonical_board hboard
  have hlt := hp.index_lt h
  obtain ⟨entry, seed, rank, -, hseed, hleast, hrank, hindex⟩ := hp.parts
  have hrankLt : rank < hasher.positionsPerWhite := by
    rw [h.positions]
    exact (List.getElem?_eq_some_iff.1 hrank).1
  have hdiv : probe.index / hasher.positionsPerWhite = entry.index := by
    rw [hindex, Nat.mul_comm, Nat.mul_add_div (by omega), Nat.div_eq_of_lt hrankLt, Nat.add_zero]
  have hmod : probe.index % hasher.positionsPerWhite = rank := by
    rw [hindex, Nat.mul_comm, Nat.mul_add_mod, Nat.mod_eq_of_lt hrankLt]
  -- the white half of the canonical board is the seed
  have hwhite : whiteHalf probe.canonicalBoard = seed := hleast.1.2
  simp only [PerfectHasher.inverseBoard, guard, if_pos hlt, hdiv, hmod, hseed, hrank,
    Option.pure_def, Option.bind_eq_bind, Option.bind_some]
  rw [← hwhite, uncollapse_collapse hcanonical.lt hcanonical.disjoint]

/-! ## Two bits a slot -/

namespace WdlPlane

theorem three_bit (n : Nat) : (3 : Byte).getLsbD n = decide (n < 2) := by
  have h : (3 : Byte).getLsbD n = Nat.testBit (2 ^ 2 - 1) n := rfl
  rw [h, Nat.testBit_two_pow_sub_one]

/-- A pair of bits is read back, and the other pairs of its byte stay. -/
theorem packed_pair (byte : Byte) {code : Byte} (hcode : code.toNat < 2 ^ 2) {k j : Nat}
    (hj : j < 4) :
    (((byte &&& ~~~((3 : Byte) <<< (k * 2))) ||| (code <<< (k * 2))) >>> (j * 2)) &&& 3
      = if j = k then code else (byte >>> (j * 2)) &&& 3 := by
  have hhigh : ∀ n, 2 ≤ n → code.getLsbD n = false := by
    intro n hn
    exact Nat.testBit_lt_two_pow (Nat.lt_of_lt_of_le hcode (Nat.pow_le_pow_right (by decide) hn))
  apply BitVec.eq_of_getLsbD_eq
  intro i hi
  simp only [BitVec.getLsbD_and, BitVec.getLsbD_ushiftRight, BitVec.getLsbD_or,
    BitVec.getLsbD_not, BitVec.getLsbD_shiftLeft, three_bit]
  by_cases hlow : i < 2
  · have hin : j * 2 + i < 8 := by omega
    by_cases hjk : j = k
    · subst hjk
      have hnot : ¬ j * 2 + i < j * 2 := by omega
      have hback : j * 2 + i - j * 2 = i := by omega
      simp only [hin, hnot, hback, hlow, if_true, decide_true, decide_false, Bool.not_false,
        Bool.and_true, Bool.true_and, Bool.not_true, Bool.and_false, Bool.false_or]
    · rw [if_neg hjk]
      simp only [BitVec.getLsbD_and, BitVec.getLsbD_ushiftRight, three_bit]
      by_cases hlt : j * 2 + i < k * 2
      · simp [hin, hlt, hlow]
      · -- the bit lies above the pair that is written
        have hfar : 2 ≤ j * 2 + i - k * 2 := by omega
        simp [hin, hlt, hlow, hhigh _ hfar]
        omega
  · by_cases hjk : j = k
    · rw [if_pos hjk, hhigh i (by omega)]
      simp [hlow]
    · rw [if_neg hjk]
      simp only [BitVec.getLsbD_and, three_bit]
      simp [hlow]

theorem wdlCode_eq_some {wdl : Int} (h : wdl = -1 ∨ wdl = 0 ∨ wdl = 1) :
    ∃ code, wdlCode wdl = some code ∧ wdlOfCode code = some wdl ∧ code.toNat < 2 ^ 2 := by
  rcases h with rfl | rfl | rfl
  · exact ⟨0, rfl, rfl, by decide⟩
  · exact ⟨1, rfl, rfl, by decide⟩
  · exact ⟨2, rfl, rfl, by decide⟩

/-- A plane has the bytes that its slots take. -/
def Shaped (plane : WdlPlane) : Prop := plane.bits.length = packedLen plane.hashCount

variable {plane : WdlPlane}

/-- **A slot that is set is read back, and the others stay.** -/
theorem set_spec (h : plane.Shaped) {index : Nat} (hindex : index < plane.hashCount) {wdl : Int}
    (hwdl : wdl = -1 ∨ wdl = 0 ∨ wdl = 1) :
    ∃ plane', plane.set index wdl = some plane' ∧ plane'.Shaped
      ∧ plane'.hashCount = plane.hashCount ∧ plane'.wdlAt index = some wdl
      ∧ ∀ j, j ≠ index → plane'.wdlAt j = plane.wdlAt j := by
  obtain ⟨code, hcode, hback, hsmall⟩ := wdlCode_eq_some hwdl
  have hbyte : index / 4 < plane.bits.length := by
    rw [h]
    unfold packedLen
    omega
  have hget := List.getElem?_eq_getElem hbyte
  -- of the byte only the two bits of the slot change
  generalize plane.bits[index / 4] = byte at hget
  refine ⟨{ plane with
      bits := plane.bits.set (index / 4)
        ((byte &&& ~~~((3 : Byte) <<< (index % 4 * 2))) ||| (code <<< (index % 4 * 2))) },
    ?_, ?_, rfl, ?_, ?_⟩
  · unfold WdlPlane.set
    rw [hcode, hget]
    rfl
  · show (plane.bits.set _ _).length = _
    rw [List.length_set]
    exact h
  · unfold wdlAt
    dsimp only
    rw [if_pos hindex, List.getElem?_set_self hbyte, Option.bind_some,
      packed_pair byte hsmall (Nat.mod_lt _ (by decide)), if_pos rfl, hback]
  · intro j hj
    unfold wdlAt
    dsimp only
    by_cases hsame : index / 4 = j / 4
    -- another slot of the same byte
    · have hother : j % 4 ≠ index % 4 := by omega
      rw [← hsame, List.getElem?_set_self hbyte, hget, Option.bind_some, Option.bind_some,
        packed_pair byte hsmall (Nat.mod_lt _ (by decide)), if_neg hother]
    · rw [List.getElem?_set_ne hsame]

theorem wdlOf_cases (secVals : SecValTable) (sectorValue : Int) (raw : RawEval) :
    wdlOf secVals sectorValue raw = -1 ∨ wdlOf secVals sectorValue raw = 0
      ∨ wdlOf secVals sectorValue raw = 1 := by
  unfold wdlOf
  dsimp only
  split
  · exact .inr (.inr rfl)
  · split
    · exact .inl rfl
    · exact .inr (.inl rfl)

/-! ## Building -/

section Build

variable {hasher : PerfectHasher} {rawEvals : List RawEval} {sectorValue : Int}
  {secVals : SecValTable}

/-- What the loop of `build` makes of some slots. -/
structure Filled (hasher : PerfectHasher) (rawEvals : List RawEval) (sectorValue : Int)
    (secVals : SecValTable) (plane : WdlPlane) (slots : List Nat) (plane' : WdlPlane) : Prop where
  shaped : plane'.Shaped
  hashCount : plane'.hashCount = plane.hashCount
  filled : ∀ j ∈ slots, ∃ raw, resolve hasher rawEvals j = some raw
    ∧ plane'.wdlAt j = some (wdlOf secVals sectorValue raw)
  kept : ∀ j, j ∉ slots → plane'.wdlAt j = plane.wdlAt j

/-- The loop ends exactly when every slot resolves. -/
theorem foldlM_buildStep {slots : List Nat} (h : plane.Shaped)
    (hslots : ∀ j ∈ slots, j < plane.hashCount) :
    (∃ plane', slots.foldlM (buildStep hasher rawEvals sectorValue secVals) plane = some plane'
        ∧ Filled hasher rawEvals sectorValue secVals plane slots plane')
      ∨ slots.foldlM (buildStep hasher rawEvals sectorValue secVals) plane = none
        ∧ ∃ j ∈ slots, resolve hasher rawEvals j = none := by
  -- the loop either fills every slot or stops at the first that does not resolve
  induction slots generalizing plane with
  | nil =>
    refine .inl ⟨plane, rfl, h, rfl, ?_, fun _ _ => rfl⟩
    intro j hj
    cases hj
  | cons index rest ih =>
    rw [List.foldlM_cons]
    unfold buildStep
    cases hresolve : resolve hasher rawEvals index with
    | none => exact .inr ⟨rfl, index, List.mem_cons_self, hresolve⟩
    | some raw =>
      obtain ⟨next, hset, hshaped, hcount, hread, hother⟩ :=
        set_spec h (hslots index List.mem_cons_self) (wdlOf_cases secVals sectorValue raw)
      rw [Option.bind_some, hset]
      have hrest : ∀ j ∈ rest, j < next.hashCount := by
        intro j hj
        rw [hcount]
        exact hslots j (List.mem_cons_of_mem _ hj)
      rcases ih hshaped hrest with ⟨plane', hfold, hfilled⟩ | ⟨hnone, j, hj, hbad⟩
      · refine .inl ⟨plane', hfold, hfilled.shaped, hfilled.hashCount.trans hcount, ?_, ?_⟩
        · intro j hj
          rcases List.mem_cons.1 hj with rfl | hj
          -- a slot that comes again is written again
          · by_cases hagain : j ∈ rest
            · exact hfilled.filled j hagain
            · exact ⟨raw, hresolve, (hfilled.kept j hagain).trans hread⟩
          · exact hfilled.filled j hj
        · intro j hj
          rw [List.mem_cons, not_or] at hj
          exact (hfilled.kept j hj.2).trans (hother j hj.1)
      · exact .inr ⟨hnone, j, List.mem_cons_of_mem _ hj, hbad⟩

/-- **A plane is built exactly when the buffer decodes and every slot resolves**; it holds the
values behind the slots. Where some slot does not, the build panics. -/
theorem build_cases (bytes : List Byte) (hasher : PerfectHasher) (sectorValue : Int)
    (secVals : SecValTable) :
    (∃ e, decodeAllFromBytes bytes hasher.hashCount = .error (.error e)
        ∧ build bytes hasher sectorValue secVals = .error (.error e))
      ∨ ∃ rawEvals, decodeAllFromBytes bytes hasher.hashCount = .ok rawEvals
        ∧ Decoded bytes hasher.hashCount rawEvals
        ∧ ((∃ plane, build bytes hasher sectorValue secVals = .ok plane ∧ plane.Shaped
              ∧ plane.hashCount = hasher.hashCount
              ∧ ∀ j < hasher.hashCount, ∃ raw, resolve hasher rawEvals j = some raw
                ∧ plane.wdlAt j = some (wdlOf secVals sectorValue raw))
          ∨ build bytes hasher sectorValue secVals = .error .panic
            ∧ ∃ j < hasher.hashCount, resolve hasher rawEvals j = none) := by
  unfold build
  dsimp only
  rcases decodeAllFromBytes_cases bytes hasher.hashCount
      with ⟨e, herror⟩ | ⟨rawEvals, hok, hdecoded⟩
  · exact .inl ⟨e, herror, by rw [herror]; rfl⟩
  · refine .inr ⟨rawEvals, hok, hdecoded, ?_⟩
    rw [hok]
    have hshaped : Shaped ⟨hasher.hashCount, List.replicate (packedLen hasher.hashCount) 0⟩ :=
      List.length_replicate
    have hslots : ∀ j ∈ List.range hasher.hashCount, j < hasher.hashCount :=
      fun j hj => List.mem_range.1 hj
    rcases @foldlM_buildStep _ hasher rawEvals sectorValue secVals _ hshaped hslots with
      ⟨plane, hfold, hfilled⟩ | ⟨hnone, j, hj, hbad⟩
    · refine .inl ⟨plane, ?_, hfilled.shaped, hfilled.hashCount, fun j hj =>
        hfilled.filled j (List.mem_range.2 hj)⟩
      show orPanic (List.foldlM _ _ _) = _
      rw [hfold]
      rfl
    · refine .inr ⟨?_, j, List.mem_range.1 hj, hbad⟩
      show orPanic (List.foldlM _ _ _) = _
      rw [hnone]
      rfl

end Build

end WdlPlane

end Sanmill.PerfectDb
