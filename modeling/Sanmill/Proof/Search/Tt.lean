import Sanmill.Lib.Run
import Sanmill.Search.Tt

/-!
# The table answers with what was saved

A packed word gives back the key signature, the age and the clamped value, depth and bound it
was made of. Ages only grow until the table is cleared, so whatever carries the current age was
saved since the age was last bumped or the table last cleared.
-/

namespace Sanmill

/-! ## The packed word -/

namespace TtPackedEntry

variable (key : BitVec 64) (entry : TtEntry) (age : BitVec 8)

/-- The value that a slot can hold. -/
def clampValue (value : Int) : Int := max (-32768) (min 32767 value)

/-- The depth that a slot can hold. -/
def clampDepth (depth : Int) : Int := max (-128) (min 127 depth)

theorem toInt_compactValue (value : Int) : (compactValue value).toInt = clampValue value := by
  have hrange : -32768 ≤ clampValue value ∧ clampValue value ≤ 32767 := by
    unfold clampValue
    omega
  show (BitVec.ofInt 16 (clampValue value)).toInt = _
  rw [BitVec.toInt_ofInt]
  exact Int.bmod_eq_of_le (by omega) (by omega)

theorem toInt_compactDepth (depth : Int) : (compactDepth depth).toInt = clampDepth depth := by
  have hrange : -128 ≤ clampDepth depth ∧ clampDepth depth ≤ 127 := by
    unfold clampDepth
    omega
  show (BitVec.ofInt 8 (clampDepth depth)).toInt = _
  rw [BitVec.toInt_ofInt]
  exact Int.bmod_eq_of_le (by omega) (by omega)

theorem getLsbD_mask {n : Nat} (h : n ≤ 64) (i : Nat) :
    (BitVec.ofNat 64 (2 ^ n - 1)).getLsbD i = decide (i < n) := by
  rw [BitVec.getLsbD_ofNat, Nat.testBit_two_pow_sub_one]
  by_cases hi : i < n
  · simp only [hi, decide_true, Bool.and_true, decide_eq_true_eq]
    omega
  · simp only [hi, decide_false, Bool.and_false]

theorem getLsbD_ageMask (i : Nat) : (0x3f#64).getLsbD i = decide (i < 6) :=
  @getLsbD_mask 6 (by omega) i

theorem getLsbD_valueMask (i : Nat) : (0xffff#64).getLsbD i = decide (i < 16) :=
  @getLsbD_mask 16 (by omega) i

theorem getLsbD_depthMask (i : Nat) : (0xff#64).getLsbD i = decide (i < 8) :=
  @getLsbD_mask 8 (by omega) i

theorem getLsbD_boundMask (i : Nat) : (0x03#64).getLsbD i = decide (i < 2) :=
  @getLsbD_mask 2 (by omega) i

/-- The bits of a packed word: its five fields side by side. -/
theorem getLsbD_pack (i : Nat) : (pack key entry age).getLsbD i
    = (decide (i < 32) && key.getLsbD i
      || decide (32 ≤ i ∧ i < 38) && age.getLsbD (i - 32)
      || decide (38 ≤ i ∧ i < 54) && (compactValue entry.value).getLsbD (i - 38)
      || decide (54 ≤ i ∧ i < 62) && (compactDepth entry.depth).getLsbD (i - 54)
      || decide (62 ≤ i ∧ i < 64) && (packBound entry.bound).getLsbD (i - 62)) := by
  have hvalue : ∀ j, 16 ≤ j → (compactValue entry.value).getLsbD j = false :=
    fun j hj => BitVec.getLsbD_of_ge _ _ hj
  have hdepth : ∀ j, 8 ≤ j → (compactDepth entry.depth).getLsbD j = false :=
    fun j hj => BitVec.getLsbD_of_ge _ _ hj
  simp only [pack, keySig, ageShift, valueShift, depthShift, boundShift, BitVec.getLsbD_setWidth,
    BitVec.getLsbD_and, BitVec.getLsbD_or, BitVec.getLsbD_shiftLeft, getLsbD_ageMask]
  grind

theorem packedKeySig_pack : packedKeySig (pack key entry age) = keySig key := by
  apply BitVec.eq_of_getLsbD_eq
  intro i hi
  simp only [packedKeySig, keySig, BitVec.getLsbD_setWidth, getLsbD_pack]
  grind

theorem packedAge_pack (h : age.toNat < 64) : packedAge (pack key entry age) = age := by
  have hhigh : ∀ j, 6 ≤ j → age.getLsbD j = false := by
    intro j hj
    have hpow : 2 ^ 6 ≤ 2 ^ j := Nat.pow_le_pow_right (by omega) hj
    exact Nat.testBit_lt_two_pow (Nat.lt_of_lt_of_le h hpow)
  apply BitVec.eq_of_getLsbD_eq
  intro i hi
  simp only [packedAge, ageShift, BitVec.getLsbD_setWidth, BitVec.getLsbD_and,
    BitVec.getLsbD_ushiftRight, getLsbD_pack, getLsbD_ageMask]
  grind

theorem unpackValue_pack : unpackValue (pack key entry age) = clampValue entry.value := by
  rw [← toInt_compactValue]
  unfold unpackValue
  congr 1
  apply BitVec.eq_of_getLsbD_eq
  intro i hi
  simp only [valueShift, BitVec.getLsbD_setWidth, BitVec.getLsbD_and, BitVec.getLsbD_ushiftRight,
    getLsbD_pack, getLsbD_valueMask]
  grind

theorem unpackDepth_pack : unpackDepth (pack key entry age) = clampDepth entry.depth := by
  rw [← toInt_compactDepth]
  unfold unpackDepth
  congr 1
  apply BitVec.eq_of_getLsbD_eq
  intro i hi
  simp only [depthShift, BitVec.getLsbD_setWidth, BitVec.getLsbD_and, BitVec.getLsbD_ushiftRight,
    getLsbD_pack, getLsbD_depthMask]
  grind

theorem unpackBound_pack : unpackBound (pack key entry age) = entry.bound := by
  have hfield : (pack key entry age >>> boundShift) &&& 0x03#64
      = (packBound entry.bound).setWidth 64 := by
    have hbound : ∀ j, 2 ≤ j → (packBound entry.bound).getLsbD j = false := by
      intro j hj
      have hpow : 2 ^ 2 ≤ 2 ^ j := Nat.pow_le_pow_right (by omega) hj
      have hlt : (packBound entry.bound).toNat < 2 ^ 2 := by
        cases entry.bound <;> decide
      exact Nat.testBit_lt_two_pow (Nat.lt_of_lt_of_le hlt hpow)
    apply BitVec.eq_of_getLsbD_eq
    intro i hi
    simp only [boundShift, BitVec.getLsbD_setWidth, BitVec.getLsbD_and,
      BitVec.getLsbD_ushiftRight, getLsbD_pack, getLsbD_boundMask]
    grind
  unfold unpackBound
  rw [hfield]
  cases entry.bound <;> rfl

end TtPackedEntry

open TtPackedEntry

namespace ClusteredTt

variable {tt : ClusteredTt} {cluster : TtCluster} {key : BitVec 64} {entry : TtEntry}
  {curAge : BitVec 8} {depth value : Int} {bound : Bound}

/-! ## Probes -/

theorem answers_iff {word : BitVec 64} : answers word key curAge = true
    ↔ word ≠ 0 ∧ packedKeySig word = keySig key ∧ packedAge word = curAge :=
  decide_eq_true_iff

/-- A value comes from a slot that answers and is deep enough. -/
theorem probeSlots_hit {slots : List (Fin ttClusterEntryCount)} {ttMove : Option (BitVec 16)}
    (h : (tt.probeSlots cluster key depth curAge slots ttMove).valueBound = some (value, bound)) :
    ∃ i, answers (cluster.entries i) key curAge = true ∧ value = unpackValue (cluster.entries i)
      ∧ bound = unpackBound (cluster.entries i) ∧ depth ≤ unpackDepth (cluster.entries i) := by
  induction slots generalizing ttMove with
  | nil => cases h
  | cons i rest ih =>
    unfold probeSlots at h
    dsimp only at h
    split at h
    · rename_i hanswers
      split at h
      · exact ih h
      · rename_i hdeep
        have hpair := Option.some.inj h
        exact ⟨i, hanswers, (congrArg Prod.fst hpair).symm, (congrArg Prod.snd hpair).symm,
          Int.not_lt.1 hdeep⟩
    · exact ih h

theorem get_hit {found : TtEntry} (h : tt.get key = some found) :
    ∃ i, answers ((tt.clusters (tt.clusterIx key)).entries i) key tt.currentAge = true
      ∧ found.value = unpackValue ((tt.clusters (tt.clusterIx key)).entries i)
      ∧ found.depth = unpackDepth ((tt.clusters (tt.clusterIx key)).entries i)
      ∧ found.bound = unpackBound ((tt.clusters (tt.clusterIx key)).entries i) := by
  obtain ⟨i, hi, rfl⟩ := Option.map_eq_some_iff.1 h
  have hanswers : answers ((tt.clusters (tt.clusterIx key)).entries i) key tt.currentAge = true :=
    @List.find?_some _ (fun i => answers ((tt.clusters (tt.clusterIx key)).entries i) key
      tt.currentAge) _ _ hi
  exact ⟨i, hanswers, rfl, rfl, rfl⟩

/-! ## Saves -/

/-- The slots after a save: one of the cluster may hold the new word, the others are kept. -/
theorem saveAtAge_entries (ix : Nat) (i : Fin ttClusterEntryCount) :
    ((tt.saveAtAge key entry curAge).clusters ix).entries i = (tt.clusters ix).entries i
      ∨ ix = tt.clusterIx key
        ∧ ((tt.saveAtAge key entry curAge).clusters ix).entries i = pack key entry curAge := by
  have hstore : ∀ (j : Fin ttClusterEntryCount) (move : BitVec 16),
      ((tt.store (tt.clusterIx key) j (pack key entry curAge) move).clusters ix).entries i
          = (tt.clusters ix).entries i
        ∨ ix = tt.clusterIx key
          ∧ ((tt.store (tt.clusterIx key) j (pack key entry curAge) move).clusters ix).entries i
            = pack key entry curAge := by
    intro j move
    unfold store
    dsimp only
    -- only the chosen slot of the key's cluster changes
    by_cases hix : ix = tt.clusterIx key
    · subst hix
      rw [Function.update_self]
      dsimp only
      by_cases hi : i = j
      · subst hi
        rw [Function.update_self]
        exact .inr ⟨rfl, rfl⟩
      · rw [Function.update_of_ne hi]
        exact .inl rfl
    · rw [Function.update_of_ne hix]
      exact .inl rfl
  unfold saveAtAge
  dsimp only
  split
  · exact .inl rfl
  · exact hstore _ _
  · exact hstore _ _

theorem saveAtAge_frame : (tt.saveAtAge key entry curAge).clusterMask = tt.clusterMask
    ∧ (tt.saveAtAge key entry curAge).currentAge = tt.currentAge := by
  unfold saveAtAge
  dsimp only
  split
  · exact ⟨rfl, rfl⟩
  · exact ⟨rfl, rfl⟩
  · exact ⟨rfl, rfl⟩

/-- A depth below a stored one is below it before it is clamped, too. -/
theorem lt_of_clampDepth_lt {word : BitVec 64} (h : clampDepth depth < unpackDepth word) :
    depth < unpackDepth word := by
  have hle : unpackDepth word ≤ 127 := by
    have hlt := @BitVec.toInt_lt 8 (((word >>> depthShift) &&& 0xff#64).setWidth 8)
    unfold unpackDepth
    omega
  unfold clampDepth at h
  omega

/-- The loop takes no slot with a deeper entry of the same key and age. -/
theorem saveTarget_spares {slots : List (Fin ttClusterEntryCount)} {i : Fin ttClusterEntryCount}
    (hi : i ∈ slots) (hanswers : answers (cluster.entries i) key curAge = true)
    (hdeeper : entry.depth < unpackDepth (cluster.entries i))
    (replaceIndex : Fin ttClusterEntryCount) (replaceScore : Int) :
    saveTarget cluster key entry curAge slots replaceIndex replaceScore ≠ .update i
      ∧ saveTarget cluster key entry curAge slots replaceIndex replaceScore ≠ .replace i := by
  obtain ⟨hword, hsig, hage⟩ := answers_iff.1 hanswers
  induction slots generalizing replaceIndex replaceScore with
  | nil => exact (List.not_mem_nil hi).elim
  | cons j rest ih =>
    unfold saveTarget
    dsimp only
    split
    · -- an empty slot
      rename_i hempty
      refine ⟨nofun, fun heq => ?_⟩
      rw [SaveTarget.replace.inj heq] at hempty
      exact hword hempty
    · split
      · -- the first slot of the key
        split
        · exact ⟨nofun, nofun⟩
        · rename_i hkeep
          refine ⟨fun heq => ?_, nofun⟩
          rw [SaveTarget.update.inj heq] at hkeep
          exact hkeep ⟨hage, .inl hdeeper⟩
      · -- a slot of another key
        rename_i hother
        have hrest : i ∈ rest := by
          rcases List.mem_cons.1 hi with rfl | hrest
          · exact absurd hsig hother
          · exact hrest
        split
        · exact ih hrest _ _
        · exact ih hrest _ _

theorem save_spares {i : Fin ttClusterEntryCount}
    (hanswers : answers ((tt.clusters (tt.clusterIx key)).entries i) key curAge = true)
    (hdeeper : clampDepth entry.depth < unpackDepth ((tt.clusters (tt.clusterIx key)).entries i)) :
    ((tt.saveAtAge key entry curAge).clusters (tt.clusterIx key)).entries i
      = (tt.clusters (tt.clusterIx key)).entries i := by
  obtain ⟨hupdate, hreplace⟩ := saveTarget_spares (List.mem_finRange i) hanswers
    (lt_of_clampDepth_lt hdeeper) 0 2147483647
  have hstore : ∀ (j : Fin ttClusterEntryCount) (move : BitVec 16), j ≠ i →
      ((tt.store (tt.clusterIx key) j (pack key entry curAge) move).clusters
        (tt.clusterIx key)).entries i = (tt.clusters (tt.clusterIx key)).entries i := by
    intro j move hj
    unfold store
    dsimp only
    rw [Function.update_self]
    exact Function.update_of_ne (Ne.symm hj) _ _
  unfold saveAtAge
  dsimp only
  split
  · rfl
  · rename_i j htarget
    refine hstore j _ ?_
    rintro rfl
    exact hupdate htarget
  · rename_i j htarget
    refine hstore j _ ?_
    rintro rfl
    exact hreplace htarget

/-! ## Runs -/

/-- What was saved since the last clear or bump, newest first. -/
def savedSince (recent : List (BitVec 64 × TtEntry)) : TtCall → List (BitVec 64 × TtEntry)
  | .save key entry => (key, entry) :: recent
  | .bumpAge => []
  | .clear => []

/-- What was saved under a key of the same cluster and signature, clamped. -/
def SavedAs (tt : ClusteredTt) (recent : List (BitVec 64 × TtEntry)) (key : BitVec 64)
    (value depth : Int) (bound : Bound) : Prop :=
  ∃ saved ∈ recent, tt.clusterIx saved.1 = tt.clusterIx key ∧ keySig saved.1 = keySig key
    ∧ value = clampValue saved.2.value ∧ depth = clampDepth saved.2.depth ∧ bound = saved.2.bound

/-- Ages are six bits, none is ahead of the current one, and what carries the current one was
saved since the last clear or bump. -/
structure Fresh (recent : List (BitVec 64 × TtEntry)) (tt : ClusteredTt) : Prop where
  age_lt : tt.currentAge.toNat < 64
  behind : ∀ ix i, (tt.clusters ix).entries i ≠ 0 →
    (packedAge ((tt.clusters ix).entries i)).toNat ≤ tt.currentAge.toNat
  saved : ∀ ix i, (tt.clusters ix).entries i ≠ 0 →
    packedAge ((tt.clusters ix).entries i) = tt.currentAge →
    ∃ p ∈ recent, tt.clusterIx p.1 = ix ∧ (tt.clusters ix).entries i = pack p.1 p.2 tt.currentAge

variable {recent : List (BitVec 64 × TtEntry)}

/-- An empty table is fresh. -/
theorem Fresh.of_empty (hage : tt.currentAge.toNat < 64)
    (hempty : ∀ ix i, (tt.clusters ix).entries i = 0) : Fresh recent tt where
  age_lt := hage
  behind ix i h := absurd (hempty ix i) h
  saved ix i h := absurd (hempty ix i) h

theorem Fresh.save (h : Fresh recent tt) (key : BitVec 64) (entry : TtEntry) :
    Fresh ((key, entry) :: recent) (tt.save key entry) := by
  obtain ⟨hmask, hage⟩ := @saveAtAge_frame tt key entry tt.currentAge
  have hix : ∀ other, (tt.save key entry).clusterIx other = tt.clusterIx other := by
    intro other
    unfold ClusteredTt.clusterIx
    rw [show (tt.save key entry).clusterMask = tt.clusterMask from hmask]
  have hcurrent : (tt.save key entry).currentAge = tt.currentAge := hage
  constructor
  · rw [hcurrent]
    exact h.age_lt
  · intro ix i hword
    rw [hcurrent]
    rcases saveAtAge_entries ix i with hkept | ⟨-, hnew⟩
    · rw [show ((tt.save key entry).clusters ix).entries i = (tt.clusters ix).entries i from hkept]
        at hword ⊢
      exact h.behind ix i hword
    · rw [show ((tt.save key entry).clusters ix).entries i = pack key entry tt.currentAge from hnew]
      exact Nat.le_of_eq (congrArg BitVec.toNat (packedAge_pack _ _ _ h.age_lt))
  · intro ix i hword hsame
    rw [hcurrent] at hsame ⊢
    rcases saveAtAge_entries ix i with hkept | ⟨hcluster, hnew⟩
    · rw [show ((tt.save key entry).clusters ix).entries i = (tt.clusters ix).entries i from hkept]
        at hword hsame ⊢
      obtain ⟨p, hp, hpix, hpword⟩ := h.saved ix i hword hsame
      exact ⟨p, List.mem_cons_of_mem _ hp, by rw [hix]; exact hpix, hpword⟩
    · exact ⟨(key, entry), List.mem_cons_self, by rw [hix]; exact hcluster.symm, hnew⟩

theorem Fresh.bumpAge (h : Fresh recent tt) : Fresh [] tt.bumpAge := by
  unfold ClusteredTt.bumpAge
  split
  · refine Fresh.of_empty ?_ fun ix i => rfl
    show (1 : BitVec 8).toNat < 64
    decide
  · rename_i hroom
    have hnext : (tt.currentAge + 1).toNat = tt.currentAge.toNat + 1 := by
      rw [BitVec.toNat_add]
      have hone : (1 : BitVec 8).toNat = 1 := rfl
      have hwrap : (tt.currentAge.toNat + 1) % 2 ^ 8 = tt.currentAge.toNat + 1 :=
        Nat.mod_eq_of_lt (by omega)
      rw [hone, hwrap]
    constructor
    · show (tt.currentAge + 1).toNat < 64
      omega
    · intro ix i hword
      have hbehind := h.behind ix i hword
      show (packedAge ((tt.clusters ix).entries i)).toNat ≤ (tt.currentAge + 1).toNat
      omega
    · -- the entries of the table are all behind the new age
      intro ix i hword hsame
      have hbehind := h.behind ix i hword
      have heq : packedAge ((tt.clusters ix).entries i) = tt.currentAge + 1 := hsame
      rw [heq] at hbehind
      omega

theorem Fresh.called (h : Fresh recent tt) (call : TtCall) :
    Fresh (savedSince recent call) (tt.called call) := by
  cases call with
  | save key entry => exact h.save key entry
  | bumpAge => exact h.bumpAge
  | clear =>
    refine Fresh.of_empty ?_ fun ix i => rfl
    show (0 : BitVec 8).toNat < 64
    decide

theorem Fresh.run (h : Fresh recent tt) (calls : List TtCall) :
    Fresh (Run.last savedSince recent calls) (Run.last ClusteredTt.called tt calls) := by
  induction calls generalizing recent tt with
  | nil => exact h
  | cons call rest ih => exact ih (h.called call)

theorem Fresh.savedAs (h : Fresh recent tt) {i : Fin ttClusterEntryCount}
    (hanswers : answers ((tt.clusters (tt.clusterIx key)).entries i) key tt.currentAge = true) :
    tt.SavedAs recent key (unpackValue ((tt.clusters (tt.clusterIx key)).entries i))
      (unpackDepth ((tt.clusters (tt.clusterIx key)).entries i))
      (unpackBound ((tt.clusters (tt.clusterIx key)).entries i)) := by
  obtain ⟨hword, hsig, hage⟩ := answers_iff.1 hanswers
  obtain ⟨p, hp, hix, hpack⟩ := h.saved _ i hword hage
  rw [hpack] at hsig ⊢
  rw [packedKeySig_pack] at hsig
  exact ⟨p, hp, hix, hsig, unpackValue_pack _ _ _, unpackDepth_pack _ _ _, unpackBound_pack _ _ _⟩

theorem Fresh.age_eq (h : Fresh recent tt) : tt.age = tt.currentAge := by
  apply BitVec.eq_of_toNat_eq
  have hlt := h.age_lt
  show (tt.currentAge &&& 0x3f#8).toNat = _
  rw [BitVec.toNat_and]
  exact Nat.and_two_pow_sub_one_of_lt_two_pow (n := 6) hlt

/-- **After any saves, bumps and clears of a new table, what a probe finds was saved since the
last bump or clear, is deep enough, and is not overwritten by a shallower save.** -/
theorem tt_run (bits : Nat) (enableTtMove : Bool) (calls : List TtCall) :
    let tt := Run.last called (newWithClusterBitsAndTtMove bits enableTtMove) calls
    let recent := Run.last savedSince [] calls
    (∀ key depth value bound,
        (tt.probeEntryAtAge key depth tt.age).valueBound = some (value, bound) →
        ∃ stored, depth ≤ stored ∧ tt.SavedAs recent key value stored bound)
      ∧ (∀ key found, tt.get key = some found →
        tt.SavedAs recent key found.value found.depth found.bound)
      ∧ (∀ key i, answers ((tt.clusters (tt.clusterIx key)).entries i) key tt.age →
        ∃ saved ∈ recent, (tt.clusters (tt.clusterIx key)).entries i
          = pack saved.1 saved.2 tt.currentAge)
      ∧ ∀ key entry i, answers ((tt.clusters (tt.clusterIx key)).entries i) key tt.age →
        clampDepth entry.depth < unpackDepth ((tt.clusters (tt.clusterIx key)).entries i) →
        ((tt.save key entry).clusters (tt.clusterIx key)).entries i
          = (tt.clusters (tt.clusterIx key)).entries i := by
  intro tt recent
  -- whatever answers at the current age was saved since the last bump or clear
  have hfresh : Fresh recent tt := by
    refine Fresh.run (Fresh.of_empty ?_ fun ix i => rfl) calls
    show (0 : BitVec 8).toNat < 64
    decide
  have hage := hfresh.age_eq
  rw [hage]
  refine ⟨?_, ?_, ?_, ?_⟩
  · intro key depth value bound hprobe
    obtain ⟨i, hanswers, rfl, rfl, hdeep⟩ := probeSlots_hit hprobe
    exact ⟨_, hdeep, hfresh.savedAs hanswers⟩
  · intro key found hget
    obtain ⟨i, hanswers, hvalue, hdepth, hbound⟩ := get_hit hget
    rw [hvalue, hdepth, hbound]
    exact hfresh.savedAs hanswers
  · intro key i hanswers
    obtain ⟨hword, -, hsame⟩ := answers_iff.1 hanswers
    obtain ⟨p, hp, -, hpack⟩ := hfresh.saved _ i hword hsame
    exact ⟨p, hp, hpack⟩
  · intro key entry i hanswers hdeeper
    exact save_spares hanswers hdeeper

end ClusteredTt

end Sanmill
