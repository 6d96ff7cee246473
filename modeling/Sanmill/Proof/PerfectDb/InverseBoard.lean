import Mathlib.Data.Set.Card
import Sanmill.Proof.PerfectDb.Hash

/-!
# Boards from indices

`uncollapse` undoes `collapse` around the same white points, so seed and rank of an
index give a board back. The boards of a sector whose white half is the least of its
orbit and the indices below the hash count correspond one to one.
-/

namespace Sanmill.PerfectDb

open Orbit
open Gosper (popcount)

/-! ## `uncollapse` -/

/-- The white points below `n`. -/
def takenBelow (white n : Nat) : Nat := n - freeBelow white n

theorem takenBelow_succ (white n : Nat) :
    takenBelow white (n + 1) = takenBelow white n + if white.testBit n then 1 else 0 := by
  have hle := freeBelow_le white n
  unfold takenBelow
  rw [freeBelow_succ]
  cases white.testBit n
  · simp only [Bool.false_eq_true, if_false]
    omega
  · simp only [if_true]
    omega

/-- What the loop of `uncollapse` has done after the points below `n`. -/
structure Uncollapsed (white compact n : Nat) (s : UncollapseState) : Prop where
  shifted : s.compactBlack = (compact <<< takenBelow white n) % 2 ^ 32
  /-- A free point gets the bit that `collapse` has moved down. -/
  bits : ∀ i < n, s.black.testBit i = (!white.testBit i && compact.testBit (freeBelow white i))
  lt : s.black < 2 ^ n

theorem Uncollapsed.step {white compact n : Nat} {s : UncollapseState} (hn : n < 32)
    (h : Uncollapsed white compact n s) :
    Uncollapsed white compact (n + 1) (uncollapseStep white s n) := by
  have hle := freeBelow_le white n
  unfold uncollapseStep
  by_cases hwhite : white.testBit n = true
  · rw [if_pos ((and_shift_ne_zero _ _).2 hwhite)]
    refine ⟨?_, ?_, ?_⟩
    · show (s.compactBlack <<< 1) % 2 ^ 32 = _
      rw [takenBelow_succ, if_pos hwhite, h.shifted, Nat.shiftLeft_add, Nat.shiftLeft_eq _ 1,
        Nat.shiftLeft_eq _ 1, Nat.mod_mul_mod]
    · intro i hi
      show s.black.testBit i = _
      rcases Nat.lt_or_eq_of_le (Nat.le_of_lt_succ hi) with hlt | rfl
      · exact h.bits i hlt
      · rw [hwhite, Nat.testBit_lt_two_pow h.lt]
        rfl
    · have hlt := h.lt
      show s.black < 2 ^ (n + 1)
      rw [Nat.pow_succ]
      omega
  · rw [Bool.not_eq_true] at hwhite
    rw [if_neg fun hne => hne ((and_shift_eq_zero _ _).2 hwhite)]
    -- the bit at hand, shifted up by the white points below it
    have hbit : s.compactBlack.testBit n = compact.testBit (freeBelow white n) := by
      rw [h.shifted, Nat.testBit_mod_two_pow, Nat.testBit_shiftLeft]
      have hge : takenBelow white n ≤ n := Nat.sub_le _ _
      have hindex : n - takenBelow white n = freeBelow white n := by
        unfold takenBelow
        omega
      simp [hn, hge, hindex]
    have hand : s.compactBlack &&& (1 <<< n) = 2 ^ n * (s.compactBlack.testBit n).toNat := by
      rw [Nat.one_shiftLeft, Nat.and_two_pow, Nat.mul_comm]
    have hor : s.black ||| (s.compactBlack &&& (1 <<< n)) =
        2 ^ n * (s.compactBlack.testBit n).toNat + s.black := by
      rw [hand, Nat.or_comm, Nat.two_pow_add_eq_or_of_lt h.lt]
    refine ⟨?_, ?_, ?_⟩
    · show s.compactBlack = _
      rw [takenBelow_succ, hwhite, h.shifted]
      rfl
    · intro i hi
      show (s.black ||| (s.compactBlack &&& (1 <<< n))).testBit i = _
      rw [hor, Nat.testBit_two_pow_mul_add _ h.lt]
      rcases Nat.lt_or_eq_of_le (Nat.le_of_lt_succ hi) with hlt | rfl
      · rw [if_pos hlt]
        exact h.bits i hlt
      · rw [if_neg (Nat.lt_irrefl _), Nat.sub_self, hbit, hwhite]
        cases compact.testBit (freeBelow white i) <;> rfl
    · have hlt := h.lt
      show s.black ||| (s.compactBlack &&& (1 <<< n)) < 2 ^ (n + 1)
      rw [hor, Nat.pow_succ]
      cases s.compactBlack.testBit n
      · simp only [Bool.toNat_false]
        omega
      · simp only [Bool.toNat_true]
        omega

theorem uncollapsed_foldl (white : Nat) {compact : Nat} (hcompact : compact < 2 ^ 24) :
    ∀ n ≤ 24, Uncollapsed white compact n ((List.range n).foldl (uncollapseStep white)
      { compactBlack := compact, black := 0 }) := by
  intro n
  induction n with
  | zero =>
    intro _
    refine ⟨?_, by simp, by simp⟩
    show compact = (compact <<< (0 - freeBelow white 0)) % 2 ^ 32
    rw [Nat.zero_sub, Nat.shiftLeft_zero, Nat.mod_eq_of_lt (by omega)]
  | succ n ih =>
    intro hn
    rw [List.range_succ, List.foldl_append, List.foldl_cons, List.foldl_nil]
    exact (ih (by omega)).step (by omega)

section Uncollapse

variable {white compact : Nat} (hwhite : white < 2 ^ 24) (hcompact : compact < 2 ^ 24)
include hwhite hcompact

theorem uncollapse_halves :
    whiteHalf (uncollapse (white ||| (compact <<< 24))) = white ∧
      Uncollapsed white compact 24
        { compactBlack := (compact <<< takenBelow white 24) % 2 ^ 32
          black := blackHalf (uncollapse (white ||| (compact <<< 24))) } := by
  have hw : (white ||| (compact <<< 24)) &&& mask24 = white := whiteHalf_or_shift hwhite compact
  have hc : ((white ||| (compact <<< 24)) >>> 24) &&& mask24 = compact :=
    blackHalf_or_shift hwhite hcompact
  have hloop := uncollapsed_foldl white hcompact 24 (Nat.le_refl 24)
  have heq : uncollapse (white ||| (compact <<< 24)) = white |||
      (((List.range 24).foldl (uncollapseStep white)
        { compactBlack := compact, black := 0 }).black <<< 24) := by
    unfold uncollapse
    rw [hw, hc]
    rfl
  rw [heq]
  refine ⟨whiteHalf_or_shift hwhite _, rfl, ?_, ?_⟩
  · intro i hi
    show (blackHalf _).testBit i = _
    rw [blackHalf_or_shift hwhite hloop.lt]
    exact hloop.bits i hi
  · exact blackHalf_lt _

theorem uncollapse_lt : uncollapse (white ||| (compact <<< 24)) < 2 ^ 48 := by
  have hw : (white ||| (compact <<< 24)) &&& mask24 = white := whiteHalf_or_shift hwhite compact
  have hc : ((white ||| (compact <<< 24)) >>> 24) &&& mask24 = compact :=
    blackHalf_or_shift hwhite hcompact
  have hloop := uncollapsed_foldl white hcompact 24 (Nat.le_refl 24)
  unfold uncollapse
  rw [hw, hc]
  exact or_shift_lt hwhite hloop.lt

/-- Black takes no white point. -/
theorem uncollapse_disjoint : whiteHalf (uncollapse (white ||| (compact <<< 24))) &&&
    blackHalf (uncollapse (white ||| (compact <<< 24))) = 0 := by
  obtain ⟨hw, hblack⟩ := uncollapse_halves hwhite hcompact
  rw [hw]
  refine Nat.eq_of_testBit_eq fun i => ?_
  rw [Nat.testBit_and, Nat.zero_testBit]
  rcases Nat.lt_or_ge i 24 with hi | hi
  · rw [show (blackHalf (uncollapse (white ||| (compact <<< 24)))).testBit i = _ from
      hblack.bits i hi]
    cases white.testBit i <;> rfl
  · have hpow : 2 ^ 24 ≤ 2 ^ i := Nat.pow_le_pow_right (by decide) hi
    rw [Nat.testBit_lt_two_pow (by omega), Bool.false_and]

end Uncollapse

/-- Every place of the compact universe belongs to a free point. -/
theorem exists_freeBelow_eq (white : Nat) {j : Nat} : ∀ n, j < freeBelow white n →
    ∃ i < n, white.testBit i = false ∧ freeBelow white i = j := by
  intro n
  induction n with
  | zero =>
    intro h
    cases h
  | succ n ih =>
    intro h
    rw [freeBelow_succ] at h
    by_cases hlt : j < freeBelow white n
    · obtain ⟨i, hi, hfree, hj⟩ := ih hlt
      exact ⟨i, by omega, hfree, hj⟩
    · cases hbit : white.testBit n with
      | true =>
        rw [hbit, if_pos rfl] at h
        omega
      | false =>
        rw [hbit] at h
        simp only [Bool.false_eq_true, if_false] at h
        exact ⟨n, Nat.lt_succ_self n, hbit, by omega⟩

theorem collapse_uncollapse {white compact : Nat} (hwhite : white < 2 ^ 24)
    (hcompact : compact < 2 ^ freeBelow white 24) :
    collapse (uncollapse (white ||| (compact <<< 24))) = compact := by
  have hlt : compact < 2 ^ 24 :=
    hcompact.trans_le (Nat.pow_le_pow_right (by decide) (freeBelow_le white 24))
  obtain ⟨hw, hblack⟩ := uncollapse_halves hwhite hlt
  obtain ⟨s, hs, hsb⟩ := collapsed_collapse (uncollapse (white ||| (compact <<< 24)))
  rw [hw] at hs
  rw [← hsb]
  refine Nat.eq_of_testBit_eq fun j => ?_
  rcases Nat.lt_or_ge j (freeBelow white 24) with hj | hj
  · obtain ⟨i, hi, hfree, rfl⟩ := exists_freeBelow_eq white 24 hj
    have hbit := hblack.bits i hi
    rw [hs.bits i hi hfree, hbit, hfree]
    rfl
  · have hpow : 2 ^ freeBelow white 24 ≤ 2 ^ j := Nat.pow_le_pow_right (by decide) hj
    have hresult := hs.lt
    rw [Nat.testBit_lt_two_pow (by omega), Nat.testBit_lt_two_pow (by omega)]

theorem uncollapse_collapse {board : Nat} (hlt : board < 2 ^ 48)
    (hd : whiteHalf board &&& blackHalf board = 0) :
    uncollapse (whiteHalf board ||| (collapse board <<< 24)) = board := by
  have hcompact : collapse board < 2 ^ 24 :=
    (collapse_lt board).trans_le (Nat.pow_le_pow_right (by decide) (Nat.sub_le _ _))
  obtain ⟨hw, hblack⟩ := uncollapse_halves (whiteHalf_lt board) hcompact
  obtain ⟨s, hs, hsb⟩ := collapsed_collapse board
  refine board_ext (uncollapse_lt (whiteHalf_lt board) hcompact) hlt hw ?_
  refine eq_of_testBit_fin (blackHalf_lt _) (blackHalf_lt board) fun i => ?_
  have hbit := hblack.bits i.val i.isLt
  change (blackHalf _).testBit i.val = _ at hbit
  rw [hbit]
  cases hi : (whiteHalf board).testBit i.val with
  | false =>
    rw [← hs.bits i.val i.isLt hi, hsb]
    rfl
  | true =>
    have hz : (whiteHalf board &&& blackHalf board).testBit i.val = false := by
      rw [hd, Nat.zero_testBit]
    rw [Nat.testBit_and, hi, Bool.true_and] at hz
    rw [hz]
    rfl

/-! ## Seeds -/

/-- The least bitboard of its orbit. -/
def OrbitSeed (white : Nat) : Prop := ∀ op : SymmetryOp, white ≤ transform24 op white

instance : DecidablePred OrbitSeed :=
  fun white => inferInstanceAs (Decidable (∀ op : SymmetryOp, white ≤ transform24 op white))

/-- Two seeds of one orbit are the same. -/
theorem OrbitSeed.eq {a b : Nat} (hlt : a < 2 ^ 24) (ha : OrbitSeed a) (hb : OrbitSeed b)
    (h : SameOrbit transform24 a b) : a = b := by
  obtain ⟨op, hop⟩ := h
  obtain ⟨op', hop'⟩ := transform24_closed.symm hlt ⟨op, hop⟩
  have hab := ha op
  have hba := hb op'
  rw [hop] at hab
  rw [hop'] at hba
  omega

theorem pairwise_combinationMasks {universeSize : Nat} (h : universeSize ≤ 24) (count : Nat) :
    (combinationMasks universeSize count).Pairwise (· < ·) := by
  rw [combinationMasks_eq]
  exact (nextChoose_stepsThrough h count).pairwise_iterateBelow _ _
    (fun _ => Gosper.popcount_two_pow_sub_one count) (by omega)

/-- The masks still to come are ascending, all others have their entries, and the seeds so
far are the least of their orbits. -/
structure SeedsLeast (whiteCount : Nat) (tables : WhiteTables) (masks : List Nat) : Prop where
  ascending : masks.Pairwise (· < ·)
  counts : ∀ white ∈ masks, white < 2 ^ 24 ∧ countOnes white = whiteCount
  others : ∀ white, white < 2 ^ 24 → countOnes white = whiteCount → white ∉ masks →
    (tables.lookup white).isSome = true
  least : ∀ seed ∈ tables.inverse, OrbitSeed seed

theorem addSeed_inverse {tables tables' : WhiteTables} {white : Nat}
    (h : addSeed tables white = some tables') :
    (tables.lookup white).isSome = true ∧ tables' = tables ∨
      (tables.lookup white).isSome = false ∧ tables'.inverse = tables.inverse ++ [white] := by
  unfold addSeed at h
  split at h
  · rename_i hsome
    exact .inl ⟨hsome, (Option.some.inj h).symm⟩
  · rename_i hnone
    obtain ⟨lookup, -, hlookup⟩ := Option.bind_eq_some_iff.1 h
    refine .inr ⟨Bool.eq_false_iff.2 hnone, ?_⟩
    rw [← Option.some.inj hlookup]

theorem SeedsLeast.step {whiteCount white : Nat} {tables tables' : WhiteTables} {masks : List Nat}
    (hok : TablesOk whiteCount tables) (h : SeedsLeast whiteCount tables (white :: masks))
    (hstep : addSeed tables white = some tables') : SeedsLeast whiteCount tables' masks := by
  obtain ⟨hlt, hcount⟩ := h.counts white List.mem_cons_self
  obtain ⟨tables'', hstep', -, hentered, hkeep⟩ := hok.addSeed hlt hcount
  obtain rfl : tables' = tables'' := Option.some.inj (hstep.symm.trans hstep')
  obtain ⟨hbelow, hascending⟩ := List.pairwise_cons.1 h.ascending
  refine ⟨hascending, fun other hmem => h.counts other (List.mem_cons_of_mem _ hmem), ?_, ?_⟩
  · intro other hother hcount' hnot
    by_cases heq : other = white
    · rw [heq]
      exact hentered
    · refine hkeep other (h.others other hother hcount' ?_)
      rw [List.mem_cons, not_or]
      exact ⟨heq, hnot⟩
  · rcases addSeed_inverse hstep with ⟨-, rfl⟩ | ⟨hnone, hinverse⟩
    · exact h.least
    · intro seed hseed
      rw [hinverse, List.mem_append, List.mem_singleton] at hseed
      rcases hseed with hold | rfl
      · exact h.least seed hold
      · -- a smaller image would have its entry already, and then so would the seed
        intro op
        by_contra hless
        have hnot : transform24 op seed ∉ seed :: masks := by
          rw [List.mem_cons, not_or]
          refine ⟨by omega, fun hmem => ?_⟩
          have := hbelow _ hmem
          omega
        have hsome := h.others _ (transform24_lt op seed)
          ((countOnes_transform24 op hlt).trans hcount) hnot
        rw [hok.fresh hlt (Option.not_isSome_iff_eq_none.1 (Bool.eq_false_iff.1 hnone)) op] at hsome
        cases hsome

theorem seedsLeast_foldlM {whiteCount : Nat} (masks : List Nat) : ∀ tables tables' : WhiteTables,
    TablesOk whiteCount tables → SeedsLeast whiteCount tables masks →
      masks.foldlM addSeed tables = some tables' → ∀ seed ∈ tables'.inverse, OrbitSeed seed := by
  induction masks with
  | nil =>
    intro tables tables' _ h heq
    obtain rfl := Option.some.inj heq
    exact h.least
  | cons white masks ih =>
    intro tables tables' hok h heq
    rw [List.foldlM_cons] at heq
    obtain ⟨next, hnext, hrest⟩ := Option.bind_eq_some_iff.1 heq
    obtain ⟨hlt, hcount⟩ := h.counts white List.mem_cons_self
    obtain ⟨next', hnext', hok', -⟩ := hok.addSeed hlt hcount
    obtain rfl : next = next' := Option.some.inj (hnext.symm.trans hnext')
    exact ih next tables' hok' (h.step hok hnext) hrest

/-- The seeds are the least bitboards of their orbits. -/
theorem seed_of_buildWhiteLookup {whiteCount : Nat} {tables : WhiteTables}
    (h : buildWhiteLookup whiteCount = some tables) : ∀ seed ∈ tables.inverse, OrbitSeed seed := by
  refine seedsLeast_foldlM _ _ tables (TablesOk.init whiteCount) ?_ h
  refine ⟨pairwise_combinationMasks (Nat.le_refl 24) whiteCount,
    fun white hmem => (mem_combinationMasks_board whiteCount white).1 hmem, ?_, by simp⟩
  intro white hlt hcount hnot
  exact absurd ((mem_combinationMasks_board whiteCount white).2 ⟨hlt, hcount⟩) hnot

theorem seed_of_new {whiteCount blackCount : Nat} {hasher : PerfectHasher}
    (h : PerfectHasher.new whiteCount blackCount = some hasher) :
    ∀ seed ∈ hasher.whiteInverse, OrbitSeed seed := by
  unfold PerfectHasher.new at h
  obtain ⟨-, -, h⟩ := Option.bind_eq_some_iff.1 h
  obtain ⟨-, -, h⟩ := Option.bind_eq_some_iff.1 h
  obtain ⟨tables, hbuild, h⟩ := Option.bind_eq_some_iff.1 h
  rw [← Option.some.inj h]
  exact seed_of_buildWhiteLookup hbuild

/-! ## Indices and boards -/

/-- A board of the sector whose white half is the seed of its orbit. -/
structure SeedBoard (whiteCount blackCount board : Nat) : Prop where
  sector : BoardOf whiteCount blackCount board
  seed : OrbitSeed (whiteHalf board)

section Indices

variable {whiteCount blackCount : Nat} {hasher : PerfectHasher}
  (hnew : PerfectHasher.new whiteCount blackCount = some hasher)
  (h : HasherOk whiteCount blackCount hasher)
include hnew h

theorem inverseBoard_eq_some {index : Nat} (hindex : index < hasher.hashCount) :
    ∃ board, hasher.inverseBoard index = some board ∧ SeedBoard whiteCount blackCount board ∧
      hasher.directHashIndex board = some index := by
  obtain ⟨orbitIndex, htables⟩ := h.tables
  have hle := h.le
  have hpos : 0 < hasher.positionsPerWhite := by
    rcases Nat.eq_zero_or_pos hasher.positionsPerWhite with hzero | hpos
    · rw [PerfectHasher.hashCount, hzero, Nat.mul_zero] at hindex
      cases hindex
    · exact hpos
  have hrow : index / hasher.positionsPerWhite < hasher.whiteInverse.length :=
    (Nat.div_lt_iff_lt_mul hpos).2 hindex
  have hplace : index % hasher.positionsPerWhite < hasher.blackInverse.length := by
    rw [← h.positions]
    exact Nat.mod_lt _ hpos
  have hwhite := List.getElem?_eq_getElem hrow
  have hcompact := List.getElem?_eq_getElem hplace
  generalize hasher.whiteInverse[index / hasher.positionsPerWhite] = white at hwhite
  generalize hasher.blackInverse[index % hasher.positionsPerWhite] = compact at hcompact
  obtain ⟨hlt, hcount⟩ := htables.seeds white (List.mem_of_getElem? hwhite)
  -- the compact black mask fits into the points white leaves free
  have hmask := List.mem_of_getElem? hcompact
  rw [h.blackInverse, mem_combinationMasks (by omega)] at hmask
  obtain ⟨hpop, hfits⟩ := hmask
  have hfree : freeBelow white 24 = 24 - whiteCount := by
    rw [freeBelow_eq_sub, length_filter_testBit hlt, hcount]
  rw [← hfree] at hfits
  have hcompactlt : compact < 2 ^ 24 :=
    hfits.trans_le (Nat.pow_le_pow_right (by decide) (freeBelow_le white 24))
  obtain ⟨hhalf, -⟩ := uncollapse_halves hlt hcompactlt
  have hdisjoint := uncollapse_disjoint hlt hcompactlt
  have hcollapse := collapse_uncollapse hlt hfits
  have hblack : countOnes (blackHalf (uncollapse (white ||| (compact <<< 24)))) = blackCount := by
    rw [← popcount_collapse hdisjoint, hcollapse, hpop]
  have hsector : BoardOf whiteCount blackCount (uncollapse (white ||| (compact <<< 24))) :=
    ⟨uncollapse_lt hlt hcompactlt, by rw [hhalf, hcount], hblack, hdisjoint⟩
  refine ⟨uncollapse (white ||| (compact <<< 24)), ?_, ⟨hsector, ?_⟩, ?_⟩
  · simp only [PerfectHasher.inverseBoard, guard, if_pos hindex, hwhite, hcompact, Option.pure_def,
      Option.bind_eq_bind, Option.bind_some]
  · rw [hhalf]
    exact seed_of_new hnew white (List.mem_of_getElem? hwhite)
  · obtain ⟨entry, hentry, hentryIndex⟩ := htables.image _ white hwhite identityOp
    rw [transform24_identity hlt, ← hhalf] at hentry
    have hrank : hasher.blackRank (collapse (uncollapse (white ||| (compact <<< 24)))) =
        some (index % hasher.positionsPerWhite) := by
      rw [hcollapse, h.blackRank, collectRanks_eq_some, hcompact]
      rw [h.blackInverse]
      exact nodup_combinationMasks (by omega) blackCount
    have hwhiteCount : countOnes (uncollapse (white ||| (compact <<< 24)) &&& mask24) =
        hasher.whiteCount := hsector.white.trans h.whiteCount_eq.symm
    have hblackCount : countOnes ((uncollapse (white ||| (compact <<< 24)) >>> 24) &&& mask24) =
        hasher.blackCount := hsector.black.trans h.blackCount_eq.symm
    have hapart : (uncollapse (white ||| (compact <<< 24)) &&& mask24) &&&
        ((uncollapse (white ||| (compact <<< 24)) >>> 24) &&& mask24) = 0 := hdisjoint
    have hlookup : hasher.whiteLookup (uncollapse (white ||| (compact <<< 24)) &&& mask24) =
        some entry := hentry
    simp only [PerfectHasher.directHashIndex, guard, if_pos hwhiteCount, if_pos hblackCount,
      if_pos hapart, hlookup, hrank, Option.pure_def, Option.bind_eq_bind, Option.bind_some,
      hentryIndex]
    rw [Nat.div_add_mod']

theorem directHashIndex_eq_some {board : Nat} (hboard : SeedBoard whiteCount blackCount board) :
    ∃ index, hasher.directHashIndex board = some index ∧ index < hasher.hashCount ∧
      hasher.inverseBoard index = some board := by
  obtain ⟨orbitIndex, htables⟩ := h.tables
  obtain ⟨entry, hentry⟩ := h.total _ (whiteHalf_lt board) hboard.sector.white
  obtain ⟨-, seed, hseed, horbit, -⟩ := htables.entry _ entry hentry
  -- the seed of the orbit is the white half itself
  obtain rfl : whiteHalf board = seed := hboard.seed.eq (whiteHalf_lt board)
    (seed_of_new hnew seed (List.mem_of_getElem? hseed)) horbit
  obtain ⟨rank, hrank, hcompact⟩ := exists_rank h hboard.sector
  have hrow : entry.index + 1 ≤ hasher.whiteInverse.length := (List.getElem?_eq_some_iff.1 hseed).1
  have hlt : rank < hasher.positionsPerWhite := by
    rw [h.positions]
    exact (List.getElem?_eq_some_iff.1 hcompact).1
  have hindex : entry.index * hasher.positionsPerWhite + rank < hasher.hashCount := by
    have hmul := Nat.mul_le_mul_right hasher.positionsPerWhite hrow
    rw [Nat.succ_mul] at hmul
    rw [PerfectHasher.hashCount]
    omega
  have hdiv : (entry.index * hasher.positionsPerWhite + rank) / hasher.positionsPerWhite =
      entry.index := by
    rw [Nat.mul_comm, Nat.mul_add_div (by omega), Nat.div_eq_of_lt hlt, Nat.add_zero]
  have hmod : (entry.index * hasher.positionsPerWhite + rank) % hasher.positionsPerWhite
      = rank := by
    rw [Nat.mul_comm, Nat.mul_add_mod, Nat.mod_eq_of_lt hlt]
  refine ⟨entry.index * hasher.positionsPerWhite + rank, ?_, hindex, ?_⟩
  · have hwhiteCount : countOnes (board &&& mask24) = hasher.whiteCount :=
      hboard.sector.white.trans h.whiteCount_eq.symm
    have hblackCount : countOnes ((board >>> 24) &&& mask24) = hasher.blackCount :=
      hboard.sector.black.trans h.blackCount_eq.symm
    have hapart : (board &&& mask24) &&& ((board >>> 24) &&& mask24) = 0 := hboard.sector.disjoint
    have hlookup : hasher.whiteLookup (board &&& mask24) = some entry := hentry
    simp only [PerfectHasher.directHashIndex, guard, if_pos hwhiteCount, if_pos hblackCount,
      if_pos hapart, hlookup, hrank, Option.pure_def, Option.bind_eq_bind, Option.bind_some]
  · simp only [PerfectHasher.inverseBoard, guard, if_pos hindex, hdiv, hmod, hseed, hcompact,
      Option.pure_def, Option.bind_eq_bind, Option.bind_some]
    rw [uncollapse_collapse hboard.sector.lt hboard.sector.disjoint]

omit hnew in
/-- The canonical board is the one that is stored at the index of the probe. -/
theorem Probed.inverseBoard {board : Nat} {probe : HashProbe}
    (hboard : BoardOf whiteCount blackCount board) (hp : Probed hasher board probe) :
    hasher.inverseBoard probe.index = some probe.canonicalBoard := by
  have hcanonical := hp.canonical_board hboard
  obtain ⟨entry, seed, rank, -, hseed, hleast, hcompact, hsum⟩ := hp.parts
  have hwhite : whiteHalf probe.canonicalBoard = seed := hleast.1.2
  have hrow : entry.index + 1 ≤ hasher.whiteInverse.length := (List.getElem?_eq_some_iff.1 hseed).1
  have hlt : rank < hasher.positionsPerWhite := by
    rw [h.positions]
    exact (List.getElem?_eq_some_iff.1 hcompact).1
  have hindex : probe.index < hasher.hashCount := by
    have hmul := Nat.mul_le_mul_right hasher.positionsPerWhite hrow
    rw [Nat.succ_mul] at hmul
    rw [PerfectHasher.hashCount]
    omega
  have hdiv : probe.index / hasher.positionsPerWhite = entry.index := by
    rw [hsum, Nat.mul_comm, Nat.mul_add_div (by omega), Nat.div_eq_of_lt hlt, Nat.add_zero]
  have hmod : probe.index % hasher.positionsPerWhite = rank := by
    rw [hsum, Nat.mul_comm, Nat.mul_add_mod, Nat.mod_eq_of_lt hlt]
  simp only [PerfectHasher.inverseBoard, guard, if_pos hindex, hdiv, hmod, hseed, hcompact,
    Option.pure_def, Option.bind_eq_bind, Option.bind_some]
  rw [← hwhite, uncollapse_collapse hcanonical.lt hcanonical.disjoint]

/-- There are as many boards as indices. -/
theorem ncard_seedBoard :
    Set.ncard {board | SeedBoard whiteCount blackCount board} = hasher.hashCount := by
  have himage : {board | SeedBoard whiteCount blackCount board} =
      (fun index => (hasher.inverseBoard index).getD 0) '' ↑(Finset.range hasher.hashCount) := by
    ext board
    rw [Set.mem_ofPred_eq, Set.mem_image]
    constructor
    · intro hboard
      obtain ⟨index, -, hlt, hinverse⟩ := directHashIndex_eq_some hnew h hboard
      exact ⟨index, Finset.mem_coe.2 (Finset.mem_range.2 hlt), by rw [hinverse, Option.getD_some]⟩
    · rintro ⟨index, hmem, rfl⟩
      obtain ⟨board, hinverse, hboard, -⟩ :=
        inverseBoard_eq_some hnew h (Finset.mem_range.1 (Finset.mem_coe.1 hmem))
      rw [hinverse, Option.getD_some]
      exact hboard
  rw [himage, Set.InjOn.ncard_image, Set.ncard_coe_finset, Finset.card_range]
  intro a ha b hb heq
  obtain ⟨boarda, hinversea, -, hdirecta⟩ :=
    inverseBoard_eq_some hnew h (Finset.mem_range.1 (Finset.mem_coe.1 ha))
  obtain ⟨boardb, hinverseb, -, hdirectb⟩ :=
    inverseBoard_eq_some hnew h (Finset.mem_range.1 (Finset.mem_coe.1 hb))
  simp only [hinversea, hinverseb, Option.getD_some] at heq
  rw [heq, hdirectb] at hdirecta
  exact (Option.some.inj hdirecta).symm

end Indices

/-- Indices below the hash count and boards over an orbit seed, one to one. -/
theorem inverseBoard_bijection {whiteCount blackCount : Nat} (hle : whiteCount + blackCount ≤ 24) :
    ∃ hasher, PerfectHasher.new whiteCount blackCount = some hasher ∧
      (∀ index, index < hasher.hashCount → ∃ board, hasher.inverseBoard index = some board ∧
        SeedBoard whiteCount blackCount board ∧ hasher.directHashIndex board = some index) ∧
      (∀ board, SeedBoard whiteCount blackCount board → ∃ index,
        hasher.directHashIndex board = some index ∧ index < hasher.hashCount ∧
          hasher.inverseBoard index = some board) ∧
      Set.ncard {board | SeedBoard whiteCount blackCount board} = hasher.hashCount := by
  obtain ⟨hasher, hnew, h⟩ := new_eq_some hle
  exact ⟨hasher, hnew, fun _ hindex => inverseBoard_eq_some hnew h hindex,
    fun _ hboard => directHashIndex_eq_some hnew h hboard, ncard_seedBoard hnew h⟩

/-- One stone of each colour: four kinds of points, and 23 places for the other stone. -/
theorem inverseBoard_bijection_one_one : Set.ncard {board | SeedBoard 1 1 board} = 92 := by
  obtain ⟨hasher, hnew, -, -, hcard⟩ := inverseBoard_bijection (by decide : 1 + 1 ≤ 24)
  have hcount : (PerfectHasher.new 1 1).map PerfectHasher.hashCount = some 92 := by decide +kernel
  rw [hnew, Option.map_some] at hcount
  rw [hcard, Option.some.inj hcount]

end Sanmill.PerfectDb
