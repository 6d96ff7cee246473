import Sanmill.Proof.PerfectDb.WhiteLookup

/-!
# One index for each orbit

`hash_probe` folds a board onto the least of its images whose white half is the seed of
the white orbit, and numbers that board by its seed and by the rank of its squeezed
black half. Two boards of a sector have the same index exactly when one is an image of
the other: the least image does not depend on where the orbit is entered, and seed and
rank give it back.
-/

namespace Sanmill.PerfectDb

open Orbit

/-- A board of the sector of `whiteCount` and `blackCount` stones. -/
structure BoardOf (whiteCount blackCount board : Nat) : Prop where
  lt : board < 2 ^ 48
  white : countOnes (whiteHalf board) = whiteCount
  black : countOnes (blackHalf board) = blackCount
  disjoint : whiteHalf board &&& blackHalf board = 0

theorem BoardOf.transform {whiteCount blackCount board : Nat}
    (h : BoardOf whiteCount blackCount board) (op : SymmetryOp) :
    BoardOf whiteCount blackCount (transform48 op board) where
  lt := transform48_lt op board
  white := by
    rw [whiteHalf_transform48, countOnes_transform24 op (whiteHalf_lt board), h.white]
  black := by
    rw [blackHalf_transform48, countOnes_transform24 op (blackHalf_lt board), h.black]
  disjoint := by
    rw [whiteHalf_transform48, blackHalf_transform48]
    exact transform24_disjoint op h.disjoint

/-! ## The hasher -/

/-- The tables of a hasher that was built. -/
structure HasherOk (whiteCount blackCount : Nat) (hasher : PerfectHasher) : Prop where
  whiteCount_eq : hasher.whiteCount = whiteCount
  blackCount_eq : hasher.blackCount = blackCount
  le : whiteCount + blackCount ≤ 24
  tables : ∃ orbitIndex, TablesOk whiteCount
    { lookup := hasher.whiteLookup, inverse := hasher.whiteInverse, orbitIndex := orbitIndex }
  total : ∀ white, white < 2 ^ 24 → countOnes white = whiteCount →
    ∃ entry, hasher.whiteLookup white = some entry
  blackInverse : hasher.blackInverse = combinationMasks (24 - whiteCount) blackCount
  blackRank : hasher.blackRank = collectRanks hasher.blackInverse
  positions : hasher.positionsPerWhite = hasher.blackInverse.length

/-- For counts that fit on the board the constructor does not panic. -/
theorem new_eq_some {whiteCount blackCount : Nat} (hle : whiteCount + blackCount ≤ 24) :
    ∃ hasher, PerfectHasher.new whiteCount blackCount = some hasher ∧
      HasherOk whiteCount blackCount hasher := by
  obtain ⟨tables, hbuild, hok, htotal⟩ := buildWhiteLookup_eq_some whiteCount
  have hfit : whiteCount ≤ boardPoints ∧ blackCount ≤ boardPoints := by
    rw [boardPoints]
    omega
  have hsum : whiteCount + blackCount ≤ boardPoints := hle
  refine ⟨_, by
    simp only [PerfectHasher.new, hbuild, guard, if_pos hfit, if_pos hsum]
    rfl, ?_⟩
  refine ⟨rfl, rfl, hle, ⟨tables.orbitIndex, hok⟩, htotal, rfl, rfl, ?_⟩
  show binom (24 - whiteCount) blackCount = (combinationMasks (24 - whiteCount) blackCount).length
  rw [length_combinationMasks (by omega), binom_eq_choose (by omega)]

/-! ## The least recorded image -/

theorem mem_recordedOps (transforms : Nat) (op : SymmetryOp) :
    op ∈ recordedOps transforms ↔ transforms.testBit op.val = true := by
  simp [recordedOps]

theorem foldl_min_image (board : Nat) (ops : List SymmetryOp) : ∀ start,
    let least := ops.foldl (fun canonical op => min canonical (transform48 op board)) start
    (least = start ∨ ∃ op ∈ ops, transform48 op board = least) ∧ least ≤ start ∧
      ∀ op ∈ ops, least ≤ transform48 op board := by
  induction ops with
  | nil =>
    intro start
    exact ⟨.inl rfl, Nat.le_refl _, by simp⟩
  | cons op ops ih =>
    intro start
    obtain ⟨hfrom, hle, hall⟩ := ih (min start (transform48 op board))
    refine ⟨?_, ?_, ?_⟩
    · rcases hfrom with heq | ⟨op', hop', heq⟩
      · rcases Nat.le_total start (transform48 op board) with h | h
        · left
          exact heq.trans (Nat.min_eq_left h)
        · right
          exact ⟨op, List.mem_cons_self, (heq.trans (Nat.min_eq_right h)).symm⟩
      · exact .inr ⟨op', List.mem_cons_of_mem _ hop', heq⟩
    · exact hle.trans (Nat.min_le_left _ _)
    · intro op' hop'
      rcases List.mem_cons.1 hop' with rfl | hop'
      · exact hle.trans (Nat.min_le_right _ _)
      · exact hall op' hop'

/-- Where the recorded operations are those into the seed, the fold finds the least
candidate. -/
theorem minImage_isLeast {transforms seed board : Nat}
    (hops : ∀ op : SymmetryOp, transforms.testBit op.val = true ↔
      transform24 op (whiteHalf board) = seed)
    (hsome : SameOrbit transform24 (whiteHalf board) seed) :
    IsLeast (candidates transform48 whiteHalf seed board) (minImage transforms board) := by
  obtain ⟨hfrom, hle, hall⟩ := foldl_min_image board (recordedOps transforms) (2 ^ 64 - 1)
  constructor
  · rcases hfrom with heq | ⟨op, hop, heq⟩
    · -- the start value is larger than every image
      exfalso
      obtain ⟨op, hop⟩ := hsome
      have himage := hall op ((mem_recordedOps _ _).2 ((hops op).2 hop))
      have hlt := transform48_lt op board
      omega
    · refine ⟨⟨op, heq⟩, ?_⟩
      rw [mem_recordedOps, hops] at hop
      rw [minImage, ← heq, whiteHalf_transform48, hop]
  · rintro c ⟨⟨op, rfl⟩, hc⟩
    refine hall op ((mem_recordedOps _ _).2 ((hops op).2 ?_))
    rwa [whiteHalf_transform48] at hc

/-! ## Probing -/

/-- What `hash_probe` answers: the orbit, the seed and the rank behind an index. -/
structure Probed (hasher : PerfectHasher) (board : Nat) (probe : HashProbe) : Prop where
  result : hasher.hashProbe board = some probe
  parts : ∃ entry seed rank, hasher.whiteLookup (whiteHalf board) = some entry ∧
    hasher.whiteInverse[entry.index]? = some seed ∧
    IsLeast (candidates transform48 whiteHalf seed board) probe.canonicalBoard ∧
    hasher.blackInverse[rank]? = some (collapse probe.canonicalBoard) ∧
    probe.index = entry.index * hasher.positionsPerWhite + rank

/-- The canonical board lies in the sector. -/
theorem Probed.canonical_board {whiteCount blackCount board : Nat} {hasher : PerfectHasher}
    (hboard : BoardOf whiteCount blackCount board) {probe : HashProbe}
    (hp : Probed hasher board probe) :
    BoardOf whiteCount blackCount probe.canonicalBoard := by
  obtain ⟨_, _, _, _, _, hleast, _⟩ := hp.parts
  obtain ⟨⟨op, hop⟩, _⟩ := hleast.1
  rw [← hop]
  exact hboard.transform op

section Probe

variable {whiteCount blackCount : Nat} {hasher : PerfectHasher}
  (h : HasherOk whiteCount blackCount hasher)
include h

/-- Every squeezed black half has a rank. -/
theorem exists_rank {board : Nat} (hboard : BoardOf whiteCount blackCount board) :
    ∃ rank, hasher.blackRank (collapse board) = some rank ∧
      hasher.blackInverse[rank]? = some (collapse board) := by
  have hmem : collapse board ∈ hasher.blackInverse := by
    rw [h.blackInverse, mem_combinationMasks (by omega)]
    refine ⟨?_, ?_⟩
    · rw [popcount_collapse hboard.disjoint, hboard.black]
    · have hlt := collapse_lt board
      rwa [hboard.white] at hlt
  obtain ⟨rank, hrank⟩ := List.mem_iff_getElem?.1 hmem
  have hnodup : hasher.blackInverse.Nodup := by
    rw [h.blackInverse]
    exact nodup_combinationMasks (by omega) blackCount
  refine ⟨rank, ?_, hrank⟩
  rw [h.blackRank, collectRanks_eq_some hnodup]
  exact hrank

/-- On the boards of its sector `hash_probe` does not panic. -/
theorem exists_probed {board : Nat} (hboard : BoardOf whiteCount blackCount board) :
    ∃ probe, Probed hasher board probe := by
  obtain ⟨orbitIndex, htables⟩ := h.tables
  obtain ⟨entry, hentry⟩ := h.total _ (whiteHalf_lt board) hboard.white
  obtain ⟨_, seed, hseed, horbit, hops⟩ := htables.entry _ entry hentry
  have hleast := minImage_isLeast hops horbit
  -- the canonical board is an image, so it lies in the sector too
  have hcanonical : BoardOf whiteCount blackCount (minImage entry.transformsToCanonical board) := by
    obtain ⟨⟨op, hop⟩, _⟩ := hleast.1
    rw [← hop]
    exact hboard.transform op
  obtain ⟨rank, hrank, hinverse⟩ := exists_rank h hcanonical
  have hne : entry.transformsToCanonical ≠ 0 := by
    intro hzero
    obtain ⟨op, hop⟩ := horbit
    have hbit := (hops op).2 hop
    rw [hzero, Nat.zero_testBit] at hbit
    cases hbit
  have hdebug : ∀ op ∈ recordedOps entry.transformsToCanonical,
      transform48 op board &&& mask24 = seed := by
    intro op hop
    rw [mem_recordedOps, hops] at hop
    have hwhite := whiteHalf_transform48 op board
    rw [hop] at hwhite
    exact hwhite
  refine ⟨⟨entry.index * hasher.positionsPerWhite + rank,
    minImage entry.transformsToCanonical board⟩, ?_, entry, seed, rank, hentry, hseed, hleast,
    hinverse, rfl⟩
  have hwhite : countOnes (board &&& mask24) = hasher.whiteCount :=
    hboard.white.trans h.whiteCount_eq.symm
  have hblack : countOnes ((board >>> 24) &&& mask24) = hasher.blackCount :=
    hboard.black.trans h.blackCount_eq.symm
  have hdisjoint : (board &&& mask24) &&& ((board >>> 24) &&& mask24) = 0 := hboard.disjoint
  have hlookup : hasher.whiteLookup (board &&& mask24) = some entry := hentry
  have hinverse' : hasher.whiteInverse[entry.index]? = some seed := hseed
  simp only [PerfectHasher.hashProbe, guard, if_pos hwhite, if_pos hblack,
    if_pos hdisjoint, hlookup,
    hinverse', if_pos hne, if_pos hboard.lt, if_pos hdebug, hrank, Option.pure_def,
    Option.bind_eq_bind, Option.bind_some]

/-- The same canonical board, exactly for the images of one another. -/
theorem canonicalBoard_eq_iff {a b : Nat} (ha : BoardOf whiteCount blackCount a)
    (hb : BoardOf whiteCount blackCount b) {pa pb : HashProbe} (hpa : Probed hasher a pa)
    (hpb : Probed hasher b pb) :
    pa.canonicalBoard = pb.canonicalBoard ↔ SameOrbit transform48 a b := by
  obtain ⟨orbitIndex, htables⟩ := h.tables
  obtain ⟨ea, sa, _, hea, hsa, hleasta, _⟩ := hpa.parts
  obtain ⟨eb, sb, _, heb, hsb, hleastb, _⟩ := hpb.parts
  refine transform48_closed.least_eq_iff ha.lt hb.lt hleasta hleastb ?_
  -- white halves of one orbit have one entry index, hence one seed
  rintro ⟨op, rfl⟩
  have hindex : ea.index = eb.index := by
    rw [htables.index_eq_iff hea heb]
    exact ⟨op, (whiteHalf_transform48 op a).symm⟩
  rw [hindex, hsb, Option.some_inj] at hsa
  exact hsa.symm

/-- The index determines the canonical board. -/
theorem index_eq_iff_canonicalBoard_eq {a b : Nat} (ha : BoardOf whiteCount blackCount a)
    (hb : BoardOf whiteCount blackCount b) {pa pb : HashProbe} (hpa : Probed hasher a pa)
    (hpb : Probed hasher b pb) :
    pa.index = pb.index ↔ pa.canonicalBoard = pb.canonicalBoard := by
  obtain ⟨orbitIndex, htables⟩ := h.tables
  have hca := hpa.canonical_board ha
  have hcb := hpb.canonical_board hb
  have horbits := canonicalBoard_eq_iff h ha hb hpa hpb
  obtain ⟨ea, sa, ra, hea, hsa, hleasta, hra, hia⟩ := hpa.parts
  obtain ⟨eb, sb, rb, heb, hsb, hleastb, hrb, hib⟩ := hpb.parts
  have hlta : ra < hasher.positionsPerWhite := by
    rw [h.positions]
    exact (List.getElem?_eq_some_iff.1 hra).1
  have hltb : rb < hasher.positionsPerWhite := by
    rw [h.positions]
    exact (List.getElem?_eq_some_iff.1 hrb).1
  have hpos : 0 < hasher.positionsPerWhite := by omega
  constructor
  · intro heq
    rw [hia, hib] at heq
    -- quotient and remainder of the index
    have hdiv : ∀ e r, r < hasher.positionsPerWhite →
        (e * hasher.positionsPerWhite + r) / hasher.positionsPerWhite = e := by
      intro e r hr
      rw [Nat.mul_comm, Nat.mul_add_div hpos, Nat.div_eq_of_lt hr, Nat.add_zero]
    have hindex : ea.index = eb.index := by
      rw [← hdiv ea.index ra hlta, heq, hdiv eb.index rb hltb]
    have hrank : ra = rb := by
      rw [hindex] at heq
      omega
    have hcollapse : collapse pa.canonicalBoard = collapse pb.canonicalBoard := by
      rw [hrank, hrb, Option.some_inj] at hra
      exact hra.symm
    have hseed : sa = sb := by
      rw [hindex, hsb, Option.some_inj] at hsa
      exact hsa.symm
    have hwhite : whiteHalf pa.canonicalBoard = whiteHalf pb.canonicalBoard := by
      rw [hleasta.1.2, hleastb.1.2, hseed]
    exact collapse_injective hca.lt hcb.lt hwhite hca.disjoint hcb.disjoint hcollapse
  · intro heq
    obtain ⟨op, hop⟩ := horbits.1 heq
    have hindex : ea.index = eb.index := by
      rw [htables.index_eq_iff hea heb]
      exact ⟨op, by rw [← hop, whiteHalf_transform48]⟩
    have hnodup : hasher.blackInverse.Nodup := by
      rw [h.blackInverse]
      exact nodup_combinationMasks (by omega) blackCount
    have hrank : ra = rb := by
      rw [heq] at hra
      exact (List.getElem?_inj (List.getElem?_eq_some_iff.1 hra).1 hnodup).1 (hra.trans hrb.symm)
    rw [hia, hib, hindex, hrank]

theorem index_eq_iff {a b : Nat} (ha : BoardOf whiteCount blackCount a)
    (hb : BoardOf whiteCount blackCount b) {pa pb : HashProbe} (hpa : Probed hasher a pa)
    (hpb : Probed hasher b pb) : pa.index = pb.index ↔ SameOrbit transform48 a b :=
  (index_eq_iff_canonicalBoard_eq h ha hb hpa hpb).trans (canonicalBoard_eq_iff h ha hb hpa hpb)

/-- An index is a slot of the sector. -/
theorem Probed.index_lt {board : Nat} {probe : HashProbe} (hp : Probed hasher board probe) :
    probe.index < hasher.hashCount := by
  obtain ⟨entry, seed, rank, _, hseed, _, hrank, hindex⟩ := hp.parts
  have hrow : entry.index + 1 ≤ hasher.whiteInverse.length := (List.getElem?_eq_some_iff.1 hseed).1
  have hlt : rank < hasher.positionsPerWhite := by
    rw [h.positions]
    exact (List.getElem?_eq_some_iff.1 hrank).1
  have hmul := Nat.mul_le_mul_right hasher.positionsPerWhite hrow
  rw [Nat.succ_mul] at hmul
  rw [hindex, PerfectHasher.hashCount]
  omega

end Probe

end Sanmill.PerfectDb
