import Sanmill.Proof.PerfectDb.Combinations
import Sanmill.Lib.Orbit

/-!
# The white orbit table

`build_white_lookup` walks the bitboards of a count and opens an orbit at each one no
earlier orbit holds. The tables it leaves are described by `TablesOk`: every entry
names the seed of its orbit and records exactly the operations that lead there, and
every image of a seed has an entry. The assertion of the inner loop never fails, since
an image found in an earlier orbit would have put the seed there too.
-/

namespace Sanmill.PerfectDb

open Orbit

theorem transform24_closed : ClosedFamily transform24 (fun bits => bits < 2 ^ 24) where
  valid_act := fun op bits _ => transform24_lt op bits
  comp := by
    intro a b
    obtain ⟨c, hc⟩ := exists_composite a b
    exact ⟨c, fun bits _ => (transform24_composite hc bits).symm⟩
  inv := fun op => ⟨inverseOp op, fun _ hbits => transform24_inverse op hbits⟩

theorem transform48_closed : ClosedFamily transform48 (fun board => board < 2 ^ 48) where
  valid_act := fun op board _ => transform48_lt op board
  comp := by
    intro a b
    obtain ⟨c, hc⟩ := exists_composite a b
    exact ⟨c, fun board _ => (transform48_composite hc board).symm⟩
  inv := fun op => ⟨inverseOp op, fun _ hboard => transform48_inverse op hboard⟩

/-! ## One orbit -/

/-- What the inner loop has entered for the operations `done`. -/
def ImagesEntered (start : BitboardMap WhiteEntry) (white orbitIndex : Nat)
    (done : List SymmetryOp) (lookup : BitboardMap WhiteEntry) : Prop :=
  ∀ bits,
    (lookup bits = start bits ∧ ∀ op ∈ done, transform24 op white ≠ bits) ∨
    ((∃ op ∈ done, transform24 op white = bits) ∧ ∃ entry, lookup bits = some entry ∧
      entry.index = orbitIndex ∧ ∀ k : SymmetryOp,
        entry.transformsToCanonical.testBit k.val = true ↔
          ∃ op ∈ done, inverseOp op = k ∧ transform24 op white = bits)

theorem testBit_record (transforms : Nat) (op k : SymmetryOp) :
    (transforms ||| (1 <<< (inverseOp op).val)).testBit k.val = true ↔
      transforms.testBit k.val = true ∨ inverseOp op = k := by
  rw [Nat.testBit_or, Nat.one_shiftLeft, Nat.testBit_two_pow, Bool.or_eq_true, decide_eq_true_eq,
    Fin.val_inj]

/-- The entry an operation finds belongs to the orbit at hand, and it adds its bit. -/
theorem addImage_entered {start lookup : BitboardMap WhiteEntry} {white orbitIndex : Nat}
    {done : List SymmetryOp} (hfresh : ∀ op, start (transform24 op white) = none)
    (h : ImagesEntered start white orbitIndex done lookup) (op : SymmetryOp) :
    ∃ lookup', addImage white orbitIndex lookup op = some lookup' ∧
      ImagesEntered start white orbitIndex (done ++ [op]) lookup' := by
  -- the entry read, in both cases
  obtain ⟨entry, hread, hindex, hbits⟩ : ∃ entry : WhiteEntry,
      (lookup (transform24 op white)).getD { index := orbitIndex, transformsToCanonical := 0 } =
        entry ∧ entry.index = orbitIndex ∧ ∀ k : SymmetryOp,
        entry.transformsToCanonical.testBit k.val = true ↔
          ∃ op' ∈ done, inverseOp op' = k ∧ transform24 op' white = transform24 op white := by
    rcases h (transform24 op white) with ⟨hsame, hnone⟩ | ⟨_, entry, hentry, hindex, hbits⟩
    · refine ⟨_, rfl, ?_, ?_⟩
      · rw [hsame, hfresh op]
        rfl
      · intro k
        rw [hsame, hfresh op]
        simp only [Option.getD_none, Nat.zero_testBit, Bool.false_eq_true, false_iff]
        rintro ⟨op', hop', _, heq⟩
        exact hnone op' hop' heq
    · exact ⟨entry, by rw [hentry]; rfl, hindex, hbits⟩
  rw [addImage, hread, if_pos hindex]
  refine ⟨_, rfl, ?_⟩
  intro bits
  by_cases heq : bits = transform24 op white
  · right
    subst heq
    refine ⟨⟨op, by simp, rfl⟩, _, if_pos rfl, hindex, ?_⟩
    intro k
    rw [testBit_record, hbits]
    constructor
    · rintro (⟨op', hop', hk, himage⟩ | hk)
      · exact ⟨op', by simp [hop'], hk, himage⟩
      · exact ⟨op, by simp, hk, rfl⟩
    · rintro ⟨op', hop', hk, himage⟩
      rw [List.mem_append, List.mem_singleton] at hop'
      rcases hop' with hop' | rfl
      · exact .inl ⟨op', hop', hk, himage⟩
      · exact .inr hk
  · -- another bitboard: neither its entry nor its images change
    have hkeep : lookup.insert (transform24 op white) { entry with
        transformsToCanonical := entry.transformsToCanonical ||| (1 <<< (inverseOp op).val) } bits =
        lookup bits := by
      rw [BitboardMap.insert, if_neg heq]
    rw [hkeep]
    rcases h bits with ⟨hsame, hnone⟩ | ⟨⟨op', hop', himage⟩, entry', hentry', hindex', hbits'⟩
    · left
      refine ⟨hsame, ?_⟩
      intro op' hop'
      rw [List.mem_append, List.mem_singleton] at hop'
      rcases hop' with hop' | rfl
      · exact hnone op' hop'
      · exact fun h => heq h.symm
    · right
      refine ⟨⟨op', by simp [hop'], himage⟩, entry', hentry', hindex', ?_⟩
      intro k
      rw [hbits' k]
      constructor
      · rintro ⟨op'', hop'', hk, himage''⟩
        exact ⟨op'', by simp [hop''], hk, himage''⟩
      · rintro ⟨op'', hop'', hk, himage''⟩
        rw [List.mem_append, List.mem_singleton] at hop''
        rcases hop'' with hop'' | rfl
        · exact ⟨op'', hop'', hk, himage''⟩
        · exact absurd himage''.symm heq

theorem addImage_foldlM {start : BitboardMap WhiteEntry} {white orbitIndex : Nat}
    (hfresh : ∀ op, start (transform24 op white) = none) (ops : List SymmetryOp) :
    ∀ done lookup, ImagesEntered start white orbitIndex done lookup →
      ∃ lookup', ops.foldlM (addImage white orbitIndex) lookup = some lookup' ∧
        ImagesEntered start white orbitIndex (done ++ ops) lookup' := by
  induction ops with
  | nil =>
    intro done lookup h
    exact ⟨lookup, rfl, by rwa [List.append_nil]⟩
  | cons op ops ih =>
    intro done lookup h
    obtain ⟨lookup', hstep, h'⟩ := addImage_entered hfresh h op
    obtain ⟨lookup'', hrest, h''⟩ := ih (done ++ [op]) lookup' h'
    refine ⟨lookup'', ?_, ?_⟩
    · rw [List.foldlM_cons, hstep]
      exact hrest
    · rwa [List.append_assoc, List.singleton_append] at h''

/-! ## All orbits -/

/-- The tables of `build_white_lookup`, as far as the walk has come. -/
structure TablesOk (whiteCount : Nat) (tables : WhiteTables) : Prop where
  orbitIndex : tables.orbitIndex = tables.inverse.length
  /-- The seeds are bitboards of the count. -/
  seeds : ∀ seed ∈ tables.inverse, seed < 2 ^ 24 ∧ countOnes seed = whiteCount
  /-- An entry names its seed and records the operations that lead there. -/
  entry : ∀ white entry, tables.lookup white = some entry → white < 2 ^ 24 ∧
    ∃ seed, tables.inverse[entry.index]? = some seed ∧ SameOrbit transform24 white seed ∧
      ∀ op : SymmetryOp, entry.transformsToCanonical.testBit op.val = true ↔
        transform24 op white = seed
  /-- The whole orbit of a seed is entered under its index. -/
  image : ∀ i seed, tables.inverse[i]? = some seed → ∀ op,
    ∃ entry, tables.lookup (transform24 op seed) = some entry ∧ entry.index = i

namespace TablesOk

theorem init (whiteCount : Nat) : TablesOk whiteCount
    { lookup := BitboardMap.empty, inverse := [], orbitIndex := 0 } where
  orbitIndex := rfl
  seeds := by simp
  entry := by
    intro white entry h
    cases h
  image := by simp

variable {whiteCount : Nat} {tables : WhiteTables} (h : TablesOk whiteCount tables)
include h

/-- Bitboards of one index share an orbit, and an orbit shares its index. -/
theorem index_eq_iff {a b : Nat} {ea eb : WhiteEntry} (ha : tables.lookup a = some ea)
    (hb : tables.lookup b = some eb) : ea.index = eb.index ↔ SameOrbit transform24 a b := by
  obtain ⟨hlta, seeda, hseeda, horbita, _⟩ := h.entry a ea ha
  obtain ⟨hltb, seedb, hseedb, horbitb, _⟩ := h.entry b eb hb
  constructor
  · intro heq
    rw [heq, hseedb, Option.some_inj] at hseeda
    rw [hseeda] at horbitb
    exact transform24_closed.of_common hlta hltb horbita horbitb
  · intro horbit
    have hback := transform24_closed.symm hlta horbita
    have hltseed : seeda < 2 ^ 24 := (h.seeds seeda (List.mem_of_getElem? hseeda)).1
    obtain ⟨op, hop⟩ := transform24_closed.trans hltseed hback horbit
    obtain ⟨entry, hentry, hindex⟩ := h.image ea.index seeda hseeda op
    rw [hop, hb, Option.some_inj] at hentry
    rw [hentry, hindex]

/-- A bitboard without an entry lies in no earlier orbit. -/
theorem fresh {white : Nat} (hwhite : white < 2 ^ 24) (hnone : tables.lookup white = none)
    (op : SymmetryOp) : tables.lookup (transform24 op white) = none := by
  cases hentry : tables.lookup (transform24 op white) with
  | none => rfl
  | some entry =>
    exfalso
    obtain ⟨hlt, seed, hseed, horbit, _⟩ := h.entry _ entry hentry
    have hseedlt : seed < 2 ^ 24 := (h.seeds seed (List.mem_of_getElem? hseed)).1
    have hwhole : SameOrbit transform24 white seed :=
      transform24_closed.trans hwhite ⟨op, rfl⟩ horbit
    obtain ⟨op', hop'⟩ := transform24_closed.symm hwhite hwhole
    obtain ⟨entry', hentry', _⟩ := h.image entry.index seed hseed op'
    rw [hop', hnone] at hentry'
    cases hentry'

theorem addSeed {white : Nat} (hwhite : white < 2 ^ 24) (hcount : countOnes white = whiteCount) :
    ∃ tables', PerfectDb.addSeed tables white = some tables' ∧ TablesOk whiteCount tables' ∧
      (tables'.lookup white).isSome = true ∧
      ∀ bits, (tables.lookup bits).isSome = true → (tables'.lookup bits).isSome = true := by
  rw [PerfectDb.addSeed]
  by_cases hsome : (tables.lookup white).isSome = true
  · exact ⟨tables, if_pos hsome, h, hsome, fun _ hbits => hbits⟩
  · rw [if_neg hsome]
    have hnone : tables.lookup white = none := by simpa using hsome
    have hfresh := h.fresh hwhite hnone
    obtain ⟨lookup, hloop, hentered⟩ : ∃ lookup,
        (List.finRange 16).foldlM (addImage white tables.orbitIndex) tables.lookup = some lookup ∧
          ImagesEntered tables.lookup white tables.orbitIndex ([] ++ List.finRange 16) lookup :=
      addImage_foldlM hfresh (List.finRange 16) [] tables.lookup fun bits => .inl ⟨rfl, by simp⟩
    simp only [ImagesEntered, List.nil_append, List.mem_finRange, true_and,
      forall_const] at hentered
    -- the operations into the new seed are the inverses of those out of it
    have hinto : ∀ (k : SymmetryOp) (bits : Nat), bits < 2 ^ 24 →
        ((∃ op, inverseOp op = k ∧ transform24 op white = bits) ↔ transform24 k bits = white) := by
      intro k bits hbits
      constructor
      · rintro ⟨op, rfl, rfl⟩
        exact transform24_inverse op hwhite
      · intro hk
        refine ⟨inverseOp k, inverseOp_inverseOp k, ?_⟩
        rw [← hk, transform24_inverse k hbits]
    refine ⟨_, by rw [hloop]; rfl, ?_, ?_, ?_⟩
    · refine ⟨?_, ?_, ?_, ?_⟩
      · simp [h.orbitIndex]
      · intro seed hseed
        rcases List.mem_append.1 hseed with hold | hnew
        · exact h.seeds seed hold
        · rw [List.mem_singleton.1 hnew]
          exact ⟨hwhite, hcount⟩
      · intro bits entry hentry
        rcases hentered bits with ⟨hsame, _⟩ | ⟨⟨op, rfl⟩, entry', hentry', hindex, hbits⟩
        · obtain ⟨hlt, seed, hseed, horbit, hbits⟩ :=
            h.entry bits entry (by rw [← hsame]; exact hentry)
          refine ⟨hlt, seed, ?_, horbit, hbits⟩
          obtain ⟨hi, _⟩ := List.getElem?_eq_some_iff.1 hseed
          show (tables.inverse ++ [white])[entry.index]? = some seed
          rw [List.getElem?_append_left hi, hseed]
        · have heq : entry = entry' := Option.some_inj.1 (hentry.symm.trans hentry')
          subst heq
          refine ⟨transform24_lt op white, white, ?_, transform24_closed.symm hwhite ⟨op, rfl⟩, ?_⟩
          · show (tables.inverse ++ [white])[entry.index]? = some white
            rw [hindex, h.orbitIndex, List.getElem?_append_right (Nat.le_refl _), Nat.sub_self]
            rfl
          · intro k
            rw [hbits k, hinto k _ (transform24_lt op white)]
      · intro i seed hseed op
        change (tables.inverse ++ [white])[i]? = some seed at hseed
        rcases Nat.lt_or_ge i tables.inverse.length with hi | hi
        · rw [List.getElem?_append_left hi] at hseed
          obtain ⟨entry, hentry, hindex⟩ := h.image i seed hseed op
          rcases hentered (transform24 op seed) with ⟨hsame, _⟩ | ⟨⟨op', hop'⟩, _⟩
          · exact ⟨entry, by rw [← hentry]; exact hsame, hindex⟩
          · rw [← hop', hfresh op'] at hentry
            cases hentry
        · rw [List.getElem?_append_right hi, List.getElem?_singleton] at hseed
          have hi' : i - tables.inverse.length = 0 := by
            by_contra hne
            rw [if_neg hne] at hseed
            cases hseed
          rw [if_pos hi', Option.some_inj] at hseed
          subst hseed
          rcases hentered (transform24 op white) with ⟨_, hno⟩ | ⟨_, entry, hentry, hindex, _⟩
          · exact absurd rfl (hno op)
          · exact ⟨entry, hentry, by rw [hindex, h.orbitIndex]; omega⟩
    · have hid := transform24_identity hwhite
      rcases hentered white with ⟨_, hno⟩ | ⟨_, entry, hentry, _⟩
      · exact absurd hid (hno identityOp)
      · show (lookup white).isSome = true
        rw [hentry]
        rfl
    · intro bits hbits
      show (lookup bits).isSome = true
      rcases hentered bits with ⟨hsame, _⟩ | ⟨_, entry, hentry, _⟩
      · rw [hsame]
        exact hbits
      · rw [hentry]
        rfl

end TablesOk

theorem addSeed_foldlM {whiteCount : Nat} (masks : List Nat)
    (hmasks : ∀ white ∈ masks, white < 2 ^ 24 ∧ countOnes white = whiteCount) :
    ∀ tables, TablesOk whiteCount tables →
      ∃ tables', masks.foldlM addSeed tables = some tables' ∧ TablesOk whiteCount tables' ∧
        (∀ bits, (tables.lookup bits).isSome = true → (tables'.lookup bits).isSome = true) ∧
        ∀ white ∈ masks, (tables'.lookup white).isSome = true := by
  induction masks with
  | nil =>
    intro tables h
    exact ⟨tables, rfl, h, fun _ hbits => hbits, by simp⟩
  | cons white masks ih =>
    intro tables h
    obtain ⟨hwhite, hcount⟩ := hmasks white (List.mem_cons_self)
    obtain ⟨tables', hstep, h', hentered, hkeep⟩ := h.addSeed hwhite hcount
    obtain ⟨tables'', hrest, h'', hkeep', hall⟩ :=
      ih (fun w hw => hmasks w (List.mem_cons_of_mem _ hw)) tables' h'
    refine ⟨tables'', ?_, h'', fun bits hbits => hkeep' bits (hkeep bits hbits), ?_⟩
    · rw [List.foldlM_cons, hstep]
      exact hrest
    · intro w hw
      rcases List.mem_cons.1 hw with rfl | hw
      · exact hkeep' _ hentered
      · exact hall w hw

theorem mem_combinationMasks_board (whiteCount white : Nat) :
    white ∈ combinationMasks boardPoints whiteCount ↔
      white < 2 ^ 24 ∧ countOnes white = whiteCount := by
  rw [boardPoints, mem_combinationMasks (Nat.le_refl 24)]
  constructor
  · rintro ⟨hcount, hlt⟩
    exact ⟨hlt, by rw [countOnes_eq_popcount (by omega), hcount]⟩
  · rintro ⟨hlt, hcount⟩
    exact ⟨by rw [← countOnes_eq_popcount (by omega), hcount], hlt⟩

/-- The tables are built, and every bitboard of the count has its entry. -/
theorem buildWhiteLookup_eq_some (whiteCount : Nat) :
    ∃ tables, buildWhiteLookup whiteCount = some tables ∧ TablesOk whiteCount tables ∧
      ∀ white, white < 2 ^ 24 → countOnes white = whiteCount →
        ∃ entry, tables.lookup white = some entry := by
  obtain ⟨tables, hbuild, hok, _, hall⟩ := addSeed_foldlM _
    (fun white hwhite => (mem_combinationMasks_board whiteCount white).1 hwhite) _
    (TablesOk.init whiteCount)
  refine ⟨tables, hbuild, hok, ?_⟩
  intro white hlt hcount
  exact Option.isSome_iff_exists.1
    (hall white ((mem_combinationMasks_board whiteCount white).2 ⟨hlt, hcount⟩))

end Sanmill.PerfectDb
