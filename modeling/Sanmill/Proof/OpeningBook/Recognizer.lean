import Sanmill.Proof.OpeningBook.Candidates

/-!
# Recognition on a turned board

The sixteen frames of a turned board are the frames of the board in another order. A complete
match is therefore found in some frame of either board, and the same opening represents it. A
deviation is taken from the first frame that has one, so it is the same on every turned board
exactly when all frames name the same opening and branch.
-/

namespace Sanmill.MillOpeningRecognizer

open Recorder

/-! ## The squares that each side has taken -/

section

variable {δ : Type}

theorem mem_sideMoves {m : List Text} {parity : Nat} {p : Text} :
    p ∈ sideMoves m m.length parity ↔ ∃ i, i % 2 = parity ∧ m[i]? = some p := by
  unfold sideMoves
  rw [List.mem_toFinset, List.mem_map]
  constructor
  · rintro ⟨i, hi, rfl⟩
    obtain ⟨hi, hparity⟩ := List.mem_filter.1 hi
    refine ⟨i, of_decide_eq_true hparity, ?_⟩
    rw [List.getD_eq_getElem _ _ (List.mem_range.1 hi), List.getElem?_eq_getElem]
  · rintro ⟨i, hparity, hi⟩
    obtain ⟨hlt, rfl⟩ := List.getElem?_eq_some_iff.1 hi
    exact ⟨i, List.mem_filter.2 ⟨List.mem_range.2 hlt, decide_eq_true hparity⟩,
      List.getD_eq_getElem _ _ hlt⟩

theorem sideMoves_movesIn {m : List Text} {parity : Nat} (t : TransformationType) :
    sideMoves (movesIn m t) m.length parity
      = (sideMoves m m.length parity).image fun p => transformMoveNotation p t := by
  have hlen := length_movesIn m t
  ext x
  rw [← hlen, mem_sideMoves, hlen, Finset.mem_image]
  simp only [mem_sideMoves, movesIn, List.getElem?_map, Option.map_eq_some_iff]
  constructor
  · rintro ⟨i, hparity, p, hp, rfl⟩
    exact ⟨p, ⟨i, hparity, hp⟩, rfl⟩
  · rintro ⟨p, ⟨i, hparity, hp⟩, rfl⟩
    exact ⟨i, hparity, p, hp, rfl⟩

theorem sideMoves_subset {m : List Text} {parity : Nat} :
    ∀ p ∈ sideMoves m m.length parity, p ∈ m := by
  intro p hp
  obtain ⟨i, -, hi⟩ := mem_sideMoves.1 hp
  exact List.mem_of_getElem? hi

/-- In this frame each side has taken the squares that the line gives it. -/
def Covers (m : List Text) (found : OpeningEntry δ × TransformationType) : Prop :=
  ∀ parity < 2, sideMoves (movesIn m found.2) m.length parity
    = sideMoves found.1.lineMoves m.length parity

theorem eq_of_setEquals {a b : Finset Text} (h : setEquals a b = true) : a = b := by
  obtain ⟨hcard, hsub⟩ := Bool.and_eq_true_iff.1 h
  exact (Finset.eq_of_subset_of_card_le (of_decide_eq_true hsub)
    (of_decide_eq_true hcard).le).symm

theorem FitsAsSets.covers {m : List Text} {found : OpeningEntry δ × TransformationType}
    (h : FitsAsSets m found) : Covers m found := by
  obtain ⟨hfirst, hsecond⟩ := Bool.and_eq_true_iff.1 h.2
  intro parity hparity
  have hcases : parity = 0 ∨ parity = 1 := by omega
  rcases hcases with rfl | rfl
  · exact eq_of_setEquals hfirst
  · exact eq_of_setEquals hsecond

/-- The moves before the end of the common part agree. -/
theorem getD_of_lt_commonPrefix {a b : List Text} {i : Nat} (h : i < commonPrefix a b) :
    a.getD i [] = b.getD i [] := by
  induction a generalizing b i with
  | nil => cases h
  | cons x as ih =>
    cases b with
    | nil => cases h
    | cons y bs =>
      unfold commonPrefix at h
      split at h
      · rename_i heq
        cases i with
        | zero => exact heq
        | succ i => exact ih (Nat.lt_of_succ_lt_succ h)
      · cases h

theorem FitsInOrder.covers {m : List Text} {found : OpeningEntry δ × TransformationType}
    (h : FitsInOrder m found) : Covers m found := by
  intro parity _
  unfold sideMoves
  congr 1
  refine List.map_congr_left fun i hi => ?_
  have hlt : i < m.length := List.mem_range.1 (List.mem_of_mem_filter hi)
  exact getD_of_lt_commonPrefix (by rwa [h.2])

/-- A symmetry that maps the squares of each side onto themselves. -/
def KeepsSides (m : List Text) (s : TransformationType) : Prop :=
  ∀ parity < 2, (sideMoves m m.length parity).image (fun p => transformMoveNotation p s)
    = sideMoves m m.length parity

theorem image_image (squares : Finset Text) (a b : TransformationType) :
    (squares.image fun p => transformMoveNotation p a).image (fun p => transformMoveNotation p b)
      = squares.image fun p => transformMoveNotation p (a.andThen b) := by
  rw [Finset.image_image]
  exact Finset.image_congr fun p _ => transformMoveNotation_andThen p a b

/-- From one frame that covers a line to another one, on the board that was turned by `t`. -/
def between (f t f' : TransformationType) : TransformationType :=
  (f.inverse.andThen t).inverse.andThen f'.inverse

theorem fromFrame_between (next : Text) (f t f' : TransformationType) :
    fromFrame next f'
      = transformMoveNotation (transformMoveNotation (fromFrame next f) t) (between f t f') := by
  unfold between
  rw [fromFrame_eq, fromFrame_eq, transformMoveNotation_andThen next f.inverse t,
    transformMoveNotation_andThen, andThen_inverse]

/-- Both frames put the squares of a side where the line has them. -/
theorem keepsSides_between {m : List Text} (hm : ∀ p ∈ m, p ∈ transformIndexToNotation)
    {opening : OpeningEntry δ} {t f f' : TransformationType} (h : Covers m (opening, f))
    (h' : Covers (movesIn m t) (opening, f')) : KeepsSides (movesIn m t) (between f t f') := by
  intro parity hparity
  have hline := h parity hparity
  have hline' := h' parity hparity
  rw [length_movesIn] at hline'
  rw [sideMoves_movesIn] at hline
  -- the line of the second opening, turned by its frame, gives the sides of the turned moves
  have hturned : sideMoves (movesIn (movesIn m t) f') m.length parity
      = (sideMoves (movesIn m t) m.length parity).image fun p => transformMoveNotation p f' := by
    rw [← length_movesIn m t]
    exact sideMoves_movesIn f'
  rw [hturned] at hline'
  rw [length_movesIn]
  have hback : (sideMoves (movesIn m t) m.length parity).image
        (fun p => transformMoveNotation p (f'.andThen f'.inverse))
      = sideMoves (movesIn m t) m.length parity := by
    refine (Finset.image_congr fun p hp => ?_).trans Finset.image_id'
    have hp' : p ∈ movesIn m t :=
      sideMoves_subset p (by rw [length_movesIn]; exact Finset.mem_coe.1 hp)
    obtain ⟨q, hq, rfl⟩ := List.mem_map.1 hp'
    rw [← transformMoveNotation_andThen, Recorder.transform_inverse (transform_mem (hm q hq) t)]
  -- and so does the line of the first, turned back and then by `t`
  have hforth : (sideMoves opening.lineMoves m.length parity).image
        (fun p => transformMoveNotation p (f.inverse.andThen t))
      = sideMoves (movesIn m t) m.length parity := by
    rw [← hline, image_image, andThen_inverse, sideMoves_movesIn]
  calc (sideMoves (movesIn m t) m.length parity).image
        (fun p => transformMoveNotation p (between f t f'))
      = (sideMoves opening.lineMoves m.length parity).image
          fun p => transformMoveNotation p f'.inverse := by
        rw [← hforth, image_image, between, andThen_inverse]
    _ = sideMoves (movesIn m t) m.length parity := by
        rw [← hline', image_image, hback]

end

/-! ## The same frames in another order -/

section

variable {δ : Type} {m : List Text} {opening : OpeningEntry δ} {t f : TransformationType}

theorem fitsInOrder_turned :
    FitsInOrder (movesIn m t) (opening, f) ↔ FitsInOrder m (opening, t.andThen f) := by
  unfold FitsInOrder
  rw [length_movesIn, movesIn_movesIn]

theorem fitsAsSets_turned :
    FitsAsSets (movesIn m t) (opening, f) ↔ FitsAsSets m (opening, t.andThen f) := by
  unfold FitsAsSets
  rw [length_movesIn, movesIn_movesIn]

theorem shared_turned :
    shared (movesIn m t) (opening, f) = shared m (opening, t.andThen f) := by
  unfold shared
  rw [movesIn_movesIn]

/-- What holds in some frame of the turned board holds in some frame of the board. -/
theorem exists_frame_turned {P : TransformationType → Prop} (t : TransformationType) :
    (∃ f, P (t.andThen f)) ↔ ∃ f, P f := by
  constructor
  · rintro ⟨f, hf⟩
    exact ⟨_, hf⟩
  · rintro ⟨f, hf⟩
    exact ⟨t.inverse.andThen f, by rwa [andThen_inverse]⟩

/-- Some opening fits completely in some frame. -/
def CompleteMatch (m : List Text) (openings : List (OpeningEntry δ)) : Prop :=
  ∃ opening ∈ openings, ∃ f, FitsInOrder m (opening, f) ∨ FitsAsSets m (opening, f)

/-- The longest common prefix with a line, over all frames. -/
def longestPrefix (m : List Text) (openings : List (OpeningEntry δ)) : Nat :=
  ((frames openings).map (shared m)).foldl max 0

theorem foldl_max_le {l : List Nat} {a n : Nat} :
    l.foldl max a ≤ n ↔ a ≤ n ∧ ∀ x ∈ l, x ≤ n := by
  induction l generalizing a with
  | nil => simp
  | cons x rest ih => rw [List.foldl_cons, ih, List.forall_mem_cons, max_le_iff, and_assoc]

theorem longestPrefix_le {openings : List (OpeningEntry δ)} {n : Nat} :
    longestPrefix m openings ≤ n ↔ ∀ opening ∈ openings, ∀ f, shared m (opening, f) ≤ n := by
  unfold longestPrefix
  rw [foldl_max_le]
  constructor
  · rintro ⟨-, h⟩ opening ho f
    exact h _ (List.mem_map_of_mem (mem_frames.2 ho))
  · intro h
    refine ⟨Nat.zero_le n, fun x hx => ?_⟩
    obtain ⟨⟨opening, f⟩, hp, rfl⟩ := List.mem_map.1 hx
    exact h opening (mem_frames.1 hp) f

theorem longestPrefix_turned (m : List Text) (openings : List (OpeningEntry δ))
    (t : TransformationType) : longestPrefix (movesIn m t) openings = longestPrefix m openings := by
  refine eq_of_forall_ge_iff fun n => ?_
  rw [longestPrefix_le, longestPrefix_le]
  constructor
  · intro h opening ho f
    have := h opening ho (t.inverse.andThen f)
    rwa [shared_turned, andThen_inverse] at this
  · intro h opening ho f
    rw [shared_turned]
    exact h opening ho _

theorem completeMatch_turned {openings : List (OpeningEntry δ)} (t : TransformationType) :
    CompleteMatch (movesIn m t) openings ↔ CompleteMatch m openings := by
  unfold CompleteMatch
  simp only [fitsInOrder_turned, fitsAsSets_turned]
  refine exists_congr fun opening => and_congr_right fun _ => ?_
  exact exists_frame_turned (P := fun f => FitsInOrder m (opening, f) ∨ FitsAsSets m (opening, f)) t

/-! ## Deviations, by frame -/

/-- The branch that a frame finds for the move that left the line. -/
def deviationIn (m : List Text) (openings : List (OpeningEntry δ)) (bestPrefix : Nat)
    (type : TransformationType) : Option (OpeningEntry δ × OpeningBranch) :=
  openings.findSome? fun opening =>
    if shared m (opening, type) = bestPrefix then do
      let move ← (movesIn m type)[bestPrefix]?
      let branch ← branchFor opening bestPrefix move
      some (opening, branch)
    else none

/-- The first frame decides. -/
def firstDeviation (m : List Text) (openings : List (OpeningEntry δ)) :
    Option (OpeningEntry δ × OpeningBranch) :=
  transformationTypes.findSome? (deviationIn m openings (longestPrefix m openings))

/-- All frames that find a branch name the same opening and the same branch. -/
def FramesAgree (m : List Text) (openings : List (OpeningEntry δ)) : Prop :=
  ∀ f g found found',
    deviationIn m openings (longestPrefix m openings) f = some found →
    deviationIn m openings (longestPrefix m openings) g = some found' →
    found.1.id = found'.1.id ∧ found.2.name = found'.2.name

theorem deviationIn_turned (m : List Text) (openings : List (OpeningEntry δ)) (n : Nat)
    (t f : TransformationType) :
    deviationIn (movesIn m t) openings n f = deviationIn m openings n (t.andThen f) := by
  unfold deviationIn
  simp only [shared_turned, movesIn_movesIn]

theorem exists_of_deviationIn {openings : List (OpeningEntry δ)} {n : Nat}
    {found : OpeningEntry δ × OpeningBranch} (h : deviationIn m openings n f = some found) :
    found.1 ∈ openings ∧ n < m.length := by
  obtain ⟨opening, ho, h⟩ := List.exists_of_findSome?_eq_some h
  split at h
  · obtain ⟨move, hmove, h⟩ := Option.bind_eq_some_iff.1 h
    obtain ⟨branch, -, h⟩ := Option.bind_eq_some_iff.1 h
    cases h
    obtain ⟨hlt, -⟩ := List.getElem?_eq_some_iff.1 hmove
    rw [length_movesIn] at hlt
    exact ⟨ho, hlt⟩
  · cases h

/-- A frame finds a branch on the turned board just when some frame finds one on the board. -/
theorem firstDeviation_isSome {openings : List (OpeningEntry δ)} :
    (firstDeviation m openings).isSome
      ↔ ∃ f, (deviationIn m openings (longestPrefix m openings) f).isSome := by
  unfold firstDeviation
  rw [List.findSome?_isSome_iff]
  constructor
  · rintro ⟨f, -, hf⟩
    exact ⟨f, hf⟩
  · rintro ⟨f, hf⟩
    exact ⟨f, mem_transformationTypes f, hf⟩

theorem firstDeviation_mem {openings : List (OpeningEntry δ)}
    {found : OpeningEntry δ × OpeningBranch} (h : firstDeviation m openings = some found) :
    ∃ f, deviationIn m openings (longestPrefix m openings) f = some found := by
  obtain ⟨f, -, hf⟩ := List.exists_of_findSome?_eq_some h
  exact ⟨f, hf⟩

/-- Turned by a frame that finds a branch, the board has that branch in its first frame. -/
theorem firstDeviation_turned {openings : List (OpeningEntry δ)}
    {found : OpeningEntry δ × OpeningBranch}
    (h : deviationIn m openings (longestPrefix m openings) f = some found) :
    firstDeviation (movesIn m f) openings = some found := by
  have hfirst : deviationIn (movesIn m f) openings (longestPrefix (movesIn m f) openings) .identity
      = some found := by
    rw [deviationIn_turned, longestPrefix_turned, andThen_identity, h]
  unfold firstDeviation transformationTypes
  rw [List.findSome?_cons, hfirst]

theorem findSome?_flatMap {α β γ : Type} (f : α → List β) (g : β → Option γ) (l : List α) :
    (l.flatMap f).findSome? g = l.findSome? fun a => (f a).findSome? g := by
  induction l with
  | nil => rfl
  | cons a rest ih =>
    rw [List.flatMap_cons, List.findSome?_append, ih, List.findSome?_cons]
    cases (f a).findSome? g <;> rfl

/-- `_detectDeviation` searches the frames one after the other. -/
theorem detectDeviation_eq {openings : List (OpeningEntry δ)}
    (hpos : 0 < longestPrefix m openings) :
    detectDeviation (scanFrames m openings).prefixMatches m (longestPrefix m openings)
      = (firstDeviation m openings).map (deviationResult m (longestPrefix m openings)) := by
  have hmatches : (scanFrames m openings).prefixMatches = (frames openings).flatMap fun found =>
      if 0 < shared m found then [⟨found.1, found.2, shared m found⟩] else [] := by
    rw [scanFrames_eq, foldl_prefixMatches]
    rfl
  unfold detectDeviation firstDeviation deviationIn
  rw [hmatches, findSome?_flatMap, frames, findSome?_flatMap, List.map_findSome?]
  congr 1
  funext type
  rw [List.findSome?_map, Function.comp_apply, List.map_findSome?]
  congr 1
  funext opening
  rw [Function.comp_apply, Function.comp_apply]
  by_cases hshared : shared m (opening, type) = longestPrefix m openings
  · -- a prefix of this length was kept, and it is the one that is searched
    rw [if_pos (by rwa [hshared]), if_pos hshared, List.findSome?_cons, if_neg (not_not.2 hshared)]
    cases hmove : (movesIn m type)[longestPrefix m openings]? with
    | none => rfl
    | some move =>
      cases hbranch : branchFor opening (longestPrefix m openings) move with
      | none => simp [hbranch]
      | some branch => simp [hbranch]
  · rw [if_neg hshared]
    by_cases hkept : 0 < shared m (opening, type)
    · rw [if_pos hkept, List.findSome?_cons, if_pos hshared]
      rfl
    · rw [if_neg hkept]
      rfl

end

/-! ## The results -/

section

variable {δ : Type} [LinearOrder δ] {m : List Text} {openings : List (OpeningEntry δ)}

def exactMatches (m : List Text) (openings : List (OpeningEntry δ)) : List (BestMatch δ) :=
  (scanFrames m openings).exactById.map Prod.snd

def transpositionMatches (m : List Text) (openings : List (OpeningEntry δ)) :
    List (BestMatch δ) :=
  (scanFrames m openings).transpositionById.map Prod.snd

omit [LinearOrder δ] in
theorem candidates_exact (hids : (openings.map OpeningEntry.id).Nodup) (m : List Text) :
    Candidates openings (FitsInOrder m) (exactMatches m openings) := by
  unfold exactMatches
  rw [scanFrames_eq, foldl_exactById]
  exact candidates_collect hids (FitsInOrder m)

omit [LinearOrder δ] in
theorem candidates_transposition (hids : (openings.map OpeningEntry.id).Nodup) (m : List Text) :
    Candidates openings (fun found => ¬ FitsInOrder m found ∧ FitsAsSets m found)
      (transpositionMatches m openings) := by
  unfold transpositionMatches
  rw [scanFrames_eq, foldl_transpositionById]
  exact candidates_collect hids fun found => ¬ FitsInOrder m found ∧ FitsAsSets m found

omit [LinearOrder δ] in
theorem Candidates.eq_nil_iff {Fits : OpeningEntry δ × TransformationType → Prop}
    {all : List (BestMatch δ)} (h : Candidates openings Fits all) :
    all = [] ↔ ∀ opening ∈ openings, ∀ f, ¬ Fits (opening, f) := by
  constructor
  · rintro rfl opening ho f hf
    cases (h.openings_mem opening).2 ⟨ho, f, hf⟩
  · intro hnone
    cases all with
    | nil => rfl
    | cons found rest =>
      obtain ⟨ho, f, hf⟩ := (h.openings_mem found.opening).1 List.mem_cons_self
      exact absurd hf (hnone found.opening ho f)

omit [LinearOrder δ] in
theorem bestPrefix_scanFrames :
    (scanFrames m openings).bestPrefix = longestPrefix m openings := by
  rw [scanFrames_eq, foldl_bestPrefix]
  rfl

theorem recognize_empty (h : m.length = 0 ∨ openings = []) : recognize m openings = .none :=
  if_pos h

theorem recognize_exact {first : BestMatch δ} {rest : List (BestMatch δ)}
    (hne : ¬ (m.length = 0 ∨ openings = [])) (h : exactMatches m openings = first :: rest) :
    recognize m openings = resolveAmbiguous first rest m.length true := by
  unfold exactMatches at h
  unfold recognize
  dsimp only
  rw [if_neg hne, h]

theorem recognize_transposition {first : BestMatch δ} {rest : List (BestMatch δ)}
    (hne : ¬ (m.length = 0 ∨ openings = [])) (hexact : exactMatches m openings = [])
    (h : transpositionMatches m openings = first :: rest) :
    recognize m openings = resolveAmbiguous first rest m.length false := by
  unfold exactMatches at hexact
  unfold transpositionMatches at h
  unfold recognize
  dsimp only
  rw [if_neg hne, hexact, h]

theorem recognize_deviation {found : OpeningEntry δ × OpeningBranch}
    (hexact : exactMatches m openings = []) (htrans : transpositionMatches m openings = [])
    (hpos : 0 < longestPrefix m openings) (h : firstDeviation m openings = some found) :
    recognize m openings = deviationResult m (longestPrefix m openings) found := by
  obtain ⟨f, hf⟩ := firstDeviation_mem h
  obtain ⟨hmem, hlt⟩ := exists_of_deviationIn hf
  have hne : ¬ (m.length = 0 ∨ openings = []) := by
    rintro (hzero | rfl)
    · omega
    · cases hmem
  unfold exactMatches at hexact
  unfold transpositionMatches at htrans
  unfold recognize
  dsimp only
  rw [if_neg hne, hexact, htrans, bestPrefix_scanFrames, if_pos ⟨hpos, hlt⟩,
    detectDeviation_eq hpos, h]
  rfl

/-- The result without a match and without a branch. -/
def unmatched (ply bestPrefix : Nat) : MillOpeningRecognition :=
  if novelCommitPly ≤ ply ∨ 0 < bestPrefix then { status := .novel, matchedPly := bestPrefix }
  else .none

theorem recognize_unmatched (hne : ¬ (m.length = 0 ∨ openings = []))
    (hexact : exactMatches m openings = []) (htrans : transpositionMatches m openings = [])
    (h : 0 < longestPrefix m openings → firstDeviation m openings = none) :
    recognize m openings = unmatched m.length (longestPrefix m openings) := by
  unfold exactMatches at hexact
  unfold transpositionMatches at htrans
  unfold recognize
  dsimp only
  rw [if_neg hne, hexact, htrans, bestPrefix_scanFrames]
  by_cases hpos : 0 < longestPrefix m openings ∧ longestPrefix m openings < m.length
  · rw [if_pos hpos, detectDeviation_eq hpos.1, h hpos.1]
    rfl
  · rw [if_neg hpos]
    rfl

/-- What the results on a board and on the board turned by `t` have in common. -/
structure SameOpening (m : List Text) (t : TransformationType)
    (result turned : MillOpeningRecognition) : Prop where
  status : turned.status = result.status
  openingId : turned.openingId = result.openingId
  name : turned.name = result.name
  family : turned.family = result.family
  candidateFamilies : turned.candidateFamilies = result.candidateFamilies
  matchedPly : turned.matchedPly = result.matchedPly
  branchName : turned.branchName = result.branchName
  nextMove : ∃ s, KeepsSides (movesIn m t) s ∧ turned.nextMove = result.nextMove.map fun next =>
    transformMoveNotation (transformMoveNotation next t) s

/-- The moves on the turned board are the turned moves, in any order. -/
def SameMoves (t : TransformationType) (moves turned : List Text) : Prop :=
  ∀ move, move ∈ turned ↔ move ∈ moves.map fun p => transformMoveNotation p t

/-- Recognition and both lists of continuations do not see that the board was turned. -/
structure Turned (m : List Text) (openings : List (OpeningEntry δ)) (t : TransformationType) :
    Prop where
  recognition : SameOpening m t (recognize m openings) (recognize (movesIn m t) openings)
  favored : ∀ aiSide, SameMoves t (favoredOpeningMoves m openings aiSide)
    (favoredOpeningMoves (movesIn m t) openings aiSide)
  continuation : SameMoves t (bookContinuationMoves m openings)
    (bookContinuationMoves (movesIn m t) openings)

theorem keepsSides_identity (hm : ∀ p ∈ m, p ∈ transformIndexToNotation)
    (t : TransformationType) : KeepsSides (movesIn m t) .identity := by
  intro parity _
  refine (Finset.image_congr fun p hp => ?_).trans Finset.image_id'
  obtain ⟨q, hq, rfl⟩ := List.mem_map.1 (sideMoves_subset p (Finset.mem_coe.1 hp))
  exact transform_identity _ (transform_mem (hm q hq) t)

/-- Results without a next move and without an opening are compared field by field. -/
theorem sameOpening_of_eq (hm : ∀ p ∈ m, p ∈ transformIndexToNotation) (t : TransformationType)
    {result : MillOpeningRecognition} (hnext : result.nextMove = none) :
    SameOpening m t result result where
  status := rfl
  openingId := rfl
  name := rfl
  family := rfl
  candidateFamilies := rfl
  matchedPly := rfl
  branchName := rfl
  nextMove := ⟨.identity, keepsSides_identity hm t, by rw [hnext]; rfl⟩

omit [LinearOrder δ] in
theorem nextMove_build (found : BestMatch δ) (ply : Nat) (status : MillOpeningStatus)
    (confidence : ℚ) (families : List Text) :
    (build found ply status confidence families).nextMove
      = found.opening.lineMoves[ply]?.map fun move => fromFrame move found.type :=
  rfl

omit [LinearOrder δ] in
theorem sameOpening_build (hm : ∀ p ∈ m, p ∈ transformIndexToNotation) {t : TransformationType}
    {found found' : BestMatch δ} (hopening : found'.opening = found.opening)
    (hcovers : Covers m (found.opening, found.type))
    (hcovers' : Covers (movesIn m t) (found'.opening, found'.type)) (status : MillOpeningStatus)
    (confidence : ℚ) (families : List Text) :
    SameOpening m t (build found m.length status confidence families)
      (build found' m.length status confidence families) := by
  obtain ⟨opening, type, length⟩ := found
  obtain ⟨opening', type', length'⟩ := found'
  obtain rfl : opening' = opening := hopening
  refine ⟨rfl, rfl, rfl, rfl, rfl, rfl, rfl, between type t type',
    keepsSides_between hm hcovers hcovers', ?_⟩
  rw [nextMove_build, nextMove_build]
  cases opening'.lineMoves[m.length]? with
  | none => rfl
  | some next => exact congrArg some (fromFrame_between next type t type')

/-- The same openings fit, so the same one is named. -/
theorem sameOpening_resolve (hm : ∀ p ∈ m, p ∈ transformIndexToNotation) {t : TransformationType}
    {Fits Fits' : OpeningEntry δ × TransformationType → Prop} {first first' : BestMatch δ}
    {rest rest' : List (BestMatch δ)} (hall : Candidates openings Fits (first :: rest))
    (hall' : Candidates openings Fits' (first' :: rest'))
    (hfits : ∀ opening, (∃ f, Fits' (opening, f)) ↔ ∃ f, Fits (opening, f))
    (hcovers : ∀ found, Fits found → Covers m found)
    (hcovers' : ∀ found, Fits' found → Covers (movesIn m t) found) (exact : Bool) :
    SameOpening m t (resolveAmbiguous first rest m.length exact)
      (resolveAmbiguous first' rest' m.length exact) := by
  have hids : (((first :: rest).map BestMatch.opening).map OpeningEntry.id).Nodup := by
    rw [List.map_map]
    exact hall.nodup
  have hids' : (((first' :: rest').map BestMatch.opening).map OpeningEntry.id).Nodup := by
    rw [List.map_map]
    exact hall'.nodup
  have hperm : ((first :: rest).map BestMatch.opening).Perm
      ((first' :: rest').map BestMatch.opening) := by
    refine (List.perm_ext_iff_of_nodup hids.of_map hids'.of_map).2 fun opening => ?_
    rw [hall.openings_mem, hall'.openings_mem, hfits]
  have hranked := ranked_perm hperm hids
  obtain ⟨found, hmem, hhead, heq⟩ := resolveAmbiguous_eq hall.length m.length exact
  obtain ⟨found', hmem', hhead', heq'⟩ := resolveAmbiguous_eq hall'.length m.length exact
  rw [← hranked, hhead, Option.some.injEq] at hhead'
  rw [heq, heq', ← hranked]
  exact sameOpening_build hm hhead'.symm (hcovers _ (hall.fits found hmem))
    (hcovers' _ (hall'.fits found' hmem')) _ _ _

/-! ## Continuations -/

/-- The openings whose favoured side is asked for. -/
def Wanted (requiredFavoredSide : Option Text) (opening : OpeningEntry δ) : Prop :=
  ∀ side ∈ requiredFavoredSide, opening.favoredSide = side

/-- The continuations: the next move of every line that goes on, from each frame. -/
theorem mem_continuationMoves {side : Option Text} {move : Text} :
    move ∈ continuationMoves m openings side ↔ ∃ f, ∃ opening ∈ openings, Wanted side opening
      ∧ shared m (opening, f) = m.length
      ∧ ∃ next, opening.lineMoves[m.length]? = some next ∧ move = fromFrame next f := by
  -- one frame at a time: an opening gives at most one candidate, its next move
  have hcandidate : ∀ f (candidate : ContinuationCandidate δ),
      candidate ∈ candidatesIn m openings side f ↔ ∃ opening ∈ openings, Wanted side opening
        ∧ shared m (opening, f) = m.length
        ∧ ∃ next, opening.lineMoves[m.length]? = some next
          ∧ candidate = ⟨fromFrame next f, opening.confidence, opening.lineMoves.length⟩ := by
    intro f candidate
    unfold candidatesIn
    rw [List.mem_filterMap]
    refine exists_congr fun opening => and_congr_right fun _ => ?_
    have hwanted : (side.any fun side => decide (opening.favoredSide ≠ side)) = true
        ↔ ¬ Wanted side opening := by
      unfold Wanted
      cases side <;> simp
    by_cases hside : Wanted side opening
    · have hlength : commonPrefix (movesIn m f) opening.lineMoves = shared m (opening, f) := rfl
      rw [if_neg (by rw [hwanted]; exact not_not.2 hside), hlength]
      by_cases hshared : shared m (opening, f) = m.length
      · rw [if_neg (not_not.2 hshared), Option.map_eq_some_iff]
        simp only [hside, hshared, true_and, eq_comm]
      · rw [if_pos hshared]
        exact iff_of_false (fun h => nomatch h) fun h => hshared h.2.1
    · rw [if_pos (hwanted.2 hside)]
      exact iff_of_false (fun h => nomatch h) fun h => hside h.1
  unfold continuationMoves
  rw [List.mem_eraseDups, List.mem_map]
  constructor
  · rintro ⟨candidate, hmem, rfl⟩
    obtain ⟨f, -, hmem⟩ := List.mem_flatMap.1 (List.mem_mergeSort.1 hmem)
    obtain ⟨opening, ho, hside, hshared, next, hnext, rfl⟩ := (hcandidate f candidate).1 hmem
    exact ⟨f, opening, ho, hside, hshared, next, hnext, rfl⟩
  · rintro ⟨f, opening, ho, hside, hshared, next, hnext, rfl⟩
    refine ⟨⟨fromFrame next f, opening.confidence, opening.lineMoves.length⟩, ?_, rfl⟩
    exact List.mem_mergeSort.2 <| List.mem_flatMap.2 ⟨f, mem_transformationTypes f,
      (hcandidate f _).2 ⟨opening, ho, hside, hshared, next, hnext, rfl⟩⟩

theorem fromFrame_turned (next : Text) (t f : TransformationType) :
    fromFrame next f = transformMoveNotation (fromFrame next (t.andThen f)) t := by
  rw [fromFrame_eq, fromFrame_eq, transformMoveNotation_andThen, inverse_andThen]

theorem sameMoves_continuation (t : TransformationType) (side : Option Text) :
    SameMoves t (continuationMoves m openings side)
      (continuationMoves (movesIn m t) openings side) := by
  intro move
  rw [mem_continuationMoves, List.mem_map]
  simp only [mem_continuationMoves, shared_turned, length_movesIn]
  constructor
  · rintro ⟨f, opening, ho, hside, hshared, next, hnext, rfl⟩
    exact ⟨_, ⟨t.andThen f, opening, ho, hside, hshared, next, hnext, rfl⟩,
      (fromFrame_turned next t f).symm⟩
  · rintro ⟨_, ⟨f, opening, ho, hside, hshared, next, hnext, rfl⟩, rfl⟩
    refine ⟨t.inverse.andThen f, opening, ho, hside, ?_, next, hnext, ?_⟩
    · rwa [andThen_inverse]
    · rw [fromFrame_turned next t (t.inverse.andThen f), andThen_inverse]

theorem sameMoves_favored (t : TransformationType) (aiSide : Text) :
    SameMoves t (favoredOpeningMoves m openings aiSide)
      (favoredOpeningMoves (movesIn m t) openings aiSide) := by
  unfold favoredOpeningMoves
  split
  · exact fun move => iff_of_false List.not_mem_nil List.not_mem_nil
  · exact sameMoves_continuation t (some aiSide)

/-! ## Recognition -/

/-- Without a complete match and without a branch, only the lengths count. -/
theorem sameOpening_unmatched (hm : ∀ p ∈ m, p ∈ transformIndexToNotation)
    (t : TransformationType) (ply bestPrefix : Nat) :
    SameOpening m t (unmatched ply bestPrefix) (unmatched ply bestPrefix) := by
  refine sameOpening_of_eq hm t ?_
  unfold unmatched
  split
  · rfl
  · rfl

omit [LinearOrder δ] in
theorem completeMatch_iff (hids : (openings.map OpeningEntry.id).Nodup) :
    CompleteMatch m openings
      ↔ exactMatches m openings ≠ [] ∨ transpositionMatches m openings ≠ [] := by
  rw [← not_iff_not, not_or, not_not, not_not, (candidates_exact hids m).eq_nil_iff,
    (candidates_transposition hids m).eq_nil_iff]
  constructor
  · intro hnone
    exact ⟨fun opening ho f hf => hnone ⟨opening, ho, f, .inl hf⟩,
      fun opening ho f hf => hnone ⟨opening, ho, f, .inr hf.2⟩⟩
  · rintro ⟨horder, hsets⟩ ⟨opening, ho, f, hf | hf⟩
    · exact horder opening ho f hf
    · exact hsets opening ho f ⟨horder opening ho f, hf⟩

/-- A complete match is found on the turned board as well, for the same openings. -/
theorem sameOpening_complete (hm : ∀ p ∈ m, p ∈ transformIndexToNotation)
    (hids : (openings.map OpeningEntry.id).Nodup) (t : TransformationType)
    (h : CompleteMatch m openings) :
    SameOpening m t (recognize m openings) (recognize (movesIn m t) openings) := by
  have hlen := length_movesIn m t
  by_cases hempty : m.length = 0 ∨ openings = []
  · rw [recognize_empty hempty, recognize_empty (by rwa [hlen])]
    exact sameOpening_of_eq hm t rfl
  have hempty' : ¬ ((movesIn m t).length = 0 ∨ openings = []) := by rwa [hlen]
  have hexact := candidates_exact hids m
  have hexact' := candidates_exact hids (movesIn m t)
  -- to be matched in some frame does not depend on how the moves are turned
  have horder : ∀ opening : OpeningEntry δ, (∃ f, FitsInOrder (movesIn m t) (opening, f))
      ↔ ∃ f, FitsInOrder m (opening, f) := by
    intro opening
    simp only [fitsInOrder_turned]
    exact exists_frame_turned (P := fun f => FitsInOrder m (opening, f)) t
  have hnil : exactMatches (movesIn m t) openings = [] ↔ exactMatches m openings = [] := by
    rw [hexact.eq_nil_iff, hexact'.eq_nil_iff]
    refine forall₂_congr fun opening _ => ?_
    rw [← not_exists, ← not_exists, horder]
  cases hfound : exactMatches m openings with
  | cons first rest =>
    cases hfound' : exactMatches (movesIn m t) openings with
    | nil => rw [hnil.1 hfound'] at hfound; cases hfound
    | cons first' rest' =>
      rw [recognize_exact hempty hfound, recognize_exact hempty' hfound', hlen]
      rw [hfound] at hexact
      rw [hfound'] at hexact'
      exact sameOpening_resolve hm hexact hexact' horder (fun _ => FitsInOrder.covers)
        (fun _ => FitsInOrder.covers) true
  | nil =>
    -- no match in order: the sets of moves are compared
    have hfound' := hnil.2 hfound
    have htrans := candidates_transposition hids m
    have htrans' := candidates_transposition hids (movesIn m t)
    have hsets : ∀ opening : OpeningEntry δ, (∃ f, ¬ FitsInOrder (movesIn m t) (opening, f)
          ∧ FitsAsSets (movesIn m t) (opening, f))
        ↔ ∃ f, ¬ FitsInOrder m (opening, f) ∧ FitsAsSets m (opening, f) := by
      intro opening
      simp only [fitsInOrder_turned, fitsAsSets_turned]
      exact exists_frame_turned
        (P := fun f => ¬ FitsInOrder m (opening, f) ∧ FitsAsSets m (opening, f)) t
    have hmatch := (completeMatch_iff hids).1 h
    have hmatch' := (completeMatch_iff hids).1 ((completeMatch_turned t).2 h)
    rw [hfound] at hmatch
    rw [hfound'] at hmatch'
    cases hsecond : transpositionMatches m openings with
    | nil => exact absurd hsecond (hmatch.resolve_left fun hne => hne rfl)
    | cons first rest =>
      cases hsecond' : transpositionMatches (movesIn m t) openings with
      | nil => exact absurd hsecond' (hmatch'.resolve_left fun hne => hne rfl)
      | cons first' rest' =>
        rw [recognize_transposition hempty hfound hsecond,
          recognize_transposition hempty' hfound' hsecond', hlen]
        rw [hsecond] at htrans
        rw [hsecond'] at htrans'
        exact sameOpening_resolve hm htrans htrans' hsets (fun _ h => h.2.covers)
          (fun _ h => h.2.covers) false

omit [LinearOrder δ] in
theorem no_matches (hids : (openings.map OpeningEntry.id).Nodup)
    (h : ¬ CompleteMatch m openings) :
    exactMatches m openings = [] ∧ transpositionMatches m openings = [] := by
  rw [completeMatch_iff hids, not_or, not_not, not_not] at h
  exact h

omit [LinearOrder δ] in
theorem sameOpening_deviation (hm : ∀ p ∈ m, p ∈ transformIndexToNotation)
    (t : TransformationType) {n : Nat} {found found' : OpeningEntry δ × OpeningBranch}
    (hopening : found'.1 = found.1) (hname : found'.2.name = found.2.name) :
    SameOpening m t (deviationResult m n found) (deviationResult (movesIn m t) n found') := by
  obtain ⟨opening, branch⟩ := found
  obtain ⟨opening', branch'⟩ := found'
  obtain rfl : opening' = opening := hopening
  exact ⟨rfl, rfl, rfl, rfl, rfl, rfl, congrArg some hname, .identity,
    keepsSides_identity hm t, rfl⟩

omit [LinearOrder δ] in
theorem firstDeviation_turned_isSome (t : TransformationType) :
    (firstDeviation (movesIn m t) openings).isSome ↔ (firstDeviation m openings).isSome := by
  rw [firstDeviation_isSome, firstDeviation_isSome, longestPrefix_turned]
  simp only [deviationIn_turned]
  exact exists_frame_turned
    (P := fun f => (deviationIn m openings (longestPrefix m openings) f).isSome) t

/-- What `recognize` does with a line that was left. -/
theorem sameOpening_left (hm : ∀ p ∈ m, p ∈ transformIndexToNotation)
    (hids : (openings.map OpeningEntry.id).Nodup) (t : TransformationType)
    (hnone : ¬ CompleteMatch m openings)
    (hagree : longestPrefix m openings = 0 ∨ FramesAgree m openings) :
    SameOpening m t (recognize m openings) (recognize (movesIn m t) openings) := by
  have hlen := length_movesIn m t
  by_cases hempty : m.length = 0 ∨ openings = []
  · rw [recognize_empty hempty, recognize_empty (by rwa [hlen])]
    exact sameOpening_of_eq hm t rfl
  have hempty' : ¬ ((movesIn m t).length = 0 ∨ openings = []) := by rwa [hlen]
  obtain ⟨hexact, htrans⟩ := no_matches hids hnone
  obtain ⟨hexact', htrans'⟩ := no_matches hids (mt (completeMatch_turned t).1 hnone)
  have hplayed := longestPrefix_turned m openings t
  have hsome : (firstDeviation (movesIn m t) openings).isSome
      ↔ (firstDeviation m openings).isSome := firstDeviation_turned_isSome t
  by_cases hleft : 0 < longestPrefix m openings ∧ (firstDeviation m openings).isSome
  · obtain ⟨hpos, hdeviation⟩ := hleft
    obtain ⟨found, hfound⟩ := Option.isSome_iff_exists.1 hdeviation
    obtain ⟨found', hfound'⟩ := Option.isSome_iff_exists.1 (hsome.2 hdeviation)
    -- here the frame decides which deviation is found, which is why the frames have to agree
    have hframes := hagree.resolve_left hpos.ne'
    obtain ⟨f, hf⟩ := firstDeviation_mem hfound
    obtain ⟨f', hf'⟩ := firstDeviation_mem hfound'
    rw [hplayed, deviationIn_turned] at hf'
    obtain ⟨hid, hname⟩ := hframes _ _ found' found hf' hf
    have hopening := opening_of_id hids (exists_of_deviationIn hf').1
      (exists_of_deviationIn hf).1 hid
    rw [recognize_deviation hexact htrans hpos hfound,
      recognize_deviation hexact' htrans' (by rwa [hplayed]) hfound', hplayed]
    exact sameOpening_deviation hm t hopening hname
  · have hunmatched : 0 < longestPrefix m openings → firstDeviation m openings = none :=
      fun hpos => Option.not_isSome_iff_eq_none.1 fun h => hleft ⟨hpos, h⟩
    have hunmatched' : 0 < longestPrefix (movesIn m t) openings →
        firstDeviation (movesIn m t) openings = none := by
      intro hpos
      rw [hplayed] at hpos
      exact Option.not_isSome_iff_eq_none.1 fun h => hleft ⟨hpos, hsome.1 h⟩
    rw [recognize_unmatched hempty hexact htrans hunmatched,
      recognize_unmatched hempty' hexact' htrans' hunmatched', hplayed, hlen]
    exact sameOpening_unmatched hm t _ _

/-- A board turned by a frame that finds a branch names that branch. -/
theorem recognize_turned_of_deviationIn (hids : (openings.map OpeningEntry.id).Nodup)
    (hnone : ¬ CompleteMatch m openings) (hpos : 0 < longestPrefix m openings)
    {f : TransformationType} {found : OpeningEntry δ × OpeningBranch}
    (h : deviationIn m openings (longestPrefix m openings) f = some found) :
    (recognize (movesIn m f) openings).openingId = some found.1.id
      ∧ (recognize (movesIn m f) openings).branchName = some found.2.name := by
  obtain ⟨hexact, htrans⟩ := no_matches hids (mt (completeMatch_turned f).1 hnone)
  rw [recognize_deviation hexact htrans (by rwa [longestPrefix_turned]) (firstDeviation_turned h)]
  exact ⟨rfl, rfl⟩

/-- Recognition sees how the board is turned exactly when a line was left and two frames name
different openings or branches for the move that left it. -/
theorem recognize_turned_iff (hm : ∀ p ∈ m, p ∈ transformIndexToNotation)
    (hids : (openings.map OpeningEntry.id).Nodup) :
    (∀ t, Turned m openings t)
      ↔ CompleteMatch m openings ∨ longestPrefix m openings = 0 ∨ FramesAgree m openings := by
  constructor
  · intro h
    by_cases hcomplete : CompleteMatch m openings
    · exact .inl hcomplete
    by_cases hzero : longestPrefix m openings = 0
    · exact .inr (.inl hzero)
    refine .inr (.inr fun f g found found' hf hg => ?_)
    have hpos := Nat.pos_of_ne_zero hzero
    obtain ⟨hidf, hnamef⟩ := recognize_turned_of_deviationIn hids hcomplete hpos hf
    obtain ⟨hidg, hnameg⟩ := recognize_turned_of_deviationIn hids hcomplete hpos hg
    -- both boards answer as the board itself does
    rw [(h f).recognition.openingId, ← (h g).recognition.openingId, hidg] at hidf
    rw [(h f).recognition.branchName, ← (h g).recognition.branchName, hnameg] at hnamef
    exact ⟨(Option.some.inj hidf).symm, (Option.some.inj hnamef).symm⟩
  · intro h t
    refine ⟨?_, sameMoves_favored t, sameMoves_continuation t none⟩
    by_cases hcomplete : CompleteMatch m openings
    · exact sameOpening_complete hm hids t hcomplete
    · exact sameOpening_left hm hids t hcomplete (h.resolve_left hcomplete)

end

/-! ## A book that sees the turn -/

/-- An opening of the curated book, with the fields that tell it from the others. -/
def bookOpening (id : String) (lineMoves : List String) (branchMoves : List OpeningBranch) :
    OpeningEntry Nat where
  id := id.toList
  name := id.toList
  aliases := []
  family := id.toList
  source := "book".toList
  sourceReference := []
  confidence := 1
  tags := []
  strategicNotes := []
  commonBlunders := []
  recommendedResponses := []
  lineMoves := lineMoves.map String.toList
  branchMoves
  favoredSide := "equal".toList

/-- Two lines that start on different cross points, each with a branch into a corner. -/
def crossBook : List (OpeningEntry Nat) :=
  [bookOpening "south" ["d2", "d6", "f4", "b4"]
      [⟨2, "a1".toList, "south corner".toList, []⟩],
    bookOpening "east" ["f4", "b4", "d6", "d2"]
      [⟨2, "g1".toList, "east corner".toList, []⟩]]

def cornerReply : List Text := ["d2".toList, "a1".toList]

/-- Turned by a quarter, the same two placements are another opening. -/
theorem recognize_crossBook_turned :
    ¬ ∀ (m : List Text) (openings : List (OpeningEntry Nat)) (t : TransformationType),
      (∀ p ∈ m, p ∈ transformIndexToNotation) → m.Nodup →
      (openings.map OpeningEntry.id).Nodup → Turned m openings t := by
  intro h
  have hturned := h cornerReply crossBook .rotate270 (by decide) (by decide) (by decide)
  have hid : (recognize (movesIn cornerReply .rotate270) crossBook).openingId
      ≠ (recognize cornerReply crossBook).openingId := by decide +kernel
  exact hid hturned.recognition.openingId

/-- A reply that the book has is the same opening on the turned board. -/
theorem recognize_crossBook_complete :
    Turned ["d2".toList, "d6".toList] crossBook .rotate90 :=
  (recognize_turned_iff (by decide) (by decide)).2
    (.inl ⟨_, List.mem_cons_self, .identity, .inl (by decide +kernel)⟩) .rotate90

end Sanmill.MillOpeningRecognizer
