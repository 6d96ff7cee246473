import Mathlib.Order.Std
import Sanmill.Proof.Record.Compose

/-!
# The openings that match

The scan keeps, of every opening that fits in some frame, the first frame that it fits in. The
representative is the least of these openings in an order in which no two of them tie, so it
does not depend on the order of the frames.
-/

namespace Sanmill.MillOpeningRecognizer

open Recorder

/-! ## Frames -/

theorem length_movesIn (m : List Text) (type : TransformationType) :
    (movesIn m type).length = m.length :=
  List.length_map ..

theorem movesIn_movesIn (m : List Text) (t f : TransformationType) :
    movesIn (movesIn m t) f = movesIn m (t.andThen f) := by
  unfold movesIn
  rw [List.map_map]
  exact List.map_congr_left fun p _ => transformMoveNotation_andThen p t f

theorem fromFrame_eq (move : Text) (type : TransformationType) :
    fromFrame move type = transformMoveNotation move type.inverse := by
  rw [transformMoveNotation, getTransformMap_inverse]
  rfl

section

variable {δ : Type}

/-! ## The maps of the scan -/

/-- The openings in the order in which `recognize` meets them, with their frames. -/
def frames (openings : List (OpeningEntry δ)) : List (OpeningEntry δ × TransformationType) :=
  transformationTypes.flatMap fun type => openings.map fun opening => (opening, type)

theorem mem_frames {openings : List (OpeningEntry δ)} {opening : OpeningEntry δ}
    {type : TransformationType} : (opening, type) ∈ frames openings ↔ opening ∈ openings := by
  constructor
  · intro h
    obtain ⟨type', -, h⟩ := List.mem_flatMap.1 h
    obtain ⟨opening', ho, heq⟩ := List.mem_map.1 h
    obtain ⟨rfl, -⟩ := Prod.mk.inj heq
    exact ho
  · intro h
    exact List.mem_flatMap.2 ⟨type, mem_transformationTypes type, List.mem_map.2 ⟨opening, h, rfl⟩⟩

/-- The first moves of the line are the moves played. -/
def FitsInOrder (m : List Text) (found : OpeningEntry δ × TransformationType) : Prop :=
  m.length ≤ found.1.lineMoves.length
    ∧ commonPrefix (movesIn m found.2) found.1.lineMoves = m.length

/-- The first moves of the line take the squares played. -/
def FitsAsSets (m : List Text) (found : OpeningEntry δ × TransformationType) : Prop :=
  m.length ≤ found.1.lineMoves.length
    ∧ setMatch (movesIn m found.2) found.1.lineMoves m.length = true

instance (m : List Text) (found : OpeningEntry δ × TransformationType) :
    Decidable (FitsInOrder m found) := by
  unfold FitsInOrder
  infer_instance

instance (m : List Text) (found : OpeningEntry δ × TransformationType) :
    Decidable (FitsAsSets m found) := by
  unfold FitsAsSets
  infer_instance

def matchOf (found : OpeningEntry δ × TransformationType) : BestMatch δ :=
  ⟨found.1, found.2, found.1.lineMoves.length⟩

/-- The moves that a line shares with the moves played. -/
def shared (m : List Text) (found : OpeningEntry δ × TransformationType) : Nat :=
  commonPrefix (movesIn m found.2) found.1.lineMoves

/-- `putIfAbsent` of one match after the other. -/
def collect (entries : List (Text × BestMatch δ)) (l : List (BestMatch δ)) :
    List (Text × BestMatch δ) :=
  l.foldl (fun entries found => putIfAbsent entries found.opening.id found) entries

/-- The body of the loop, in one opening and one frame. -/
def scanStep (m : List Text) (scan : Scan δ) (found : OpeningEntry δ × TransformationType) :
    Scan δ :=
  scan.opening (movesIn m found.2) found.2 found.1

theorem scanFrames_eq (m : List Text) (openings : List (OpeningEntry δ)) :
    scanFrames m openings = (frames openings).foldl (scanStep m) {} := by
  unfold scanFrames frames
  rw [List.foldl_flatMap]
  congr 1
  funext scan type
  rw [List.foldl_map]
  rfl

section

variable (m : List Text) (scan : Scan δ) (found : OpeningEntry δ × TransformationType)

/-- The part of the body that does not depend on a match. -/
def scanShared : Scan δ :=
  { scan with
    bestPrefix := max scan.bestPrefix (shared m found)
    prefixMatches :=
      if 0 < shared m found then scan.prefixMatches ++ [⟨found.1, found.2, shared m found⟩]
      else scan.prefixMatches }

theorem scanStep_eq :
    scanStep m scan found
      = if FitsInOrder m found then
          { scanShared m scan found with
            exactById := putIfAbsent scan.exactById found.1.id (matchOf found) }
        else if FitsAsSets m found then
          { scanShared m scan found with
            transpositionById := putIfAbsent scan.transpositionById found.1.id (matchOf found) }
        else scanShared m scan found := by
  have hlen := length_movesIn m found.2
  unfold scanStep Scan.opening
  rw [hlen]
  rfl

theorem scanStep_exactById :
    (scanStep m scan found).exactById
      = if FitsInOrder m found then putIfAbsent scan.exactById found.1.id (matchOf found)
        else scan.exactById := by
  rw [scanStep_eq]
  by_cases horder : FitsInOrder m found
  · rw [if_pos horder, if_pos horder]
  · rw [if_neg horder, if_neg horder]
    by_cases hsets : FitsAsSets m found
    · rw [if_pos hsets]
      rfl
    · rw [if_neg hsets]
      rfl

theorem scanStep_transpositionById :
    (scanStep m scan found).transpositionById
      = if ¬ FitsInOrder m found ∧ FitsAsSets m found then
          putIfAbsent scan.transpositionById found.1.id (matchOf found)
        else scan.transpositionById := by
  rw [scanStep_eq]
  by_cases horder : FitsInOrder m found
  · rw [if_pos horder, if_neg fun h => h.1 horder]
    rfl
  · rw [if_neg horder]
    by_cases hsets : FitsAsSets m found
    · rw [if_pos hsets, if_pos ⟨horder, hsets⟩]
    · rw [if_neg hsets, if_neg fun h => hsets h.2]
      rfl

/-- The other two variables are updated in every branch. -/
theorem scanStep_shared :
    (scanStep m scan found).bestPrefix = (scanShared m scan found).bestPrefix
      ∧ (scanStep m scan found).prefixMatches = (scanShared m scan found).prefixMatches := by
  rw [scanStep_eq]
  split
  · exact ⟨rfl, rfl⟩
  · split
    · exact ⟨rfl, rfl⟩
    · exact ⟨rfl, rfl⟩

theorem scanShared_prefixMatches :
    (scanShared m scan found).prefixMatches
      = scan.prefixMatches
        ++ if 0 < shared m found then [⟨found.1, found.2, shared m found⟩] else [] := by
  unfold scanShared
  dsimp only
  split
  · rfl
  · rw [List.append_nil]

end

section

variable (m : List Text) (l : List (OpeningEntry δ × TransformationType)) (scan : Scan δ)

theorem foldl_exactById :
    (l.foldl (scanStep m) scan).exactById
      = collect scan.exactById ((l.filter fun found => FitsInOrder m found).map matchOf) := by
  induction l generalizing scan with
  | nil => rfl
  | cons found rest ih =>
    rw [List.foldl_cons, ih, scanStep_exactById, List.filter_cons]
    by_cases h : FitsInOrder m found
    · rw [if_pos h, if_pos (decide_eq_true h)]
      rfl
    · rw [if_neg h, if_neg (by rwa [decide_eq_true_iff])]

theorem foldl_transpositionById :
    (l.foldl (scanStep m) scan).transpositionById
      = collect scan.transpositionById
          ((l.filter fun found => ¬ FitsInOrder m found ∧ FitsAsSets m found).map matchOf) := by
  induction l generalizing scan with
  | nil => rfl
  | cons found rest ih =>
    rw [List.foldl_cons, ih, scanStep_transpositionById, List.filter_cons]
    by_cases h : ¬ FitsInOrder m found ∧ FitsAsSets m found
    · rw [if_pos h, if_pos (decide_eq_true h)]
      rfl
    · rw [if_neg h, if_neg (by rwa [decide_eq_true_iff])]

theorem foldl_bestPrefix :
    (l.foldl (scanStep m) scan).bestPrefix = (l.map (shared m)).foldl max scan.bestPrefix := by
  induction l generalizing scan with
  | nil => rfl
  | cons found rest ih =>
    rw [List.foldl_cons, ih, (scanStep_shared m scan found).1]
    rfl

theorem foldl_prefixMatches :
    (l.foldl (scanStep m) scan).prefixMatches
      = scan.prefixMatches ++ l.flatMap fun found =>
          if 0 < shared m found then [⟨found.1, found.2, shared m found⟩] else [] := by
  induction l generalizing scan with
  | nil => rw [List.flatMap_nil, List.append_nil]; rfl
  | cons found rest ih =>
    rw [List.foldl_cons, ih, (scanStep_shared m scan found).2, scanShared_prefixMatches,
      List.flatMap_cons, List.append_assoc]

end

/-! ## The first match of every opening -/

theorem putIfAbsent_keys {entries : List (Text × BestMatch δ)} {id k : Text}
    {found : BestMatch δ} :
    k ∈ (putIfAbsent entries id found).map Prod.fst ↔ k ∈ entries.map Prod.fst ∨ k = id := by
  unfold putIfAbsent
  split
  · rename_i hmem
    constructor
    · exact Or.inl
    · rintro (h | rfl)
      · exact h
      · exact hmem
  · rw [List.map_append, List.mem_append, List.map_singleton, List.mem_singleton]

theorem putIfAbsent_nodup {entries : List (Text × BestMatch δ)} {id : Text}
    {found : BestMatch δ} (h : (entries.map Prod.fst).Nodup) :
    ((putIfAbsent entries id found).map Prod.fst).Nodup := by
  unfold putIfAbsent
  split
  · exact h
  · rename_i hmem
    rw [List.map_append, List.nodup_append]
    refine ⟨h, List.nodup_singleton _, fun a ha b hb => ?_⟩
    obtain rfl := List.mem_singleton.1 hb
    exact fun heq => hmem (heq ▸ ha)

theorem putIfAbsent_mem {entries : List (Text × BestMatch δ)} {id : Text}
    {found : BestMatch δ} {entry : Text × BestMatch δ}
    (h : entry ∈ putIfAbsent entries id found) : entry ∈ entries ∨ entry = (id, found) := by
  unfold putIfAbsent at h
  split at h
  · exact .inl h
  · rcases List.mem_append.1 h with h | h
    · exact .inl h
    · exact .inr (List.mem_singleton.1 h)

theorem collect_keys {entries : List (Text × BestMatch δ)} {l : List (BestMatch δ)} {k : Text} :
    k ∈ (collect entries l).map Prod.fst
      ↔ k ∈ entries.map Prod.fst ∨ ∃ found ∈ l, found.opening.id = k := by
  unfold collect
  induction l generalizing entries with
  | nil => simp
  | cons found rest ih =>
    rw [List.foldl_cons, ih, putIfAbsent_keys, or_assoc]
    refine or_congr_right ?_
    simp only [List.mem_cons, exists_eq_or_imp]
    rw [eq_comm]

theorem collect_nodup {entries : List (Text × BestMatch δ)} (l : List (BestMatch δ))
    (h : (entries.map Prod.fst).Nodup) : ((collect entries l).map Prod.fst).Nodup := by
  unfold collect
  induction l generalizing entries with
  | nil => exact h
  | cons found rest ih => exact ih (putIfAbsent_nodup h)

theorem collect_mem {entries : List (Text × BestMatch δ)} {l : List (BestMatch δ)}
    {entry : Text × BestMatch δ} (h : entry ∈ collect entries l) :
    entry ∈ entries ∨ entry.2 ∈ l ∧ entry.1 = entry.2.opening.id := by
  unfold collect at h
  induction l generalizing entries with
  | nil => exact .inl h
  | cons found rest ih =>
    rcases ih h with hmem | ⟨hmem, hid⟩
    · rcases putIfAbsent_mem hmem with hold | rfl
      · exact .inl hold
      · exact .inr ⟨List.mem_cons_self, rfl⟩
    · exact .inr ⟨List.mem_cons_of_mem found hmem, hid⟩

/-- What a map of the scan holds: each opening that fits in some frame, once. -/
structure Candidates (openings : List (OpeningEntry δ))
    (Fits : OpeningEntry δ × TransformationType → Prop) (all : List (BestMatch δ)) : Prop where
  fits : ∀ found ∈ all, Fits (found.opening, found.type)
  length : ∀ found ∈ all, found.lineLength = found.opening.lineMoves.length
  openings_mem : ∀ opening,
    opening ∈ all.map BestMatch.opening ↔ opening ∈ openings ∧ ∃ type, Fits (opening, type)
  nodup : (all.map fun found => found.opening.id).Nodup

/-- An opening is known by its id. -/
theorem opening_of_id {openings : List (OpeningEntry δ)}
    (hids : (openings.map OpeningEntry.id).Nodup) {a b : OpeningEntry δ} (ha : a ∈ openings)
    (hb : b ∈ openings) (h : a.id = b.id) : a = b :=
  List.inj_on_of_nodup_map hids ha hb h

theorem candidates_collect {openings : List (OpeningEntry δ)}
    (hids : (openings.map OpeningEntry.id).Nodup)
    (Fits : OpeningEntry δ × TransformationType → Prop) [DecidablePred Fits] :
    Candidates openings Fits
      ((collect [] (((frames openings).filter fun found => Fits found).map matchOf)).map
        Prod.snd) := by
  -- whatever was collected is the match of some frame that fits
  have hmem : ∀ found ∈ (collect []
      (((frames openings).filter fun found => Fits found).map matchOf)).map Prod.snd,
      ∃ opening type, found = matchOf (opening, type) ∧ opening ∈ openings
        ∧ Fits (opening, type) := by
    intro found hfound
    obtain ⟨entry, hentry, rfl⟩ := List.mem_map.1 hfound
    rcases collect_mem hentry with hnil | ⟨hentry, -⟩
    · cases hnil
    obtain ⟨⟨opening, type⟩, hp, heq⟩ := List.mem_map.1 hentry
    obtain ⟨hp, hfits⟩ := List.mem_filter.1 hp
    exact ⟨opening, type, heq.symm, mem_frames.1 hp, of_decide_eq_true hfits⟩
  refine ⟨fun found h => ?_, fun found h => ?_, fun opening => ⟨fun h => ?_, ?_⟩, ?_⟩
  · obtain ⟨opening, type, rfl, -, hfits⟩ := hmem found h
    exact hfits
  · obtain ⟨opening, type, rfl, -, -⟩ := hmem found h
    rfl
  · obtain ⟨found, hfound, rfl⟩ := List.mem_map.1 h
    obtain ⟨opening, type, rfl, ho, hfits⟩ := hmem found hfound
    exact ⟨ho, type, hfits⟩
  · rintro ⟨ho, type, hfits⟩
    -- an opening that fits has an entry under its id, and ids are distinct
    have hkey : opening.id ∈ (collect []
        (((frames openings).filter fun found => Fits found).map matchOf)).map Prod.fst :=
      collect_keys.2 <| .inr ⟨matchOf (opening, type), List.mem_map.2
        ⟨_, List.mem_filter.2 ⟨mem_frames.2 ho, decide_eq_true hfits⟩, rfl⟩, rfl⟩
    obtain ⟨entry, hentry, hid⟩ := List.mem_map.1 hkey
    have hsnd := List.mem_map_of_mem (f := Prod.snd) hentry
    obtain ⟨opening', type', heq, ho', -⟩ := hmem entry.2 hsnd
    rcases collect_mem hentry with hnil | ⟨-, hown⟩
    · cases hnil
    have hsame : opening' = opening := by
      refine opening_of_id hids ho' ho ?_
      rw [← hid, hown, heq]
      rfl
    refine List.mem_map.2 ⟨entry.2, hsnd, ?_⟩
    rw [heq, ← hsame]
    rfl
  · have hnil : (([] : List (Text × BestMatch δ)).map Prod.fst).Nodup := List.nodup_nil
    have hkeys :=
      collect_nodup (((frames openings).filter fun found => Fits found).map matchOf) hnil
    rw [List.map_map]
    have heq : (collect [] (((frames openings).filter fun found => Fits found).map matchOf)).map
          ((fun found => found.opening.id) ∘ Prod.snd)
        = (collect [] (((frames openings).filter fun found => Fits found).map matchOf)).map
          Prod.fst := by
      refine List.map_congr_left fun entry hentry => ?_
      rcases collect_mem hentry with hnil | ⟨-, hown⟩
      · cases hnil
      · exact hown.symm
    rw [heq]
    exact hkeys

end

/-! ## The representative -/

section

variable {δ : Type} [LinearOrder δ]

instance : Std.TransCmp (preferred : BestMatch δ → BestMatch δ → Ordering) :=
  inferInstanceAs <| Std.TransCmp <|
    compareLex (fun a b : BestMatch δ => compareOn (fun m => m.opening.confidence) b a) <|
      compareLex (compareOn BestMatch.lineLength) (compareOn fun m => Utf16.ofText m.opening.id)

/-- `_preferred`, on openings. -/
def prefers (a b : OpeningEntry δ) : Bool :=
  (preferred (matchOf (a, .identity)) (matchOf (b, .identity))).isLE

theorem isLE_preferred {a b : BestMatch δ} (ha : a.lineLength = a.opening.lineMoves.length)
    (hb : b.lineLength = b.opening.lineMoves.length) :
    (preferred a b).isLE = prefers a.opening b.opening := by
  unfold prefers preferred
  rw [ha, hb]
  rfl

theorem prefers_trans (a b c : OpeningEntry δ) (hab : prefers a b = true)
    (hbc : prefers b c = true) : prefers a c = true :=
  Std.TransCmp.isLE_trans hab hbc

theorem prefers_total (a b : OpeningEntry δ) : (prefers a b || prefers b a) = true := by
  have hswap : preferred (matchOf (b, .identity)) (matchOf (a, .identity))
      = (preferred (matchOf (a, .identity)) (matchOf (b, .identity))).swap :=
    Std.OrientedCmp.eq_swap
  unfold prefers
  rw [hswap]
  cases preferred (matchOf (a, .identity)) (matchOf (b, .identity)) <;> rfl

/-- Only an opening of the same id ties. -/
theorem id_of_prefers {a b : OpeningEntry δ} (hab : prefers a b = true)
    (hba : prefers b a = true) : a.id = b.id := by
  have heq : preferred (matchOf (a, .identity)) (matchOf (b, .identity)) = .eq :=
    Std.OrientedCmp.isLE_antisymm hab hba
  unfold preferred at heq
  rw [Ordering.then_eq_eq, Ordering.then_eq_eq] at heq
  exact Utf16.ofText_injective (Std.LawfulEqOrd.eq_of_compare heq.2.2)

/-- The tier that names are taken from. -/
def topRank (l : List (OpeningEntry δ)) : Nat := (l.map sourceRank).min?.getD 0

/-- The openings of the top tier, the representative first. -/
def ranked (l : List (OpeningEntry δ)) : List (OpeningEntry δ) :=
  (l.filter fun opening => sourceRank opening = topRank l).mergeSort prefers

omit [LinearOrder δ] in
theorem min?_perm {l l' : List Nat} (h : l.Perm l') : l.min? = l'.min? := by
  cases hmin : l.min? with
  | none =>
    rw [List.min?_eq_none_iff] at hmin
    rw [hmin] at h
    rw [h.nil_eq.symm]
    rfl
  | some n =>
    obtain ⟨hmem, hle⟩ := List.min?_eq_some_iff.1 hmin
    exact (List.min?_eq_some_iff.2
      ⟨h.mem_iff.1 hmem, fun b hb => hle b (h.mem_iff.2 hb)⟩).symm

/-- The order in which the matches were found does not matter. -/
theorem ranked_perm {l l' : List (OpeningEntry δ)} (h : l.Perm l')
    (hids : (l.map OpeningEntry.id).Nodup) : ranked l = ranked l' := by
  have htop : topRank l = topRank l' := by
    unfold topRank
    rw [min?_perm (h.map sourceRank)]
  unfold ranked
  rw [← htop]
  have hfilter := h.filter fun opening => decide (sourceRank opening = topRank l)
  have hsorted : ∀ names : List (OpeningEntry δ),
      (names.mergeSort prefers).Pairwise fun a b => prefers a b = true :=
    fun names => List.pairwise_mergeSort prefers_trans prefers_total names
  refine List.Perm.eq_of_pairwise ?_ (hsorted _) (hsorted _)
    ((List.mergeSort_perm _ _).trans (hfilter.trans (List.mergeSort_perm _ _).symm))
  intro a b ha hb hab hba
  have ha := List.mem_of_mem_filter (List.mem_mergeSort.1 ha)
  have hb := List.mem_of_mem_filter (List.mem_mergeSort.1 hb)
  exact opening_of_id hids ha (h.mem_iff.2 hb) (id_of_prefers hab hba)

theorem ranked_ne_nil {l : List (OpeningEntry δ)} (h : l ≠ []) : ranked l ≠ [] := by
  obtain ⟨n, hn⟩ : ∃ n, (l.map sourceRank).min? = some n := by
    cases hmin : (l.map sourceRank).min? with
    | none => exact absurd (List.map_eq_nil_iff.1 (List.min?_eq_none_iff.1 hmin)) h
    | some n => exact ⟨n, rfl⟩
  obtain ⟨opening, hmem, hrank⟩ := List.mem_map.1 (List.min?_mem hn)
  have htop : topRank l = n := by rw [topRank, hn]; rfl
  have hin : opening ∈ ranked l :=
    List.mem_mergeSort.2 (List.mem_filter.2 ⟨hmem, decide_eq_true (hrank.trans htop.symm)⟩)
  exact List.ne_nil_of_mem hin

/-- The status, the confidence and the families that go with the ranked openings. -/
def statusOf (names : List (OpeningEntry δ)) (exact : Bool) : MillOpeningStatus :=
  if exact then if decide (1 < names.length) then .probable else .exact else .transposition

def confidenceOf (names : List (OpeningEntry δ)) (exact : Bool) : ℚ :=
  if exact then if decide (1 < names.length) then 1 / names.length else 1 else 7 / 10

def familiesOf (names : List (OpeningEntry δ)) : List Text :=
  ((names.map OpeningEntry.family).filter fun f => f ≠ []).eraseDups

theorem resolveAmbiguous_eq {first : BestMatch δ} {rest : List (BestMatch δ)}
    (hlength : ∀ found ∈ first :: rest, found.lineLength = found.opening.lineMoves.length)
    (ply : Nat) (exact : Bool) :
    let names := ranked ((first :: rest).map BestMatch.opening)
    ∃ found ∈ first :: rest, names.head? = some found.opening
      ∧ resolveAmbiguous first rest ply exact
        = build found ply (statusOf names exact) (confidenceOf names exact) (familiesOf names) := by
  intro names
  -- the top rank and the order depend on the openings alone, not on the frames they matched in
  have htop : (rest.map fun m => sourceRank m.opening).foldl min (sourceRank first.opening)
      = topRank ((first :: rest).map BestMatch.opening) := by
    unfold topRank
    rw [List.map_map]
    rfl
  have hnames : (((first :: rest).filter fun m => sourceRank m.opening
        = topRank ((first :: rest).map BestMatch.opening)).mergeSort
          fun a b => (preferred a b).isLE).map BestMatch.opening = names := by
    rw [List.map_mergeSort (s := prefers)]
    · show _ = ranked _
      unfold ranked
      rw [List.filter_map]
      rfl
    · intro a ha b hb
      exact isLE_preferred (hlength a (List.mem_of_mem_filter ha))
        (hlength b (List.mem_of_mem_filter hb))
  unfold resolveAmbiguous
  dsimp only
  rw [htop]
  generalize hsorted : ((first :: rest).filter fun m => sourceRank m.opening
    = topRank ((first :: rest).map BestMatch.opening)).mergeSort
      (fun a b => (preferred a b).isLE) = sorted at hnames ⊢
  have hne : names ≠ [] := ranked_ne_nil (List.cons_ne_nil _ _)
  cases sorted with
  | nil => exact absurd hnames.symm hne
  | cons found others =>
    refine ⟨found, ?_, ?_, ?_⟩
    · have hmem : found ∈ found :: others := List.mem_cons_self
      rw [← hsorted] at hmem
      exact List.mem_of_mem_filter (List.mem_mergeSort.1 hmem)
    · rw [← hnames]
      rfl
    · have hlen : (found :: others).length = names.length := by
        rw [← hnames, List.length_map]
      have hfamily : (found :: others).map (fun m => m.opening.family)
          = names.map OpeningEntry.family := by
        rw [← hnames, List.map_map]
        rfl
      rw [hlen, hfamily]
      rfl

end

end Sanmill.MillOpeningRecognizer
