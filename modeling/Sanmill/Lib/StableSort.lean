import Sanmill.Lib.Numerals
import Mathlib.Data.List.Sort

/-!
# A stable descending insertion sort

`sortDesc` puts each element into a sorted prefix, behind all elements of its own key. It is
the stable sort by descending keys, and it puts a first greatest element in front of the
sorted rest.
-/

namespace Sanmill.StableSort

variable {α β : Type} (key : α → Int)

/-- The prefix is kept with its last element first. -/
def insertDesc (x : α) : List α → List α
  | [] => [x]
  | prev :: rest => if key prev < key x then prev :: insertDesc x rest else x :: prev :: rest

/-- The greatest keys first, equal ones in the order they came in. -/
def sortDesc (l : List α) : List α :=
  (l.foldl (fun sorted x => insertDesc key x sorted) []).reverse

/-- The order of the result, as `mergeSort` takes it. -/
def descending (a b : α) : Bool := decide (key b ≤ key a)

theorem insertDesc_perm (x : α) (sorted : List α) :
    (insertDesc key x sorted).Perm (x :: sorted) := by
  induction sorted with
  | nil => exact List.Perm.refl _
  | cons prev rest ih =>
    unfold insertDesc
    split
    · exact (ih.cons prev).trans (List.Perm.swap x prev rest)
    · exact List.Perm.refl _

theorem foldl_insertDesc_perm (l sorted : List α) :
    (l.foldl (fun sorted x => insertDesc key x sorted) sorted).Perm (l ++ sorted) := by
  induction l generalizing sorted with
  | nil => exact List.Perm.refl _
  | cons x rest ih =>
    have hinsert := (insertDesc_perm key x sorted).append_left rest
    exact (ih (insertDesc key x sorted)).trans (hinsert.trans List.perm_middle)

theorem sortDesc_perm (l : List α) : (sortDesc key l).Perm l := by
  have h := foldl_insertDesc_perm key l []
  rw [List.append_nil] at h
  exact (List.reverse_perm _).trans h

/-! ## Maps -/

theorem insertDesc_map (f : α → β) (key : β → Int) (x : α) (sorted : List α) :
    (insertDesc (fun a => key (f a)) x sorted).map f = insertDesc key (f x) (sorted.map f) := by
  induction sorted with
  | nil => rfl
  | cons prev rest ih =>
    simp only [insertDesc, List.map_cons]
    split
    · rw [List.map_cons, ih]
    · rfl

/-- Sorting commutes with a map that the keys read through. -/
theorem sortDesc_map (f : α → β) (key : β → Int) (l : List α) :
    (sortDesc (fun a => key (f a)) l).map f = sortDesc key (l.map f) := by
  have hfold : ∀ sorted : List α,
      (l.foldl (fun sorted x => insertDesc (fun a => key (f a)) x sorted) sorted).map f
        = (l.map f).foldl (fun sorted x => insertDesc key x sorted) (sorted.map f) := by
    induction l with
    | nil => exact fun sorted => rfl
    | cons x rest ih =>
      intro sorted
      rw [List.map_cons, List.foldl_cons, List.foldl_cons, ih, insertDesc_map]
  unfold sortDesc
  rw [List.map_reverse, hfold []]
  rfl

theorem insertDesc_congr {key key' : α → Int} {x : α} {sorted : List α} (hx : key x = key' x)
    (h : ∀ a ∈ sorted, key a = key' a) : insertDesc key x sorted = insertDesc key' x sorted := by
  induction sorted with
  | nil => rfl
  | cons prev rest ih =>
    have hprev : key prev = key' prev := h prev List.mem_cons_self
    have hrest : ∀ a ∈ rest, key a = key' a := fun a ha => h a (List.mem_cons_of_mem prev ha)
    unfold insertDesc
    rw [hprev, hx, ih hrest]

theorem foldl_insertDesc_congr {key key' : α → Int} {l sorted : List α}
    (hl : ∀ a ∈ l, key a = key' a) (hsorted : ∀ a ∈ sorted, key a = key' a) :
    l.foldl (fun sorted x => insertDesc key x sorted) sorted
      = l.foldl (fun sorted x => insertDesc key' x sorted) sorted := by
  induction l generalizing sorted with
  | nil => rfl
  | cons x rest ih =>
    have hx : key x = key' x := hl x List.mem_cons_self
    rw [List.foldl_cons, List.foldl_cons, ← insertDesc_congr hx hsorted]
    refine ih (fun a ha => hl a (List.mem_cons_of_mem x ha)) fun a ha => ?_
    rcases List.mem_cons.1 ((insertDesc_perm key x sorted).mem_iff.1 ha) with rfl | ha
    · exact hx
    · exact hsorted a ha

theorem sortDesc_congr {key key' : α → Int} {l : List α} (h : ∀ a ∈ l, key a = key' a) :
    sortDesc key l = sortDesc key' l := by
  unfold sortDesc
  rw [foldl_insertDesc_congr h (by simp)]

/-! ## Promotion -/

/-- Nothing passes an element of a key that is at least as great. -/
theorem insertDesc_concat {x top : α} (h : key x ≤ key top) (sorted : List α) :
    insertDesc key x (sorted ++ [top]) = insertDesc key x sorted ++ [top] := by
  induction sorted with
  | nil =>
    show (if key top < key x then _ else _) = _
    rw [if_neg (by omega)]
    rfl
  | cons prev rest ih =>
    simp only [List.cons_append, insertDesc]
    split
    · rw [ih, List.cons_append]
    · rfl

theorem foldl_insertDesc_concat {top : α} {l : List α} (h : ∀ a ∈ l, key a ≤ key top)
    (sorted : List α) :
    l.foldl (fun sorted x => insertDesc key x sorted) (sorted ++ [top])
      = l.foldl (fun sorted x => insertDesc key x sorted) sorted ++ [top] := by
  induction l generalizing sorted with
  | nil => rfl
  | cons x rest ih =>
    rw [List.foldl_cons, List.foldl_cons, insertDesc_concat key (h x List.mem_cons_self),
      ih fun a ha => h a (List.mem_cons_of_mem x ha)]

theorem insertDesc_top {top : α} {sorted : List α} (h : ∀ a ∈ sorted, key a < key top) :
    insertDesc key top sorted = sorted ++ [top] := by
  induction sorted with
  | nil => rfl
  | cons prev rest ih =>
    unfold insertDesc
    rw [if_pos (h prev List.mem_cons_self), ih fun a ha => h a (List.mem_cons_of_mem prev ha)]
    rfl

/-- A first element of the greatest key comes first, and the rest is sorted without it. -/
theorem sortDesc_promote {front back : List α} {top : α} (hfront : ∀ a ∈ front, key a < key top)
    (hback : ∀ a ∈ back, key a ≤ key top) :
    sortDesc key (front ++ top :: back) = top :: sortDesc key (front ++ back) := by
  have hsorted : ∀ a ∈ front.foldl (fun sorted x => insertDesc key x sorted) [],
      key a < key top := by
    intro a ha
    have hmem := (foldl_insertDesc_perm key front []).mem_iff.1 ha
    rw [List.append_nil] at hmem
    exact hfront a hmem
  unfold sortDesc
  rw [List.foldl_append, List.foldl_cons, insertDesc_top key hsorted,
    foldl_insertDesc_concat key hback, List.reverse_append, List.foldl_append]
  rfl

/-! ## The stable sort -/

theorem descending_trans (a b c : α) :
    descending key a b → descending key b c → descending key a c := by
  unfold descending
  rw [decide_eq_true_eq, decide_eq_true_eq, decide_eq_true_eq]
  omega

theorem descending_total (a b : α) : descending key a b || descending key b a := by
  unfold descending
  rw [Bool.or_eq_true, decide_eq_true_eq, decide_eq_true_eq]
  omega

/-- The order with ties broken by the places. -/
theorem zipIdxLE_descending (a b : α × Nat) :
    List.zipIdxLE (descending key) a b = true
      ↔ key b.1 < key a.1 ∨ key b.1 = key a.1 ∧ a.2 ≤ b.2 := by
  unfold List.zipIdxLE descending
  by_cases hab : key b.1 ≤ key a.1
  · by_cases hba : key a.1 ≤ key b.1
    · simp only [hab, hba, decide_true, if_true, decide_eq_true_eq]
      omega
    · simp only [hab, hba, decide_true, decide_false, if_true, Bool.false_eq_true, if_false,
        true_iff]
      omega
  · simp only [hab, decide_false, Bool.false_eq_true, if_false, false_iff]
    omega

/-- The prefix, last element first, stays in order with the places as tie breaks. -/
theorem insertDesc_sorted {x : α × Nat} {sorted : List (α × Nat)}
    (hnew : ∀ a ∈ sorted, a.2 < x.2)
    (h : sorted.Pairwise fun a b => List.zipIdxLE (descending key) b a = true) :
    (insertDesc (fun a => key a.1) x sorted).Pairwise
      fun a b => List.zipIdxLE (descending key) b a = true := by
  induction sorted with
  | nil => exact List.pairwise_singleton _ _
  | cons prev rest ih =>
    obtain ⟨hprev, hrest⟩ := List.pairwise_cons.1 h
    have hnewRest : ∀ a ∈ rest, a.2 < x.2 := fun a ha => hnew a (List.mem_cons_of_mem prev ha)
    unfold insertDesc
    split
    · rename_i hlt
      refine List.pairwise_cons.2 ⟨fun a ha => ?_, ih hnewRest hrest⟩
      rcases List.mem_cons.1 ((insertDesc_perm _ x rest).mem_iff.1 ha) with rfl | ha
      · exact (zipIdxLE_descending key _ _).2 (.inl hlt)
      · exact hprev a ha
    · rename_i hge
      refine List.pairwise_cons.2 ⟨fun a ha => ?_, h⟩
      have hplace : a.2 < x.2 := hnew a ha
      have hkey : key prev.1 ≤ key a.1 := by
        rcases List.mem_cons.1 ha with rfl | ha
        · exact le_refl _
        · rcases (zipIdxLE_descending key _ _).1 (hprev a ha) with hlt | ⟨heq, -⟩
          · exact le_of_lt hlt
          · exact le_of_eq heq
      refine (zipIdxLE_descending key _ _).2 ?_
      omega

theorem foldl_insertDesc_sorted {l sorted : List (α × Nat)}
    (hl : l.Pairwise fun a b => a.2 < b.2) (hnew : ∀ a ∈ sorted, ∀ b ∈ l, a.2 < b.2)
    (h : sorted.Pairwise fun a b => List.zipIdxLE (descending key) b a = true) :
    (l.foldl (fun sorted x => insertDesc (fun a => key a.1) x sorted) sorted).Pairwise
      fun a b => List.zipIdxLE (descending key) b a = true := by
  induction l generalizing sorted with
  | nil => exact h
  | cons x rest ih =>
    obtain ⟨hx, hrest⟩ := List.pairwise_cons.1 hl
    refine ih hrest (fun a ha b hb => ?_)
      (insertDesc_sorted key (fun a ha => hnew a ha x List.mem_cons_self) h)
    rcases List.mem_cons.1 ((insertDesc_perm _ x sorted).mem_iff.1 ha) with rfl | ha
    · exact hx b hb
    · exact hnew a ha b (List.mem_cons_of_mem x hb)

theorem zipIdx_places (l : List α) (n : Nat) : (l.zipIdx n).Pairwise fun a b => a.2 < b.2 := by
  have h : ((l.zipIdx n).map Prod.snd).Pairwise (· < ·) := by
    rw [List.zipIdx_map_snd]
    exact List.pairwise_lt_range'
  exact List.pairwise_map.1 h

/-- The insertion sort is the stable sort by descending keys. -/
theorem sortDesc_eq_mergeSort (l : List α) : sortDesc key l = l.mergeSort (descending key) := by
  -- the places make the keys of equal elements differ, so only one sorted order is left
  have hsorted : (sortDesc (fun a : α × Nat => key a.1) l.zipIdx).Pairwise
      fun a b => List.zipIdxLE (descending key) a b = true := by
    unfold sortDesc
    rw [List.pairwise_reverse]
    exact foldl_insertDesc_sorted key (zipIdx_places l 0) (by simp) List.Pairwise.nil
  have hmerge := List.pairwise_mergeSort (List.zipIdxLE_trans (descending_trans key))
    (List.zipIdxLE_total (descending_total key)) l.zipIdx
  have hperm := (sortDesc_perm (fun a : α × Nat => key a.1) l.zipIdx).trans
    (List.mergeSort_perm l.zipIdx (List.zipIdxLE (descending key))).symm
  have hplace : ∀ a ∈ l.zipIdx, ∀ b ∈ l.zipIdx, a.2 = b.2 → a = b := by
    intro a ha b hb hab
    have hnodup : (l.zipIdx.map Prod.snd).Nodup := by
      rw [List.zipIdx_map_snd]
      exact List.nodup_range'
    exact List.inj_on_of_nodup_map hnodup ha hb hab
  have heq : sortDesc (fun a : α × Nat => key a.1) l.zipIdx
      = l.zipIdx.mergeSort (List.zipIdxLE (descending key)) := by
    refine hperm.eq_of_pairwise (fun a b ha hb hab hba => ?_) hsorted hmerge
    have ha' := (sortDesc_perm _ l.zipIdx).mem_iff.1 ha
    have hb' := (List.mergeSort_perm l.zipIdx _).mem_iff.1 hb
    -- two elements that each come before the other have one place
    refine hplace a ha' b hb' ?_
    rcases (zipIdxLE_descending key a b).1 hab with hlt | ⟨hkey, hle⟩
    · rcases (zipIdxLE_descending key b a).1 hba with hlt' | ⟨hkey', hle'⟩
      · omega
      · omega
    · rcases (zipIdxLE_descending key b a).1 hba with hlt' | ⟨hkey', hle'⟩
      · omega
      · omega
  have hmap := sortDesc_map Prod.fst key l.zipIdx
  rw [List.zipIdx_map_fst, heq, List.mergeSort_zipIdx] at hmap
  exact hmap.symm

theorem sortDesc_of_pairwise {l : List α} (h : l.Pairwise fun a b => key b ≤ key a) :
    sortDesc key l = l := by
  rw [sortDesc_eq_mergeSort]
  refine List.mergeSort_of_pairwise (h.imp fun {a b} hab => ?_)
  exact decide_eq_true hab

end Sanmill.StableSort
