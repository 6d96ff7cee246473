import Sanmill.Lib.Numerals
import Mathlib.Data.List.Induction
import Mathlib.Data.List.Nodup

/-!
# Scattered writes

A loop that writes values to positions of an array. When the positions are distinct,
nothing written is overwritten.
-/

namespace Sanmill

variable {α β : Type}

/-- Perform the writes `(position, value)` in turn. -/
def scatter (writes : List (Nat × α)) (init : List α) : List α :=
  writes.foldl (fun result write => result.set write.1 write.2) init

theorem scatter_append (writes : List (Nat × α)) (write : Nat × α) (init : List α) :
    scatter (writes ++ [write]) init = (scatter writes init).set write.1 write.2 := by
  unfold scatter
  rw [List.foldl_append]
  rfl

theorem length_scatter (writes : List (Nat × α)) (init : List α) :
    (scatter writes init).length = init.length := by
  induction writes using List.reverseRecOn with
  | nil => rfl
  | append_singleton writes write ih => rw [scatter_append, List.length_set, ih]

/-- **Distinct positions hold what was written to them.** -/
theorem getElem?_scatter {writes : List (Nat × α)} {init : List α}
    (hnodup : (writes.map Prod.fst).Nodup) {k : Nat} {a : α} (hmem : (k, a) ∈ writes)
    (hk : k < init.length) : (scatter writes init)[k]? = some a := by
  induction writes using List.reverseRecOn with
  | nil => exact absurd hmem List.not_mem_nil
  | append_singleton writes write ih =>
    obtain ⟨j, b⟩ := write
    rw [List.map_append, List.map_singleton, List.nodup_append] at hnodup
    obtain ⟨hnodup, -, hdisjoint⟩ := hnodup
    rw [scatter_append]
    rcases List.mem_append.1 hmem with hmem | hmem
    · have hne : k ≠ j :=
        hdisjoint k (List.mem_map_of_mem hmem) j (List.mem_singleton.2 rfl)
      rw [List.getElem?_set_ne hne.symm]
      exact ih hnodup hmem
    · obtain ⟨rfl, rfl⟩ := Prod.mk.inj (List.mem_singleton.1 hmem)
      rw [List.getElem?_set_self]
      rwa [length_scatter]

/-! ## Moving the elements of a list along a map of its positions -/

section MoveAlong

variable {n : Nat} {f : Fin n → Fin n} {blank : α} {l : List α}

/-- The element at `i` goes to `f i`. -/
def moveAlong (f : Fin n → Fin n) (blank : α) (l : List α) : List α :=
  scatter ((List.finRange n).map fun i => ((f i).val, l.getD i.val blank)) (List.replicate n blank)

theorem length_moveAlong (f : Fin n → Fin n) (blank : α) (l : List α) :
    (moveAlong f blank l).length = n := by
  unfold moveAlong
  rw [length_scatter, List.length_replicate]

theorem getElem?_moveAlong (hf : Function.Injective f) (hl : l.length = n) (i : Fin n) :
    (moveAlong f blank l)[(f i).val]? = l[i.val]? := by
  have hi : i.val < l.length := hl ▸ i.isLt
  rw [List.getElem?_eq_getElem hi]
  refine getElem?_scatter ?_ ?_ (by
    rw [List.length_replicate]
    exact (f i).isLt)
  · rw [List.map_map]
    exact (List.nodup_finRange n).map fun j k hjk => hf (Fin.ext hjk)
  · refine List.mem_map.2 ⟨i, List.mem_finRange i, ?_⟩
    rw [List.getD_eq_getElem?_getD, List.getElem?_eq_getElem hi, Option.getD_some]

/-- Lists agree when they agree at every image of a position. -/
theorem ext_along {a b : List α} (hf : Function.Surjective f) (ha : a.length = n)
    (hb : b.length = n) (h : ∀ i, a[(f i).val]? = b[(f i).val]?) : a = b := by
  refine List.ext_getElem? fun k => ?_
  by_cases hk : k < n
  · obtain ⟨i, hi⟩ := hf ⟨k, hk⟩
    have := h i
    rwa [hi] at this
  · rw [List.getElem?_eq_none (by omega), List.getElem?_eq_none (by omega)]

theorem moveAlong_id (hl : l.length = n) : moveAlong (fun i : Fin n => i) blank l = l :=
  ext_along Function.surjective_id (length_moveAlong _ _ _) hl fun i =>
    getElem?_moveAlong Function.injective_id hl i

theorem moveAlong_comp {g h : Fin n → Fin n} (hf : Function.Injective f)
    (hg : Function.Injective g) (hh : Function.Bijective h) (heq : ∀ i, h i = g (f i))
    (hl : l.length = n) : moveAlong h blank l = moveAlong g blank (moveAlong f blank l) :=
  ext_along hh.2 (length_moveAlong _ _ _) (length_moveAlong _ _ _) fun i => by
    rw [getElem?_moveAlong hh.1 hl, heq, getElem?_moveAlong hg (length_moveAlong _ _ _),
      getElem?_moveAlong hf hl]

/-- A moved list has the elements it had. -/
theorem mem_of_mem_moveAlong (hf : Function.Bijective f) (hl : l.length = n) {a : α}
    (h : a ∈ moveAlong f blank l) : a ∈ l := by
  obtain ⟨k, hk⟩ := List.mem_iff_getElem?.1 h
  have hlt : k < n := by
    rw [← length_moveAlong f blank l]
    exact (List.getElem?_eq_some_iff.1 hk).1
  obtain ⟨i, hi⟩ := hf.2 ⟨k, hlt⟩
  have hval : (f i).val = k := congrArg Fin.val hi
  rw [← hval, getElem?_moveAlong hf.1 hl] at hk
  exact List.mem_of_getElem? hk

end MoveAlong

/-- A fold whose steps all succeed is a fold. -/
theorem foldlM_eq_pure {m : Type → Type} [Monad m] [LawfulMonad m] {f : β → α → m β}
    {g : β → α → β} {l : List α} (h : ∀ b, ∀ a ∈ l, f b a = pure (g b a)) (b : β) :
    l.foldlM f b = pure (l.foldl g b) := by
  induction l generalizing b with
  | nil => rfl
  | cons a l ih =>
    rw [List.foldlM_cons, h b a List.mem_cons_self, pure_bind, List.foldl_cons]
    exact ih (fun b' a' ha' => h b' a' (List.mem_cons_of_mem a ha')) (g b a)

end Sanmill
