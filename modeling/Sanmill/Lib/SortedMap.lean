import Sanmill.Lib.Numerals
import Mathlib.Data.List.Induction
import Mathlib.Data.List.Nodup
import Mathlib.Data.Nat.Init

/-!
# Sorted maps and searches in order

What a sorted map holds after a loop has inserted the entries of a list one by one. A hash
map lists its entries in an order of its own: a `Listing`.

The second part is a binary search over prefix lengths, with a predicate that need not be
monotone.
-/

namespace Sanmill

/-- An order in which a map may list its entries. -/
structure Listing (α : Type) where
  list : List α → List α
  perm : ∀ entries, (list entries).Perm entries

namespace SortedMap

open Std (TreeMap)

variable {α β : Type*} [Ord α] [Std.TransOrd α] [Std.LawfulEqOrd α]

/-- The entries inserted in order. -/
def collect (entries : List (α × β)) : TreeMap α β :=
  entries.foldl (fun map entry => map.insert entry.1 entry.2) ∅

theorem getElem?_collect {entries : List (α × β)} (hkeys : (entries.map Prod.fst).Nodup)
    (k : α) (v : β) : (collect entries)[k]? = some v ↔ (k, v) ∈ entries := by
  induction entries using List.reverseRecOn with
  | nil => simp [collect]
  | append_singleton entries entry ih =>
    rw [List.map_append, List.nodup_append] at hkeys
    have hlast : collect (entries ++ [entry]) = (collect entries).insert entry.1 entry.2 :=
      List.foldl_append
    rw [hlast, Std.TreeMap.getElem?_insert, List.mem_append, List.mem_singleton]
    by_cases hk : entry.1 = k
    · have hnot : (k, v) ∉ entries := by
        intro hmem
        have hfst : k ∈ entries.map Prod.fst := List.mem_map_of_mem hmem
        exact hkeys.2.2 k hfst entry.1 (by simp) hk.symm
      rw [if_pos (Std.compare_eq_iff_eq.2 hk), Option.some.injEq]
      constructor
      · intro hv
        exact .inr (Prod.ext hk.symm hv.symm)
      · rintro (hmem | hentry)
        · exact absurd hmem hnot
        · rw [← hentry]
    · rw [if_neg (fun h => hk (Std.compare_eq_iff_eq.1 h)), ih hkeys.1]
      constructor
      · intro hmem
        exact .inl hmem
      · rintro (hmem | hentry)
        · exact hmem
        · rw [← hentry] at hk
          exact absurd rfl hk

/-- A map lists each key once. -/
theorem nodup_keys (map : TreeMap α β) : (map.toList.map Prod.fst).Nodup := by
  rw [List.nodup_iff_pairwise_ne, List.pairwise_map]
  refine (Std.TreeMap.distinct_keys_toList (t := map)).imp ?_
  intro a b hne heq
  exact hne (Std.compare_eq_iff_eq.2 heq)

theorem mem_toList {map : TreeMap α β} {k : α} {v : β} :
    (k, v) ∈ map.toList ↔ map[k]? = some v := Std.TreeMap.mem_toList_iff_getElem?_eq_some

end SortedMap

end Sanmill

/-!
## Searching a prefix length

The search keeps a length that fits, or the smallest one, and a bound above it. Where the
predicate is not monotone the result need not be the largest length that fits, but it fits
unless it is the smallest. A probe may fail, and the search with it.
-/

namespace Sanmill.PrefixSearch

/-- The loop between two bounds, for at most as many rounds as the fuel says. -/
def search (fits : Nat → Option Bool) : Nat → Nat → Nat → Option Nat
  | 0, low, _ => some low
  | fuel + 1, low, high =>
    if low < high then
      let mid := low + (high - low + 1) / 2
      (fits mid).bind fun fit =>
        if fit then search fits fuel mid high else search fits fuel low (mid - 1)
    else some low

variable {fits : Nat → Option Bool}

/-- What the search returns lies between the bounds, and fits unless it is the lower one. -/
theorem search_spec {fuel low high n : Nat} (hbounds : low ≤ high)
    (h : search fits fuel low high = some n) :
    low ≤ n ∧ n ≤ high ∧ (n = low ∨ fits n = some true) := by
  induction fuel generalizing low high with
  | zero =>
    cases h
    exact ⟨Nat.le_refl _, hbounds, .inl rfl⟩
  | succ fuel ih =>
    rw [search] at h
    by_cases hopen : low < high
    · rw [if_pos hopen] at h
      obtain ⟨fit, hfit, hrest⟩ := Option.bind_eq_some_iff.1 h
      cases fit with
      | true =>
        obtain ⟨hlow, hhigh, hcase⟩ := ih (by omega) hrest
        refine ⟨by omega, hhigh, .inr ?_⟩
        rcases hcase with heq | hn
        · rw [heq]
          exact hfit
        · exact hn
      | false =>
        obtain ⟨hlow, hhigh, hcase⟩ := ih (by omega) hrest
        exact ⟨hlow, by omega, hcase⟩
    · rw [if_neg hopen] at h
      cases h
      exact ⟨Nat.le_refl _, hbounds, .inl rfl⟩

end Sanmill.PrefixSearch
