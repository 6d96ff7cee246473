import Mathlib.Data.List.Induction
import Mathlib.Data.List.Nodup

/-!
# Items grouped under keys

A loop that appends each item to the group of its key. Each key has one group, which holds
its items in the order in which they came.
-/

namespace Sanmill.Grouping

variable {κ α : Type*} [DecidableEq κ]

/-- The item joins the group of its key. -/
def push (k : κ) (a : α) : List (κ × List α) → List (κ × List α)
  | [] => [(k, [a])]
  | (other, items) :: rest =>
    if other = k then (other, items ++ [a]) :: rest else (other, items) :: push k a rest

/-- The entries by key, the keys in the order of their first entry. -/
def group (entries : List (κ × α)) : List (κ × List α) :=
  entries.foldl (fun groups entry => push entry.1 entry.2 groups) []

/-- The items of a key, in order. -/
def itemsAt (entries : List (κ × α)) (k : κ) : List α :=
  (entries.filter fun entry => entry.1 = k).map Prod.snd

theorem mem_keys_push {k other : κ} {a : α} {groups : List (κ × List α)} :
    other ∈ (push k a groups).map Prod.fst ↔ other = k ∨ other ∈ groups.map Prod.fst := by
  induction groups with
  | nil => simp [push]
  | cons entry rest ih =>
    obtain ⟨key, items⟩ := entry
    rw [push]
    by_cases hkey : key = k
    · rw [if_pos hkey, List.map_cons, List.mem_cons, List.map_cons, List.mem_cons, hkey]
      constructor
      · intro h
        exact .inr h
      · rintro (h | h)
        · exact .inl h
        · exact h
    · rw [if_neg hkey, List.map_cons, List.mem_cons, ih, List.map_cons, List.mem_cons]
      exact or_left_comm

theorem nodup_push {k : κ} {a : α} {groups : List (κ × List α)}
    (h : (groups.map Prod.fst).Nodup) : ((push k a groups).map Prod.fst).Nodup := by
  induction groups with
  | nil => simp [push]
  | cons entry rest ih =>
    obtain ⟨key, items⟩ := entry
    rw [List.map_cons, List.nodup_cons] at h
    rw [push]
    by_cases hkey : key = k
    · rw [if_pos hkey, List.map_cons, List.nodup_cons]
      exact h
    · rw [if_neg hkey, List.map_cons, List.nodup_cons]
      refine ⟨?_, ih h.2⟩
      intro hmem
      rcases mem_keys_push.1 hmem with heq | hrest
      · exact hkey heq
      · exact h.1 hrest

/-- The groups hold the items of the entries. -/
structure Holds (entries : List (κ × α)) (groups : List (κ × List α)) : Prop where
  nodup : (groups.map Prod.fst).Nodup
  keys : ∀ k, k ∈ groups.map Prod.fst ↔ ∃ a, (k, a) ∈ entries
  items : ∀ k items, (k, items) ∈ groups → items = itemsAt entries k

theorem mem_push {k other : κ} {a : α} {items : List α} {groups : List (κ × List α)}
    (hnodup : (groups.map Prod.fst).Nodup) (h : (other, items) ∈ push k a groups) :
    (other ≠ k ∧ (other, items) ∈ groups)
      ∨ (other = k ∧ ((∃ old, (k, old) ∈ groups ∧ items = old ++ [a])
        ∨ (k ∉ groups.map Prod.fst ∧ items = [a]))) := by
  induction groups with
  | nil =>
    have hpair := List.mem_singleton.1 h
    cases hpair
    exact .inr ⟨rfl, .inr ⟨by simp, rfl⟩⟩
  | cons entry rest ih =>
    obtain ⟨key, old⟩ := entry
    rw [List.map_cons, List.nodup_cons] at hnodup
    rw [push] at h
    by_cases hkey : key = k
    -- the key is here: the group grows, and as keys are distinct no later group has it
    · rw [if_pos hkey] at h
      rcases List.mem_cons.1 h with hpair | hrest
      · cases hpair
        exact .inr ⟨hkey, .inl ⟨old, by rw [hkey]; exact List.mem_cons_self, rfl⟩⟩
      · refine .inl ⟨?_, List.mem_cons_of_mem _ hrest⟩
        intro heq
        apply hnodup.1
        rw [hkey, ← heq]
        exact List.mem_map.2 ⟨_, hrest, rfl⟩
    -- the key comes later, if at all
    · rw [if_neg hkey] at h
      rcases List.mem_cons.1 h with hpair | hrest
      · cases hpair
        exact .inl ⟨hkey, List.mem_cons_self⟩
      · rcases ih hnodup.2 hrest with ⟨hne, hmem⟩ | ⟨heq, hcase⟩
        · exact .inl ⟨hne, List.mem_cons_of_mem _ hmem⟩
        · refine .inr ⟨heq, ?_⟩
          rcases hcase with ⟨found, hfound, hitems⟩ | ⟨hnone, hitems⟩
          · exact .inl ⟨found, List.mem_cons_of_mem _ hfound, hitems⟩
          · refine .inr ⟨?_, hitems⟩
            rw [List.map_cons, List.mem_cons, not_or]
            exact ⟨fun hk => hkey hk.symm, hnone⟩

theorem Holds.push {entries : List (κ × α)} {groups : List (κ × List α)}
    (h : Holds entries groups) (k : κ) (a : α) :
    Holds (entries ++ [(k, a)]) (Grouping.push k a groups) where
  nodup := nodup_push h.nodup
  keys := by
    intro other
    rw [mem_keys_push, h.keys]
    constructor
    · rintro (heq | ⟨b, hb⟩)
      · exact ⟨a, by simp [heq]⟩
      · exact ⟨b, by simp [hb]⟩
    · rintro ⟨b, hb⟩
      rcases List.mem_append.1 hb with hb | hb
      · exact .inr ⟨b, hb⟩
      · cases List.mem_singleton.1 hb
        exact .inl rfl
  items := by
    intro other items hmem
    have hfilter : itemsAt (entries ++ [(k, a)]) other
        = itemsAt entries other ++ if k = other then [a] else [] := by
      unfold itemsAt
      rw [List.filter_append, List.map_append]
      by_cases hk : k = other
      · rw [if_pos hk]
        simp [hk]
      · rw [if_neg hk]
        simp [hk]
    rw [hfilter]
    rcases mem_push h.nodup hmem with ⟨hne, hold⟩ | ⟨heq, hcase⟩
    · rw [if_neg (fun hk => hne hk.symm), List.append_nil]
      exact h.items other items hold
    · rw [if_pos heq.symm, heq]
      rcases hcase with ⟨old, hold, hitems⟩ | ⟨hnone, hitems⟩
      · rw [hitems, h.items k old hold]
      · -- no entry of this key came before
        have hempty : itemsAt entries k = [] := by
          unfold itemsAt
          rw [List.map_eq_nil_iff, List.filter_eq_nil_iff]
          intro entry hentry hk
          apply hnone
          rw [h.keys]
          refine ⟨entry.2, ?_⟩
          rw [← of_decide_eq_true hk]
          exact hentry
        rw [hitems, hempty, List.nil_append]

theorem holds_group (entries : List (κ × α)) : Holds entries (group entries) := by
  induction entries using List.reverseRecOn with
  | nil =>
    refine ⟨by simp [group], ?_, ?_⟩
    · intro k
      simp [group]
    · intro k items h
      cases h
  | append_singleton entries entry ih =>
    have hgroup : group (entries ++ [entry]) = Grouping.push entry.1 entry.2 (group entries) :=
      List.foldl_append
    rw [hgroup]
    exact ih.push entry.1 entry.2

end Sanmill.Grouping
