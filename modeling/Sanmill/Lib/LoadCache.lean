import Sanmill.Lib.Numerals
import Mathlib.Data.List.Perm.Basic
import Mathlib.Data.List.Nodup

/-!
# Caches in load order

A cache keeps its entries by key, beside a queue of the keys in the order in which they were
loaded. Before an entry goes in, the oldest ones go out until there is room. As long as the
queue holds exactly the keys of the entries this never gets stuck, and what a cache holds
later is what was put into it.
-/

namespace Sanmill

/-- The entries, one for each key, and the queue of the keys. -/
structure LoadCache (κ α : Type) where
  entries : List (κ × α)
  order : List κ

namespace LoadCache

variable {κ α : Type}

/-- Nothing is loaded. -/
def empty : LoadCache κ α := ⟨[], []⟩

/-- The queue holds the keys of the entries, each once. -/
structure Ordered (cache : LoadCache κ α) : Prop where
  perm : (cache.entries.map Prod.fst).Perm cache.order
  nodup : cache.order.Nodup

theorem ordered_empty : Ordered (empty : LoadCache κ α) := ⟨.nil, .nil⟩

variable [DecidableEq κ]

/-- What is loaded under the key. -/
def get? (cache : LoadCache κ α) (key : κ) : Option α :=
  (cache.entries.find? fun entry => entry.1 = key).map Prod.snd

/-- The oldest entries go out until there are fewer than `capacity`; `none` where the queue
runs out or names a key without an entry. -/
def makeRoom (capacity : Nat) : List κ → List (κ × α) → Option (LoadCache κ α)
  | [], entries => if entries.length < capacity then some ⟨entries, []⟩ else none
  | key :: rest, entries =>
    if entries.length < capacity then some ⟨entries, key :: rest⟩
    else if entries.any fun entry => entry.1 = key then
      makeRoom capacity rest (entries.filter fun entry => entry.1 ≠ key)
    else none

/-- A new entry; `none` also for a capacity of zero. -/
def insert (capacity : Option Nat) (cache : LoadCache κ α) (key : κ) (value : α) :
    Option (LoadCache κ α) :=
  match capacity with
  | none => some ⟨(key, value) :: cache.entries, cache.order ++ [key]⟩
  | some capacity =>
    if 0 < capacity then
      (makeRoom capacity cache.order cache.entries).map fun room =>
        ⟨(key, value) :: room.entries, room.order ++ [key]⟩
    else none

variable {cache : LoadCache κ α} {key : κ} {value : α}

theorem get?_eq_some (h : cache.get? key = some value) : (key, value) ∈ cache.entries := by
  obtain ⟨entry, hfind, rfl⟩ := Option.map_eq_some_iff.1 h
  have hfound := List.find?_some hfind
  have hkey : entry.1 = key := of_decide_eq_true hfound
  rw [← hkey]
  exact List.mem_of_find?_eq_some hfind

theorem get?_eq_none (h : cache.get? key = none) : key ∉ cache.entries.map Prod.fst := by
  intro hmem
  obtain ⟨entry, hentry, hkey⟩ := List.mem_map.1 hmem
  have hnone := Option.map_eq_none_iff.1 h
  exact List.find?_eq_none.1 hnone entry hentry (decide_eq_true hkey)

/-- The oldest key has an entry, and without both the queue still fits. -/
theorem Ordered.pop {entries : List (κ × α)} {rest : List κ}
    (h : Ordered ⟨entries, key :: rest⟩) :
    (entries.any fun entry => entry.1 = key) = true
      ∧ Ordered ⟨entries.filter fun entry => entry.1 ≠ key, rest⟩ := by
  obtain ⟨hperm, hnodup⟩ := h
  obtain ⟨hnot, hrest⟩ := List.nodup_cons.1 hnodup
  constructor
  · have hmem : key ∈ entries.map Prod.fst := hperm.mem_iff.2 List.mem_cons_self
    obtain ⟨entry, hentry, hkey⟩ := List.mem_map.1 hmem
    exact List.any_eq_true.2 ⟨entry, hentry, decide_eq_true hkey⟩
  · refine ⟨?_, hrest⟩
    have hkeys : (entries.filter fun entry => entry.1 ≠ key).map Prod.fst
        = (entries.map Prod.fst).filter fun k => k ≠ key := by
      rw [List.filter_map]
      rfl
    have hqueue : (key :: rest).filter (fun k => decide (k ≠ key)) = rest := by
      rw [List.filter_cons_of_neg (by simp)]
      refine List.filter_eq_self.2 fun k hk => decide_eq_true ?_
      rintro rfl
      exact hnot hk
    show ((entries.filter fun entry => entry.1 ≠ key).map Prod.fst).Perm rest
    rw [hkeys, ← hqueue]
    exact hperm.filter _

theorem makeRoom_spec {capacity : Nat} (hpos : 0 < capacity) {order : List κ}
    {entries : List (κ × α)} (h : Ordered ⟨entries, order⟩) :
    ∃ room, makeRoom capacity order entries = some room ∧ Ordered room
      ∧ room.entries.Sublist entries := by
  induction order generalizing entries with
  | nil =>
    have hnil : entries = [] := List.map_eq_nil_iff.1 (List.perm_nil.1 h.perm)
    subst hnil
    exact ⟨⟨[], []⟩, if_pos hpos, h, .slnil⟩
  | cons key rest ih =>
    by_cases hroom : entries.length < capacity
    · exact ⟨⟨entries, key :: rest⟩, if_pos hroom, h, .refl _⟩
    · obtain ⟨hany, hpopped⟩ := h.pop
      obtain ⟨room, hmade, hordered, hsub⟩ := ih hpopped
      refine ⟨room, ?_, hordered, hsub.trans List.filter_sublist⟩
      unfold makeRoom
      rw [if_neg hroom, if_pos hany, hmade]

/-- **An entry goes in**, and everything else was there before. -/
theorem insert_spec {capacity : Option Nat} (hpos : ∀ c ∈ capacity, 0 < c) (h : Ordered cache)
    (hnew : cache.get? key = none) :
    ∃ cache', cache.insert capacity key value = some cache' ∧ Ordered cache'
      ∧ cache'.get? key = some value
      ∧ ∀ entry ∈ cache'.entries, entry = (key, value) ∨ entry ∈ cache.entries := by
  -- whatever room was made, the new key is none of the old ones and goes last in the order
  have hadd : ∀ room : LoadCache κ α, Ordered room → room.entries.Sublist cache.entries →
      Ordered ⟨(key, value) :: room.entries, room.order ++ [key]⟩ := by
    intro room hroom hsub
    have hnot : key ∉ room.order := fun hmem =>
      get?_eq_none hnew ((hsub.map Prod.fst).subset (hroom.perm.mem_iff.2 hmem))
    refine ⟨?_, List.nodup_append.2 ⟨hroom.nodup, List.nodup_singleton key, ?_⟩⟩
    · exact (hroom.perm.cons key).trans (List.perm_append_singleton key room.order).symm
    · rintro k hk k' hk' rfl
      rw [List.mem_singleton.1 hk'] at hk
      exact hnot hk
  have hget : ∀ room : LoadCache κ α,
      get? ⟨(key, value) :: room.entries, room.order ++ [key]⟩ key = some value := by
    intro room
    have hfind : ((key, value) :: room.entries).find? (fun entry => entry.1 = key)
        = some (key, value) := List.find?_cons_of_pos (by simp)
    unfold get?
    rw [hfind]
    rfl
  cases capacity with
  | none =>
    exact ⟨_, rfl, hadd cache h (.refl _), hget cache, fun entry hentry => List.mem_cons.1 hentry⟩
  | some capacity =>
    have hcapacity := hpos capacity rfl
    obtain ⟨room, hmade, hordered, hsub⟩ := makeRoom_spec hcapacity h
    refine ⟨_, ?_, hadd room hordered hsub, hget room, ?_⟩
    · unfold insert
      dsimp only
      rw [if_pos hcapacity, hmade]
      rfl
    · intro entry hentry
      exact (List.mem_cons.1 hentry).imp_right fun hmem => hsub.subset hmem

end LoadCache

end Sanmill
