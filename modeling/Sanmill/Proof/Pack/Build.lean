import Sanmill.Pack.Build
import Sanmill.Proof.PerfectDb.CanonicalKey

/-!
# What a budget leaves in a patch file

The file holds the records of the entries that are kept, once each and in strict order; the
kept part of the pool is a prefix of its ranking, so that blunders are dropped only after
all steering entries.
-/

namespace Sanmill.Pack

open PerfectDb

/-! ## Sorting by distinct keys -/

theorem pairwise_lt_insertionSort {α β : Type*} [LinearOrder β] (key : α → β) {l : List α}
    (h : (l.map key).Nodup) :
    (l.insertionSort fun a b => key a ≤ key b).Pairwise fun a b => key a < key b := by
  have hsorted : (l.insertionSort fun a b => key a ≤ key b).Pairwise
      fun a b => key a ≤ key b := by
    have : Std.Total fun a b : α => key a ≤ key b := ⟨fun a b => le_total (key a) (key b)⟩
    have : IsTrans α fun a b : α => key a ≤ key b := ⟨fun a b c => le_trans⟩
    exact List.pairwise_insertionSort _ l
  have hdistinct : (l.insertionSort fun a b => key a ≤ key b).Pairwise
      fun a b => key a ≠ key b := by
    have hkeys := ((List.perm_insertionSort (fun a b => key a ≤ key b) l).map key).nodup_iff.2 h
    rwa [List.nodup_iff_pairwise_ne, List.pairwise_map] at hkeys
  exact (hsorted.and hdistinct).imp fun hab => lt_of_le_of_ne hab.1 hab.2

/-! ## Prefixes of a list whose marked elements come first -/

section Marked

variable {α : Type*} {mark : α → Bool}

theorem countP_take {l : List α} (h : l.Pairwise fun a b => mark b = true → mark a = true)
    (n : Nat) : (l.take n).countP mark = min n (l.countP mark) := by
  induction l generalizing n with
  | nil => simp
  | cons a rest ih =>
    rw [List.pairwise_cons] at h
    cases n with
    | zero => simp
    | succ n =>
      rw [List.take_succ_cons, List.countP_cons, List.countP_cons, ih h.2]
      cases ha : mark a with
      | true =>
        rw [if_pos rfl]
        omega
      | false =>
        have hnone : rest.countP mark = 0 := by
          rw [List.countP_eq_zero]
          intro b hb hmark
          rw [h.1 b hb hmark] at ha
          cases ha
        rw [hnone]
        simp

/-- A prefix with room for all marked elements has all of them. -/
theorem mem_take_of_mark {l : List α} (h : l.Pairwise fun a b => mark b = true → mark a = true)
    {n : Nat} (hn : l.countP mark ≤ n) {a : α} (ha : a ∈ l) (hmark : mark a = true) :
    a ∈ l.take n := by
  rw [← List.take_append_drop n l] at ha
  rcases List.mem_append.1 ha with htake | hdrop
  · exact htake
  · have hcount : l.countP mark = (l.take n).countP mark + (l.drop n).countP mark := by
      rw [← List.countP_append, List.take_append_drop]
    rw [countP_take h] at hcount
    have hpos : 0 < (l.drop n).countP mark := List.countP_pos_iff.2 ⟨a, hdrop, hmark⟩
    omega

/-- The marked elements of what a prefix leaves come right after it. -/
theorem filter_drop {l : List α} (h : l.Pairwise fun a b => mark b = true → mark a = true)
    (n : Nat) : (l.drop n).filter mark = (l.drop n).take (l.countP mark - n) := by
  induction l generalizing n with
  | nil => simp
  | cons a rest ih =>
    rw [List.pairwise_cons] at h
    have hrest := ih h.2 0
    rw [List.drop_zero, Nat.sub_zero] at hrest
    cases n with
    | zero =>
      rw [List.drop_zero, Nat.sub_zero, List.countP_cons]
      cases ha : mark a with
      | true => rw [List.filter_cons_of_pos ha, if_pos rfl, List.take_succ_cons, hrest]
      -- the first entry is unmarked, so no later one is marked
      | false =>
        have hnone : ∀ b ∈ rest, mark b = false := by
          intro b hb
          by_contra hmark
          rw [Bool.not_eq_false] at hmark
          rw [h.1 b hb hmark] at ha
          cases ha
        have hcount : rest.countP mark = 0 := by
          rw [List.countP_eq_zero]
          intro b hb
          rw [hnone b hb]
          exact Bool.false_ne_true
        have hfilter : rest.filter mark = [] := by
          rw [List.filter_eq_nil_iff]
          intro b hb
          rw [hnone b hb]
          exact Bool.false_ne_true
        rw [List.filter_cons_of_neg (by rw [ha]; exact Bool.false_ne_true), hfilter, hcount]
        rfl
    | succ n =>
      rw [List.drop_succ_cons, ih h.2 n, List.countP_cons]
      cases ha : mark a with
      | true =>
        congr 1
        rw [if_pos rfl]
        omega
      | false =>
        have hcount : rest.countP mark = 0 := by
          rw [List.countP_eq_zero]
          intro b hb hmark
          rw [h.1 b hb hmark] at ha
          cases ha
        rw [hcount]
        simp

end Marked

/-! ## The ranking -/

theorem ranked_perm (entries : List MineEntry) : (ranked entries).Perm (pooled entries) :=
  List.perm_insertionSort _ _

theorem pairwise_ranked (entries : List MineEntry) :
    (ranked entries).Pairwise fun a b => rank b ≤ rank a := by
  have : Std.Total fun a b : MineEntry => rank b ≤ rank a := ⟨fun a b => le_total (rank b) (rank a)⟩
  have : IsTrans MineEntry fun a b : MineEntry => rank b ≤ rank a :=
    ⟨fun a b c hab hbc => le_trans hbc hab⟩
  exact List.pairwise_insertionSort _ _

/-- Blunders come first. -/
theorem blunders_first (entries : List MineEntry) :
    (ranked entries).Pairwise fun a b =>
      decide (0 < b.severity) = true → decide (0 < a.severity) = true := by
  refine (pairwise_ranked entries).imp ?_
  intro a b hrank hb
  rw [decide_eq_true_iff] at hb ⊢
  by_contra ha
  unfold rank at hrank
  rw [if_pos hb, if_neg ha, Prod.Lex.toLex_le_toLex] at hrank
  rcases hrank with hlt | ⟨heq, -⟩
  · have hbad : (1 : Nat) < 0 := hlt
    omega
  · have hbad : (1 : Nat) = 0 := heq
    omega

theorem mem_pooled_iff {entries : List MineEntry} {e : MineEntry} :
    e ∈ pooled entries ↔ e ∈ entries ∧ (isMidRemoval e = false ∨ e.severity = 0) := by
  unfold pooled
  rw [List.mem_filter, Bool.or_eq_true, decide_eq_true_iff, Bool.not_eq_true']

theorem mem_midBlunders_iff {entries : List MineEntry} {e : MineEntry} :
    e ∈ midBlunders entries ↔ e ∈ entries ∧ isMidRemoval e = true ∧ 0 < e.severity := by
  unfold midBlunders
  rw [List.mem_filter, Bool.and_eq_true, decide_eq_true_iff]

theorem mem_ranked_iff {entries : List MineEntry} {e : MineEntry} :
    e ∈ ranked entries ↔ e ∈ entries ∧ (isMidRemoval e = false ∨ e.severity = 0) := by
  rw [(ranked_perm entries).mem_iff, mem_pooled_iff]

/-- What is kept of a duplicate-free list is duplicate-free. -/
theorem nodup_kept {entries : List MineEntry} (h : (entries.map MineEntry.key).Nodup) (low : Nat) :
    ((midBlunders entries ++ (ranked entries).take low).map MineEntry.key).Nodup := by
  have hentries : ∀ a ∈ entries, ∀ b ∈ entries, a.key = b.key → a = b :=
    fun a ha b hb => List.inj_on_of_nodup_map h ha hb
  rw [List.map_append, List.nodup_append]
  refine ⟨(List.filter_sublist.map _).nodup h, ?_, ?_⟩
  · have hpool : ((ranked entries).map MineEntry.key).Nodup :=
      ((ranked_perm entries).map _).nodup_iff.2 ((List.filter_sublist.map _).nodup h)
    exact ((List.take_sublist _ _).map _).nodup hpool
  · intro k hk k' hk' heq
    obtain ⟨a, ha, hak⟩ := List.mem_map.1 hk
    obtain ⟨b, hb, hbk⟩ := List.mem_map.1 hk'
    rw [mem_midBlunders_iff] at ha
    have hb' := mem_ranked_iff.1 (List.mem_of_mem_take hb)
    have hab := hentries a ha.1 b hb'.1 (by rw [hak, hbk, heq])
    rw [← hab] at hb'
    rcases hb'.2 with hmid | hzero
    · rw [ha.2.1] at hmid
      cases hmid
    · omega

/-! ## Duplicates -/

/-- Of each key that was seen, one entry of the highest rank. -/
structure Deduped (seen byKey : List MineEntry) : Prop where
  nodup : (byKey.map MineEntry.key).Nodup
  mem_seen : ∀ e ∈ byKey, e ∈ seen
  best : ∀ e ∈ seen, ∃ kept ∈ byKey, kept.key = e.key ∧ rank e ≤ rank kept

theorem mem_keys_dedupInsert {e : MineEntry} {byKey : List MineEntry} {k : UInt64} :
    k ∈ (dedupInsert e byKey).map MineEntry.key
      ↔ k = e.key ∨ k ∈ byKey.map MineEntry.key := by
  induction byKey with
  | nil => simp [dedupInsert]
  | cons incumbent rest ih =>
    rw [dedupInsert]
    by_cases hkey : incumbent.key = e.key
    · have hhead : (if rank incumbent < rank e then e else incumbent).key = e.key := by
        split
        · rfl
        · exact hkey
      rw [if_pos hkey, List.map_cons, List.mem_cons, hhead, List.map_cons, List.mem_cons, hkey]
      constructor
      · intro h
        exact .inr h
      · rintro (h | h)
        · exact .inl h
        · exact h
    · rw [if_neg hkey, List.map_cons, List.mem_cons, ih, List.map_cons, List.mem_cons]
      exact or_left_comm

theorem nodup_dedupInsert {e : MineEntry} {byKey : List MineEntry}
    (h : (byKey.map MineEntry.key).Nodup) : ((dedupInsert e byKey).map MineEntry.key).Nodup := by
  induction byKey with
  | nil => simp [dedupInsert]
  | cons incumbent rest ih =>
    rw [List.map_cons, List.nodup_cons] at h
    rw [dedupInsert]
    by_cases hkey : incumbent.key = e.key
    · rw [if_pos hkey, List.map_cons, List.nodup_cons]
      refine ⟨?_, h.2⟩
      split
      · rw [← hkey]
        exact h.1
      · exact h.1
    · rw [if_neg hkey, List.map_cons, List.nodup_cons]
      refine ⟨?_, ih h.2⟩
      intro hmem
      rcases mem_keys_dedupInsert.1 hmem with heq | hrest
      · exact hkey heq
      · exact h.1 hrest

theorem mem_dedupInsert {e other : MineEntry} {byKey : List MineEntry}
    (h : other ∈ dedupInsert e byKey) : other = e ∨ other ∈ byKey := by
  induction byKey with
  | nil => exact .inl (List.mem_singleton.1 h)
  | cons incumbent rest ih =>
    rw [dedupInsert] at h
    split at h
    · rcases List.mem_cons.1 h with heq | hrest
      · split at heq
        · exact .inl heq
        · exact .inr (by rw [heq]; exact List.mem_cons_self)
      · exact .inr (List.mem_cons_of_mem _ hrest)
    · rcases List.mem_cons.1 h with heq | hrest
      · exact .inr (by rw [heq]; exact List.mem_cons_self)
      · rcases ih hrest with heq | hin
        · exact .inl heq
        · exact .inr (List.mem_cons_of_mem _ hin)

/-- No entry of the map is lost to one of a lower rank. -/
theorem best_dedupInsert (e : MineEntry) (byKey : List MineEntry) :
    (∃ kept ∈ dedupInsert e byKey, kept.key = e.key ∧ rank e ≤ rank kept)
    ∧ ∀ other ∈ byKey, ∃ kept ∈ dedupInsert e byKey, kept.key = other.key
      ∧ rank other ≤ rank kept := by
  induction byKey with
  | nil =>
    refine ⟨⟨e, List.mem_cons_self, rfl, le_refl _⟩, ?_⟩
    intro other h
    cases h
  | cons incumbent rest ih =>
    rw [dedupInsert]
    -- an entry of the same key stands here: the better of the two stays in its place
    by_cases hkey : incumbent.key = e.key
    · rw [if_pos hkey]
      by_cases hrank : rank incumbent < rank e
      · rw [if_pos hrank]
        refine ⟨⟨e, List.mem_cons_self, rfl, le_refl _⟩, ?_⟩
        intro other hother
        rcases List.mem_cons.1 hother with heq | hrest
        · exact ⟨e, List.mem_cons_self, by rw [heq, hkey], by rw [heq]; exact le_of_lt hrank⟩
        · exact ⟨other, List.mem_cons_of_mem _ hrest, rfl, le_refl _⟩
      · rw [if_neg hrank]
        refine ⟨⟨incumbent, List.mem_cons_self, hkey, not_lt.1 hrank⟩, ?_⟩
        intro other hother
        exact ⟨other, hother, rfl, le_refl _⟩
    · rw [if_neg hkey]
      obtain ⟨⟨kept, hin, hkept⟩, hrest⟩ := ih
      refine ⟨⟨kept, List.mem_cons_of_mem _ hin, hkept⟩, ?_⟩
      intro other hother
      rcases List.mem_cons.1 hother with heq | hmem
      · exact ⟨incumbent, List.mem_cons_self, by rw [heq], by rw [heq]⟩
      · obtain ⟨kept', hin', hkept'⟩ := hrest other hmem
        exact ⟨kept', List.mem_cons_of_mem _ hin', hkept'⟩

theorem Deduped.insert {seen byKey : List MineEntry} (h : Deduped seen byKey) (e : MineEntry) :
    Deduped (seen ++ [e]) (dedupInsert e byKey) where
  nodup := nodup_dedupInsert h.nodup
  mem_seen := by
    intro other hother
    rcases mem_dedupInsert hother with heq | hin
    · simp [heq]
    · exact List.mem_append_left _ (h.mem_seen other hin)
  best := by
    intro other hother
    obtain ⟨hnew, hold⟩ := best_dedupInsert e byKey
    rcases List.mem_append.1 hother with hseen | hlast
    · obtain ⟨kept, hin, hkey, hrank⟩ := h.best other hseen
      obtain ⟨kept', hin', hkey', hrank'⟩ := hold kept hin
      exact ⟨kept', hin', hkey'.trans hkey, le_trans hrank hrank'⟩
    · rw [List.mem_singleton.1 hlast]
      exact hnew

/-- What the duplicates leave: the keys are distinct, as the builder asserts. -/
theorem dedupEntries_deduped (listing : Listing MineEntry) (entries : List MineEntry) :
    Deduped entries (dedupEntries listing entries) := by
  have hfold : Deduped entries (entries.foldl (fun byKey e => dedupInsert e byKey) []) := by
    induction entries using List.reverseRecOn with
    | nil =>
      refine ⟨by simp, ?_, ?_⟩
      · intro e he
        exact he
      · intro e he
        cases he
    | append_singleton entries e ih =>
      rw [List.foldl_append]
      exact ih.insert e
  have hperm : (dedupEntries listing entries).Perm
      (entries.foldl (fun byKey e => dedupInsert e byKey) []) :=
    (List.perm_insertionSort _ _).trans (listing.perm _)
  refine ⟨(hperm.map MineEntry.key).nodup_iff.2 hfold.nodup, ?_, ?_⟩
  · intro e he
    exact hfold.mem_seen e (hperm.mem_iff.1 he)
  · intro e he
    obtain ⟨kept, hin, hkept⟩ := hfold.best e he
    exact ⟨kept, hperm.mem_iff.2 hin, hkept⟩

/-! ## The records of the kept entries -/

section Assemble

variable {Fingerprint : Type} {context : PackContext Fingerprint}

/-- The record of a mid-removal entry. -/
def midOf (context : PackContext Fingerprint) (e : MineEntry) : Option MidRemovalRecord :=
  if isMidRemoval e then midRecordFor context e else none

/-- The record of a settled entry. -/
def packedOf (context : PackContext Fingerprint) (e : MineEntry) :
    Option (SectorId × PackedRecord) :=
  if isMidRemoval e then none else packedRecordFor context e

theorem midOf_key {e : MineEntry} {record : MidRemovalRecord} (h : midOf context e = some record) :
    record.key = e.key := by
  unfold midOf midRecordFor at h
  split at h
  · obtain ⟨proof, -, hrecord⟩ := Option.map_eq_some_iff.1 h
    rw [← hrecord]
  · cases h

theorem packedOf_key {e : MineEntry} {entry : SectorId × PackedRecord}
    (h : packedOf context e = some entry) :
    unpackCanonicalKey e.key.toNat = some (entry.1, entry.2.slot) := by
  unfold packedOf packedRecordFor at h
  split at h
  · cases h
  · obtain ⟨⟨sector, slot⟩, hunpack, hrest⟩ := Option.bind_eq_some_iff.1 h
    obtain ⟨proof, -, hrecord⟩ := Option.bind_eq_some_iff.1 hrest
    cases hrecord
    exact hunpack

/-- The record of the entry is in the file. -/
def Packs (context : PackContext Fingerprint) (file : PatchFile Fingerprint) (e : MineEntry) :
    Prop :=
  (∃ record, midOf context e = some record ∧ record ∈ file.midRemovalRecords)
    ∨ ∃ entry, packedOf context e = some entry
      ∧ ∃ group ∈ file.sectors, group.sector = entry.1 ∧ entry.2 ∈ group.records

/-- The loop files the record of each entry, or panics. -/
theorem foldlM_addRecord (kept : List MineEntry) :
    ∀ {found result : List (SectorId × List PackedRecord) × List MidRemovalRecord},
      kept.foldlM (addRecord context) found = some result →
      result.2 = found.2 ++ kept.filterMap (midOf context)
      ∧ result.1 = (kept.filterMap (packedOf context)).foldl
          (fun groups entry => Grouping.push entry.1 entry.2 groups) found.1
      ∧ ∀ e ∈ kept, (midOf context e).isSome ∨ (packedOf context e).isSome := by
  -- each entry goes to exactly one of the two lists, and the source stops if it fits neither
  induction kept with
  | nil =>
    intro found result h
    cases h
    refine ⟨by simp, by simp, ?_⟩
    intro e he
    cases he
  | cons e rest ih =>
    intro found result h
    rw [List.foldlM_cons] at h
    obtain ⟨next, hnext, hrest⟩ := Option.bind_eq_some_iff.1 h
    obtain ⟨hmids, hgroups, hall⟩ := ih hrest
    unfold addRecord at hnext
    cases hmid : isMidRemoval e with
    | true =>
      rw [if_pos hmid] at hnext
      obtain ⟨record, hrecord, hpair⟩ := Option.map_eq_some_iff.1 hnext
      have hmidOf : midOf context e = some record := by
        unfold midOf
        rw [if_pos hmid, hrecord]
      have hpackedOf : packedOf context e = none := by
        unfold packedOf
        rw [if_pos hmid]
      rw [List.filterMap_cons_some hmidOf, List.filterMap_cons_none hpackedOf, hmids, hgroups,
        ← hpair]
      refine ⟨by simp, rfl, ?_⟩
      intro other hother
      rcases List.mem_cons.1 hother with heq | hin
      · rw [heq, hmidOf]
        exact .inl rfl
      · exact hall other hin
    | false =>
      rw [if_neg (by rw [hmid]; exact Bool.false_ne_true)] at hnext
      obtain ⟨record, hrecord, hpair⟩ := Option.map_eq_some_iff.1 hnext
      have hmidOf : midOf context e = none := by
        unfold midOf
        rw [if_neg (by rw [hmid]; exact Bool.false_ne_true)]
      have hpackedOf : packedOf context e = some record := by
        unfold packedOf
        rw [if_neg (by rw [hmid]; exact Bool.false_ne_true), hrecord]
      rw [List.filterMap_cons_none hmidOf, List.filterMap_cons_some hpackedOf, hmids, hgroups,
        ← hpair]
      refine ⟨rfl, rfl, ?_⟩
      intro other hother
      rcases List.mem_cons.1 hother with heq | hin
      · rw [heq, hpackedOf]
        exact .inr rfl
      · exact hall other hin

/-- The records of the mid-removal blunders. -/
theorem mapM_midRecordFor {blunders : List MineEntry} {records : List MidRemovalRecord}
    (hmid : ∀ e ∈ blunders, isMidRemoval e = true)
    (h : blunders.mapM (midRecordFor context) = some records) :
    records = blunders.filterMap (midOf context)
      ∧ ∀ e ∈ blunders, (midOf context e).isSome := by
  induction blunders generalizing records with
  | nil =>
    cases h
    refine ⟨rfl, ?_⟩
    intro e he
    cases he
  | cons e rest ih =>
    rw [List.mapM_cons] at h
    obtain ⟨record, hrecord, hrest⟩ := Option.bind_eq_some_iff.1 h
    obtain ⟨tail, htail, hcons⟩ := Option.bind_eq_some_iff.1 hrest
    cases hcons
    obtain ⟨heq, hall⟩ := ih (fun a ha => hmid a (List.mem_cons_of_mem _ ha)) htail
    have hmidOf : midOf context e = some record := by
      unfold midOf
      rw [if_pos (hmid e List.mem_cons_self), hrecord]
    rw [List.filterMap_cons_some hmidOf, ← heq]
    refine ⟨rfl, ?_⟩
    intro other hother
    rcases List.mem_cons.1 hother with heq' | hin
    · rw [heq', hmidOf]
      rfl
    · exact hall other hin

/-- A file with the records of the packed entries and no others, in strict order. -/
structure FileOf (context : PackContext Fingerprint) (packed : List MineEntry)
    (file : PatchFile Fingerprint) : Prop where
  midRecords : file.midRemovalRecords.Perm (packed.filterMap (midOf context))
  group : ∀ group ∈ file.sectors, ∀ record, record ∈ group.records
    ↔ (group.sector, record) ∈ packed.filterMap (packedOf context)
  sector : ∀ entry ∈ packed.filterMap (packedOf context),
    ∃ group ∈ file.sectors, group.sector = entry.1
  sectors_lt : file.sectors.Pairwise fun a b => sectorKey a.sector < sectorKey b.sector
  slots_lt : ∀ group ∈ file.sectors, group.records.Pairwise fun a b => a.slot < b.slot
  keys_lt : file.midRemovalRecords.Pairwise fun a b => a.key.toNat < b.key.toNat
  recorded : ∀ e ∈ packed, (midOf context e).isSome ∨ (packedOf context e).isSome

theorem sectorKey_injective : Function.Injective sectorKey := by
  intro a b h
  obtain ⟨w, bl, wh, bh⟩ := a
  obtain ⟨w', bl', wh', bh'⟩ := b
  cases h
  rfl

/-- Different keys have records in different places. -/
theorem slots_nodup {packed : List MineEntry} (h : (packed.map MineEntry.key).Nodup)
    (sector : SectorId) :
    ((Grouping.itemsAt (packed.filterMap (packedOf context)) sector).map
      PackedRecord.slot).Nodup := by
  induction packed with
  | nil => simp [Grouping.itemsAt]
  | cons e rest ih =>
    rw [List.map_cons, List.nodup_cons] at h
    cases hpacked : packedOf context e with
    | none =>
      rw [List.filterMap_cons_none hpacked]
      exact ih h.2
    | some entry =>
      rw [List.filterMap_cons_some hpacked]
      unfold Grouping.itemsAt
      by_cases hsector : entry.1 = sector
      · rw [List.filter_cons_of_pos (by simpa using hsector), List.map_cons, List.map_cons,
          List.nodup_cons]
        refine ⟨?_, ih h.2⟩
        intro hslot
        obtain ⟨record, hrecord, hsame⟩ := List.mem_map.1 hslot
        obtain ⟨other, hother, hrecord'⟩ := List.mem_map.1 hrecord
        rw [List.mem_filter, List.mem_filterMap] at hother
        obtain ⟨⟨e', he', hpacked'⟩, hsector'⟩ := hother
        -- two records of one sector and one slot come from one key
        have hkey := packedOf_key hpacked
        have hkey' := packedOf_key hpacked'
        rw [hrecord', hsame, of_decide_eq_true hsector', ← hsector] at hkey'
        have heq := unpackCanonicalKey_inj e.key.toNat_lt e'.key.toNat_lt hkey hkey'
        apply h.1
        rw [UInt64.toNat_inj.1 heq]
        exact List.mem_map.2 ⟨e', he', rfl⟩
      · rw [List.filter_cons_of_neg (by simpa using hsector)]
        exact ih h.2

theorem fileOf_assemble {blunders kept : List MineEntry} {records : List MidRemovalRecord}
    {file : PatchFile Fingerprint} (hmid : ∀ e ∈ blunders, isMidRemoval e = true)
    (hnodup : ((blunders ++ kept).map MineEntry.key).Nodup)
    (hrecords : blunders.mapM (midRecordFor context) = some records)
    (h : assemble context records kept = some file) : FileOf context (blunders ++ kept) file := by
  obtain ⟨hblunders, hblundersAll⟩ := mapM_midRecordFor hmid hrecords
  unfold assemble at h
  obtain ⟨found, hfound, hfile⟩ := Option.map_eq_some_iff.1 h
  obtain ⟨hmids, hgroups, hkept⟩ := foldlM_addRecord kept hfound
  -- the blunders were packed before, so the loop over the kept entries adds the rest
  have hallMid : found.2 = (blunders ++ kept).filterMap (midOf context) := by
    rw [hmids, hblunders, List.filterMap_append]
  have hallPacked : (blunders ++ kept).filterMap (packedOf context)
      = kept.filterMap (packedOf context) := by
    have hnone : blunders.filterMap (packedOf context) = [] := by
      rw [List.filterMap_eq_nil_iff]
      intro e he
      unfold packedOf
      rw [if_pos (hmid e he)]
    rw [List.filterMap_append, hnone, List.nil_append]
  have hholds : Grouping.Holds ((blunders ++ kept).filterMap (packedOf context)) found.1 := by
    rw [hallPacked, hgroups]
    exact Grouping.holds_group _
  -- the order in which the hash map lists the groups is unknown; the sort removes it
  have hlisted := context.listing.perm found.1
  have hsectorMem : ∀ group, group ∈ file.sectors
      ↔ ∃ entry ∈ found.1, sectorGroup entry = group := by
    intro group
    rw [← hfile, List.mem_insertionSort, List.mem_map]
    simp only [hlisted.mem_iff]
  refine ⟨?_, ?_, ?_, ?_, ?_, ?_, ?_⟩
  · rw [← hfile, ← hallMid]
    exact List.perm_insertionSort _ _
  · intro group hgroup record
    obtain ⟨⟨sector, items⟩, hentry, hgroupEq⟩ := (hsectorMem group).1 hgroup
    rw [← hgroupEq]
    show record ∈ items.insertionSort _ ↔ (sector, record) ∈ _
    rw [List.mem_insertionSort, hholds.items sector items hentry]
    unfold Grouping.itemsAt
    rw [List.mem_map]
    constructor
    · rintro ⟨entry, hin, hrecord⟩
      rw [List.mem_filter] at hin
      rw [← hrecord, ← of_decide_eq_true hin.2]
      exact hin.1
    · intro hin
      exact ⟨(sector, record), List.mem_filter.2 ⟨hin, decide_eq_true rfl⟩, rfl⟩
  · intro entry hentry
    obtain ⟨⟨sector, items⟩, hin, hsector⟩ :=
      List.mem_map.1 ((hholds.keys entry.1).2 ⟨entry.2, hentry⟩)
    exact ⟨sectorGroup (sector, items), (hsectorMem _).2 ⟨_, hin, rfl⟩, hsector⟩
  · rw [← hfile]
    refine pairwise_lt_insertionSort (fun group : SectorGroup => sectorKey group.sector) ?_
    have hkeys : ((context.listing.list found.1).map sectorGroup).map
        (fun group => sectorKey group.sector)
        = ((context.listing.list found.1).map Prod.fst).map sectorKey := by
      rw [List.map_map, List.map_map]
      rfl
    rw [hkeys]
    exact ((hlisted.map Prod.fst).nodup_iff.2 hholds.nodup).map sectorKey_injective
  · intro group hgroup
    obtain ⟨⟨sector, items⟩, hentry, hgroupEq⟩ := (hsectorMem group).1 hgroup
    rw [← hgroupEq]
    refine pairwise_lt_insertionSort PackedRecord.slot ?_
    show (items.map PackedRecord.slot).Nodup
    rw [hholds.items sector items hentry]
    exact slots_nodup hnodup sector
  · rw [← hfile]
    refine pairwise_lt_insertionSort (fun record : MidRemovalRecord => record.key.toNat) ?_
    rw [hallMid]
    -- the records keep the order of the entries, and their keys are distinct as the entries' are
    have hsub : ∀ list : List MineEntry, ((list.filterMap (midOf context)).map
        fun record => record.key.toNat).Sublist (list.map fun e => e.key.toNat) := by
      intro list
      induction list with
      | nil => simp
      | cons e rest ih =>
        cases hrecord : midOf context e with
        | none =>
          rw [List.filterMap_cons_none hrecord]
          exact ih.trans (List.sublist_cons_self _ _)
        | some record =>
          rw [List.filterMap_cons_some hrecord, List.map_cons, List.map_cons, midOf_key hrecord]
          exact ih.cons_cons _
    refine (hsub _).nodup ?_
    have hmap : (blunders ++ kept).map (fun e => e.key.toNat)
        = ((blunders ++ kept).map MineEntry.key).map UInt64.toNat := by
      rw [List.map_map]
      rfl
    rw [hmap]
    exact hnodup.map fun a b hab => UInt64.toNat_inj.1 hab
  · intro e he
    rcases List.mem_append.1 he with hb | hk
    · exact .inl (hblundersAll e hb)
    · exact hkept e hk

/-- The file has the record of an entry exactly when the entry is packed. -/
theorem FileOf.packs_iff {packed : List MineEntry} {file : PatchFile Fingerprint}
    (h : FileOf context packed file) {entries : List MineEntry}
    (hkeys : ∀ a ∈ entries, ∀ b ∈ entries, a.key = b.key → a = b)
    (hpacked : ∀ e ∈ packed, e ∈ entries) {e : MineEntry} (he : e ∈ entries) :
    Packs context file e ↔ e ∈ packed := by
  constructor
  · rintro (⟨record, hrecord, hin⟩ | ⟨entry, hentry, group, hgroup, hsector, hin⟩)
    · obtain ⟨other, hother, hrecord'⟩ := List.mem_filterMap.1 (h.midRecords.mem_iff.1 hin)
      have hkey : e.key = other.key := by rw [← midOf_key hrecord, midOf_key hrecord']
      rw [hkeys e he other (hpacked other hother) hkey]
      exact hother
    · rw [h.group group hgroup, hsector] at hin
      obtain ⟨other, hother, hentry'⟩ := List.mem_filterMap.1 hin
      have hnat := unpackCanonicalKey_inj e.key.toNat_lt other.key.toNat_lt
        (packedOf_key hentry) (packedOf_key hentry')
      rw [hkeys e he other (hpacked other hother) (UInt64.toNat_inj.1 hnat)]
      exact hother
  · intro hin
    rcases h.recorded e hin with hsome | hsome
    · obtain ⟨record, hrecord⟩ := Option.isSome_iff_exists.1 hsome
      exact .inl ⟨record, hrecord,
        h.midRecords.mem_iff.2 (List.mem_filterMap.2 ⟨e, hin, hrecord⟩)⟩
    · obtain ⟨entry, hentry⟩ := Option.isSome_iff_exists.1 hsome
      have hmem : entry ∈ packed.filterMap (packedOf context) :=
        List.mem_filterMap.2 ⟨e, hin, hentry⟩
      obtain ⟨group, hgroup, hsector⟩ := h.sector entry hmem
      refine .inr ⟨entry, hentry, group, hgroup, hsector, ?_⟩
      rw [h.group group hgroup, hsector]
      exact hmem

end Assemble

/-! ## The builder -/

/-- What a budget that keeps the first `low` of the ranking drops is counted. -/
theorem trimStats_eq {entries : List MineEntry} {low : Nat} (hlow : low ≤ (ranked entries).length) :
    (trimStats entries low).trimmedBlunders
        = ((ranked entries).drop low).countP (fun e => 0 < e.severity)
      ∧ (trimStats entries low).trimmedSteering
        = ((ranked entries).drop low).countP (fun e => ¬ 0 < e.severity)
      ∧ (trimStats entries low).trimmedBlunderMass
        = ((((ranked entries).drop low).filter fun e => 0 < e.severity).map
          MineEntry.mass).sum := by
  have hcount : pooledBlunders entries ≤ (ranked entries).length := List.countP_le_length
  have hfilter := filter_drop (blunders_first entries) low
  -- the slice that the source counts is the dropped part of the blunders
  have hslice : ((ranked entries).take
      (min (max (pooledBlunders entries) low) (ranked entries).length)).drop low
        = ((ranked entries).drop low).filter fun e => 0 < e.severity := by
    have hlength : min (max (pooledBlunders entries) low) (ranked entries).length - low
        = pooledBlunders entries - low := by omega
    rw [List.drop_take, hlength, hfilter]
    rfl
  have hblunders : ((ranked entries).drop low).countP (fun e => 0 < e.severity)
      = pooledBlunders entries - low := by
    rw [List.countP_eq_length_filter, hfilter, List.length_take, List.length_drop]
    show min (pooledBlunders entries - low) _ = _
    omega
  have hboth := List.length_eq_countP_add_countP (fun e : MineEntry => decide (0 < e.severity))
    (l := (ranked entries).drop low)
  rw [List.length_drop, hblunders] at hboth
  refine ⟨?_, ?_, ?_⟩
  · show (List.drop low _).length = _
    rw [hslice, List.countP_eq_length_filter]
  · show (ranked entries).length - max low (pooledBlunders entries) = _
    have hnot : ((ranked entries).drop low).countP (fun e => ¬ 0 < e.severity)
        = ((ranked entries).drop low).countP fun e => ¬ decide (0 < e.severity) = true := by
      apply List.countP_congr
      intro e _
      rw [decide_eq_true_iff, decide_eq_true_iff, decide_eq_true_iff]
    rw [hnot]
    omega
  · show ((List.drop low _).map MineEntry.mass).sum = _
    rw [hslice]

variable {Fingerprint : Type}

/-- What the builder promises of a file and of what it reports as trimmed. -/
structure PacksWithin (context : PackContext Fingerprint) (fileLen : PatchFile Fingerprint → Nat)
    (entries : List MineEntry) (budgetBytes : Nat) (allowTrimBlunders : Bool)
    (file : PatchFile Fingerprint) (stats : BuildTrimStats) : Prop where
  /-- Mid-removal blunders and a prefix of the ranking are packed. -/
  kept : ∀ e ∈ entries, Packs context file e
    ↔ e ∈ midBlunders entries ∨ e ∈ (ranked entries).take stats.keptRanked
  ranked_perm : (ranked entries).Perm (pooled entries)
  ranked_desc : (ranked entries).Pairwise fun a b => rank b ≤ rank a
  allBlunders : allowTrimBlunders = false → ∀ e ∈ entries, 0 < e.severity → Packs context file e
  midBlunders_kept : ∀ e ∈ entries, isMidRemoval e = true → 0 < e.severity → Packs context file e
  onlyEntries : (∀ record ∈ file.midRemovalRecords, ∃ e ∈ entries, midOf context e = some record)
    ∧ ∀ group ∈ file.sectors, ∀ record ∈ group.records,
        ∃ e ∈ entries, packedOf context e = some (group.sector, record)
  trimmedBlunders : stats.trimmedBlunders
    = ((ranked entries).drop stats.keptRanked).countP fun e => 0 < e.severity
  trimmedSteering : stats.trimmedSteering
    = ((ranked entries).drop stats.keptRanked).countP fun e => ¬ 0 < e.severity
  trimmedBlunderMass : stats.trimmedBlunderMass
    = ((((ranked entries).drop stats.keptRanked).filter fun e => 0 < e.severity).map
        MineEntry.mass).sum
  /-- A mid-removal entry of a negative severity is in neither group. -/
  dropped : ∀ e ∈ entries, ¬ Packs context file e
    ↔ e ∈ (ranked entries).drop stats.keptRanked ∨ (isMidRemoval e = true ∧ e.severity < 0)
  sectors_lt : file.sectors.Pairwise fun a b => sectorKey a.sector < sectorKey b.sector
  slots_lt : ∀ group ∈ file.sectors, group.records.Pairwise fun a b => a.slot < b.slot
  keys_lt : file.midRemovalRecords.Pairwise fun a b => a.key.toNat < b.key.toNat
  /-- A budget of 0 is none. -/
  overBudget : budgetBytes ≠ 0 → budgetBytes < fileLen file → stats.keptRanked = 0

theorem packsWithin_of_fileOf {context : PackContext Fingerprint}
    {fileLen : PatchFile Fingerprint → Nat} {entries : List MineEntry} {budgetBytes : Nat}
    {allowTrimBlunders : Bool} {file : PatchFile Fingerprint} {stats : BuildTrimStats}
    (hnodup : (entries.map MineEntry.key).Nodup)
    (hfile : FileOf context (midBlunders entries ++ (ranked entries).take stats.keptRanked) file)
    (hblunders : allowTrimBlunders = false → pooledBlunders entries ≤ stats.keptRanked)
    (htrimmedBlunders : stats.trimmedBlunders
      = ((ranked entries).drop stats.keptRanked).countP fun e => 0 < e.severity)
    (htrimmedSteering : stats.trimmedSteering
      = ((ranked entries).drop stats.keptRanked).countP fun e => ¬ 0 < e.severity)
    (hmass : stats.trimmedBlunderMass
      = ((((ranked entries).drop stats.keptRanked).filter fun e => 0 < e.severity).map
        MineEntry.mass).sum)
    (hbudget : budgetBytes ≠ 0 → budgetBytes < fileLen file → stats.keptRanked = 0) :
    PacksWithin context fileLen entries budgetBytes allowTrimBlunders file stats := by
  have hkeys : ∀ a ∈ entries, ∀ b ∈ entries, a.key = b.key → a = b :=
    fun a ha b hb => List.inj_on_of_nodup_map hnodup ha hb
  have hpacked : ∀ e ∈ midBlunders entries ++ (ranked entries).take stats.keptRanked,
      e ∈ entries := by
    intro e he
    rcases List.mem_append.1 he with hmid | htake
    · exact (mem_midBlunders_iff.1 hmid).1
    · exact (mem_ranked_iff.1 (List.mem_of_mem_take htake)).1
  have hkept : ∀ e ∈ entries, Packs context file e
      ↔ e ∈ midBlunders entries ∨ e ∈ (ranked entries).take stats.keptRanked := by
    intro e he
    rw [hfile.packs_iff hkeys hpacked he, List.mem_append]
  have hmid : ∀ e ∈ entries, isMidRemoval e = true → 0 < e.severity → Packs context file e := by
    intro e he hmid hsev
    exact (hkept e he).2 (.inl (mem_midBlunders_iff.2 ⟨he, hmid, hsev⟩))
  -- what is packed is read off `hkept`; the counters and the order come with the file
  refine ⟨hkept, ranked_perm entries, pairwise_ranked entries, ?_, hmid, ⟨?_, ?_⟩,
    htrimmedBlunders, htrimmedSteering, hmass, ?_, hfile.sectors_lt, hfile.slots_lt,
    hfile.keys_lt, hbudget⟩
  · intro hallow e he hsev
    cases hm : isMidRemoval e with
    | true => exact hmid e he hm hsev
    | false =>
      refine (hkept e he).2 (.inr ?_)
      exact mem_take_of_mark (blunders_first entries) (hblunders hallow)
        (mem_ranked_iff.2 ⟨he, .inl hm⟩) (decide_eq_true hsev)
  · intro record hrecord
    obtain ⟨e, he, hmidOf⟩ := List.mem_filterMap.1 (hfile.midRecords.mem_iff.1 hrecord)
    exact ⟨e, hpacked e he, hmidOf⟩
  · intro group hgroup record hrecord
    obtain ⟨e, he, hpackedOf⟩ := List.mem_filterMap.1 ((hfile.group group hgroup record).1 hrecord)
    exact ⟨e, hpacked e he, hpackedOf⟩
  · intro e he
    have hranked : (ranked entries).Nodup :=
      ((ranked_perm entries).nodup_iff.2 (List.filter_sublist.nodup hnodup.of_map))
    rw [hkept e he, not_or, mem_midBlunders_iff]
    constructor
    · rintro ⟨hnotMid, hnotTake⟩
      -- an entry that is not packed was ranked and cut, or never ranked
      by_cases hin : e ∈ ranked entries
      · left
        rw [← List.take_append_drop stats.keptRanked (ranked entries)] at hin
        rcases List.mem_append.1 hin with htake | hdrop
        · exact absurd htake hnotTake
        · exact hdrop
      · right
        rw [mem_ranked_iff] at hin
        cases hm : isMidRemoval e with
        | false => exact absurd ⟨he, .inl hm⟩ hin
        | true =>
          refine ⟨rfl, ?_⟩
          have hnonzero : e.severity ≠ 0 := fun hzero => hin ⟨he, .inr hzero⟩
          have hnotPos : ¬ 0 < e.severity := fun hpos => hnotMid ⟨he, hm, hpos⟩
          omega
    · rintro (hdrop | ⟨hm, hneg⟩)
      · have hin := mem_ranked_iff.1 (List.mem_of_mem_drop hdrop)
        refine ⟨?_, ?_⟩
        · rintro ⟨-, hm, hpos⟩
          rcases hin.2 with hnot | hzero
          · rw [hm] at hnot
            cases hnot
          · omega
        · intro htake
          rw [← List.take_append_drop stats.keptRanked (ranked entries), List.nodup_append]
            at hranked
          exact hranked.2.2 e htake e hdrop rfl
      · refine ⟨?_, ?_⟩
        · rintro ⟨-, -, hpos⟩
          omega
        · intro htake
          rcases (mem_ranked_iff.1 (List.mem_of_mem_take htake)).2 with hnot | hzero
          · rw [hm] at hnot
            cases hnot
          · omega

/-- A file that is returned keeps the promises. -/
theorem buildPatchFile_packsWithin {context : PackContext Fingerprint}
    {fileLen : PatchFile Fingerprint → Nat} {entries : List MineEntry} {budgetBytes : Nat}
    {allowTrimBlunders : Bool} {file : PatchFile Fingerprint} {stats : BuildTrimStats}
    (h : buildPatchFile context fileLen entries budgetBytes allowTrimBlunders
      = some (.ok (file, stats))) :
    PacksWithin context fileLen entries budgetBytes allowTrimBlunders file stats := by
  unfold buildPatchFile at h
  obtain ⟨_, hguard, h⟩ := Option.bind_eq_some_iff.1 h
  have hnodup : (entries.map MineEntry.key).Nodup := by
    by_contra hdup
    rw [guard, if_neg hdup] at hguard
    cases hguard
  obtain ⟨records, hrecords, h⟩ := Option.bind_eq_some_iff.1 h
  have hassemble : ∀ low file, assemble context records ((ranked entries).take low) = some file →
      FileOf context (midBlunders entries ++ (ranked entries).take low) file :=
    fun low file => fileOf_assemble (fun e he => (mem_midBlunders_iff.1 he).2.1)
      (nodup_kept hnodup low) hrecords
  dsimp only at h
  by_cases hzero : budgetBytes = 0
  · rw [if_pos hzero] at h
    obtain ⟨built, hbuilt, hresult⟩ := Option.bind_eq_some_iff.1 h
    cases hresult
    have hall := hassemble (ranked entries).length file
    rw [List.take_length] at hall
    have hfile := hall hbuilt
    refine packsWithin_of_fileOf hnodup ?_ (fun _ => List.countP_le_length) ?_ ?_ ?_
      (fun hbudget => absurd hzero hbudget)
    · show FileOf context (_ ++ (ranked entries).take (ranked entries).length) file
      rw [List.take_length]
      exact hfile
    · simp
    · simp
    · simp
  · rw [if_neg hzero] at h
    obtain ⟨low, hlow, h⟩ := Option.bind_eq_some_iff.1 h
    obtain ⟨-, hle, hfits⟩ := PrefixSearch.search_spec (Nat.zero_le _) hlow
    by_cases htrims : low < pooledBlunders entries ∧ allowTrimBlunders = false
    · rw [if_pos htrims] at h
      cases h
    · rw [if_neg htrims] at h
      obtain ⟨floor, hfloor, h⟩ := Option.bind_eq_some_iff.1 h
      by_cases hover : budgetBytes < floor ∧ allowTrimBlunders = false
      · rw [if_pos hover] at h
        cases h
      · rw [if_neg hover] at h
        obtain ⟨built, hbuilt, hresult⟩ := Option.bind_eq_some_iff.1 h
        cases hresult
        obtain ⟨hblunders, hsteering, hmass⟩ := trimStats_eq hle
        refine packsWithin_of_fileOf hnodup (hassemble low file hbuilt) ?_ hblunders hsteering
          hmass ?_
        · intro hallow
          by_contra hless
          exact htrims ⟨Nat.lt_of_not_le hless, hallow⟩
        · -- the search keeps a length that fits, or none of the pool
          intro _ hlarge
          rcases hfits with hnone | hfit
          · exact hnone
          · rw [hbuilt] at hfit
            have hsmall : fileLen file ≤ budgetBytes := of_decide_eq_true (Option.some.inj hfit)
            omega

/-- A context in which every entry has a proof. -/
def sampleContext : PackContext Unit where
  proofs := fun _ => some ⟨2, 1, 0, 0⟩
  variantByte := 0
  fingerprint := ()
  secvalBytes := []
  listing := ⟨id, fun entries => List.Perm.refl entries⟩

/-- A settled entry of an empty board. -/
def settledEntry (severity : Int) : MineEntry := ⟨0, 1, severity, 0, 1⟩

def midEntry (severity : Int) : MineEntry := ⟨MID_REMOVAL_TAG, 1, severity, 0, 1⟩

/-- Ten bytes for each record. -/
def recordBytes (file : PatchFile Unit) : Nat :=
  10 * (file.midRemovalRecords.length + (file.sectors.map fun group => group.records.length).sum)

/-- Blunders on and off the mid-removal list, and two entries that steer. -/
def mixedEntries : List MineEntry :=
  [⟨2, 1, 0, 0, 1⟩, settledEntry 1, midEntry 1, ⟨1, 1, 0, 0, 3⟩]

/-- Three records fit: the lighter of the entries that steer is trimmed. -/
theorem buildPatchFile_packsWithin_trimmed :
    ∃ file stats, stats.trimmedSteering = 1 ∧ stats.trimmedBlunders = 0
      ∧ PacksWithin sampleContext recordBytes mixedEntries 30 false file stats :=
  ⟨_, _, rfl, rfl,
    @buildPatchFile_packsWithin _ sampleContext recordBytes mixedEntries 30 false _ _ rfl⟩

/-- A mid-removal entry of severity -1 is left out and not counted, and the budget 0 keeps a
pooled entry in a file of 5 bytes. -/
theorem buildPatchFile_leaves_out :
    (∃ file stats, buildPatchFile sampleContext (fun _ => 5) [midEntry (-1)] 10 false
        = some (.ok (file, stats))
      ∧ file.midRemovalRecords = [] ∧ file.sectors = []
      ∧ stats.trimmedSteering + stats.trimmedBlunders = 0)
    ∧ ∃ file stats, buildPatchFile sampleContext (fun _ => 5) [settledEntry 0] 0 false
        = some (.ok (file, stats))
      ∧ 0 < (fun _ => 5) file ∧ stats.keptRanked = 1 :=
  ⟨⟨_, _, rfl, rfl, rfl, rfl⟩, ⟨_, _, rfl, by decide, rfl⟩⟩

end Sanmill.Pack
