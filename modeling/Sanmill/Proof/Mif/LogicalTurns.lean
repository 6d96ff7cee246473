import Mathlib.Data.List.Chain
import Sanmill.Proof.Mif.Trace

/-!
# Logical turns

While removals are owed a player may still offer a draw, and an offer may be withdrawn or
declined. The scan for turns stops at the first event that is not a removal, so the removals
behind such an event are in no fragment. Where every removal directly follows a place, a
move or another removal, each event lands in the fragment of the turn it belongs to.
-/

namespace Sanmill.Mif

open Fallible (Runs runs_nil_iff runs_cons_iff runs_append_iff)

/-- A place, a move or a removal: the events that belong to turns. -/
def isAction (event : Json) : Bool := isPrimary event || isRemove event

/-- A removal directly follows another event of a turn. -/
def Follows (event next : Json) : Prop := isRemove next = true → isAction event = true

namespace LogicalFragment

/-- The numbers of the events in a fragment. -/
def seqs (f : LogicalFragment) : List Nat := f.primary.toList ++ f.removes

/-- Where the obligation of a fragment comes from: its primary event, or the origin. -/
def start (f : LogicalFragment) : Nat := f.primary.getD 0

end LogicalFragment

/-- The event with the number is a removal. -/
def RemovesAt (events : List Json) (k : Nat) : Prop :=
  ∃ event ∈ events, eventSeq event = k ∧ isRemove event = true

/-- What is owed from the event `p` on is paid by removals, or the event leaves nothing to
remove. -/
def Discharged (owes : Nat → Prop) (events : List Json) (p : Nat) : Prop :=
  ∃ k, p ≤ k ∧ (∀ j, p ≤ j → j < k → owes j) ∧ ¬owes k ∧ (k = p ∨ RemovesAt events k)

/-- The fragments hold the events of the turns; `owes k` says that removals are owed after the
event `k`. -/
structure AttachesEvents (owes : Nat → Prop) (events : List Json)
    (fragments : List LogicalFragment) : Prop where
  /-- Each place, move and remove event is in one fragment, and the order is that of the events. -/
  placed : fragments.flatMap LogicalFragment.seqs = (events.filter isAction).map eventSeq
  /-- A turn starts with a place or a move. -/
  primary : ∀ f ∈ fragments, ∀ p, f.primary = some p →
    ∃ event ∈ events, eventSeq event = p ∧ isPrimary event = true
  /-- Without one, the obligation is that of the origin. -/
  origin : ∀ f ∈ fragments, f.primary = none → owes 0
  /-- The removals of a fragment are owed from its start on. -/
  removes : ∀ f ∈ fragments, ∀ r ∈ f.removes,
    RemovesAt events r ∧ f.start < r ∧ ∀ k, f.start ≤ k → k < r → owes k
  complete : ∀ f ∈ fragments, f.complete = true ↔ Discharged owes events f.start

/-! ## The scan -/

theorem isOneOf_iff {value : Option Text} {names : List String} :
    isOneOf value names = true ↔ ∃ name ∈ names, value = some name.toList := by
  unfold isOneOf
  rw [Option.any_eq_true]
  simp only [List.any_eq_true, decide_eq_true_iff]
  constructor
  · rintro ⟨text, hvalue, name, hname, rfl⟩
    exact ⟨name, hname, hvalue⟩
  · rintro ⟨name, hname, hvalue⟩
    exact ⟨_, hvalue, name, hname, rfl⟩

theorem isPrimary_iff {event : Json} :
    isPrimary event = true ↔ Engine.memberText event "type" = some "place".toList
      ∨ Engine.memberText event "type" = some "move".toList := by
  unfold isPrimary
  rw [isOneOf_iff]
  simp only [List.mem_cons, List.not_mem_nil, or_false, exists_eq_or_imp, exists_eq_left]

theorem isRemove_iff {event : Json} :
    isRemove event = true ↔ Engine.memberText event "type" = some "remove".toList := by
  unfold isRemove
  rw [isOneOf_iff]
  simp only [List.mem_singleton, exists_eq_left]

theorem not_isRemove_of_isPrimary {event : Json} (h : isPrimary event = true) :
    isRemove event = false := by
  rw [Bool.eq_false_iff]
  intro hremove
  have hname := isRemove_iff.1 hremove
  rcases isPrimary_iff.1 h with hplace | hmove
  · exact absurd (hplace.symm.trans hname) (by decide)
  · exact absurd (hmove.symm.trans hname) (by decide)

/-- A document without members is no action. -/
example : isAction (.ofMembers []) = false := by decide +kernel

section Scan

variable {closed : Nat → Bool} {n : Nat} {events : List Json} {complete : Bool}

/-- The events after the first `n` have the next numbers; a place or a move is accepted where
nothing is owed, and a removal where something is. -/
def LegalFrom (closed : Nat → Bool) : Nat → List Json → Prop
  | _, [] => True
  | n, event :: rest =>
    eventSeq event = n + 1 ∧ (isPrimary event = true → closed n = true)
      ∧ (isRemove event = true → closed n = false) ∧ LegalFrom closed (n + 1) rest

theorem LegalFrom.map_seq (h : LegalFrom closed n events) :
    events.map eventSeq = List.range' (n + 1) events.length := by
  induction events generalizing n with
  | nil => rfl
  | cons event rest ih =>
    obtain ⟨hseq, -, -, hrest⟩ := h
    rw [List.map_cons, ih hrest, hseq, List.length_cons, List.range'_succ]

theorem LegalFrom.seq_gt (h : LegalFrom closed n events) {event : Json} (hmem : event ∈ events) :
    n < eventSeq event ∧ eventSeq event ≤ n + events.length := by
  have hseq := List.mem_map_of_mem (f := eventSeq) hmem
  rw [h.map_seq, List.mem_range'_1] at hseq
  omega

theorem LegalFrom.append {taken later : List Json} (h : LegalFrom closed n (taken ++ later)) :
    LegalFrom closed n taken ∧ LegalFrom closed (n + taken.length) later := by
  induction taken generalizing n with
  | nil => exact ⟨trivial, h⟩
  | cons event rest ih =>
    obtain ⟨hseq, hprimary, hremove, hrest⟩ := h
    obtain ⟨htaken, hlater⟩ := ih hrest
    refine ⟨⟨hseq, hprimary, hremove, htaken⟩, ?_⟩
    rw [List.length_cons, show n + (rest.length + 1) = n + 1 + rest.length by omega]
    exact hlater

/-- What an inner loop takes from the events after the first `n`. -/
structure Takes (closed : Nat → Bool) (n : Nat) (events : List Json) (c : Collected)
    (taken : List Json) : Prop where
  events : events = taken ++ c.later
  removes : c.removes = taken.map eventSeq
  removal : ∀ event ∈ taken, isRemove event = true
  owed : ∀ k, n ≤ k → k < n + taken.length → closed k = false
  complete : c.complete = closed (n + taken.length)
  /-- The loop ends where no removal follows. -/
  stops : ∀ next ∈ c.later.head?, isRemove next = false

theorem collectRemoves_takes (h : LegalFrom closed n events) (complete : Bool)
    (hcomplete : complete = closed n) :
    ∃ taken, Takes closed n events (collectRemoves closed events complete) taken := by
  induction events generalizing n complete with
  | nil =>
    refine ⟨[], rfl, rfl, ?_, ?_, hcomplete, ?_⟩
    · intro event hmem
      cases hmem
    · intro k hk hlt
      exact absurd (Nat.lt_of_lt_of_le hlt hk) (lt_irrefl _)
    · intro next hnext
      cases hnext
  | cons event rest ih =>
    obtain ⟨hseq, hprimary, hremove, hrest⟩ := h
    unfold collectRemoves
    by_cases hstop : complete = true ∨ isRemove event = false
    · rw [if_pos hstop]
      refine ⟨[], rfl, rfl, ?_, ?_, hcomplete, ?_⟩
      · intro event hmem
        cases hmem
      · intro k hk hlt
        exact absurd (Nat.lt_of_lt_of_le hlt hk) (lt_irrefl _)
      · intro next hnext
        obtain rfl : event = next := Option.some.inj hnext
        rcases hstop with hclosed | hother
        · -- nothing is owed, so a removal would not have been accepted
          by_contra hremoves
          have hopen := hremove (eq_true_of_ne_false hremoves)
          rw [← hcomplete, hclosed] at hopen
          cases hopen
        · exact hother
    · rw [if_neg hstop]
      have hevent : isRemove event = true := eq_true_of_ne_false fun h => hstop (.inr h)
      have hopen : closed n = false := hremove hevent
      obtain ⟨taken, htaken⟩ := ih hrest (closed (eventSeq event)) (by rw [hseq])
      have hlength : n + (event :: taken).length = n + 1 + taken.length := by
        rw [List.length_cons]
        omega
      refine ⟨event :: taken, ?_, ?_, ?_, ?_, ?_, htaken.stops⟩
      · exact congrArg (event :: ·) htaken.events
      · exact congrArg (eventSeq event :: ·) htaken.removes
      · intro other hmem
        rcases List.mem_cons.1 hmem with rfl | hmem
        · exact hevent
        · exact htaken.removal other hmem
      · intro k hk hlt
        rcases Nat.eq_or_lt_of_le hk with rfl | hk
        · exact hopen
        · exact htaken.owed k hk (by omega)
      · rw [hlength]
        exact htaken.complete

theorem Takes.legal {c : Collected} {taken : List Json} (h : Takes closed n events c taken)
    (hlegal : LegalFrom closed n events) : LegalFrom closed (n + taken.length) c.later := by
  have hboth := hlegal
  rw [h.events] at hboth
  exact hboth.append.2

theorem Takes.mem_removes {c : Collected} {taken : List Json} (h : Takes closed n events c taken)
    (hlegal : LegalFrom closed n events) {r : Nat} (hr : r ∈ c.removes) :
    RemovesAt events r ∧ n < r ∧ ∀ k, n ≤ k → k < r → closed k = false := by
  have hboth := hlegal
  rw [h.events] at hboth
  rw [h.removes] at hr
  obtain ⟨event, hmem, rfl⟩ := List.mem_map.1 hr
  obtain ⟨hgt, hle⟩ := hboth.append.1.seq_gt hmem
  refine ⟨⟨event, ?_, rfl, h.removal event hmem⟩, hgt, ?_⟩
  · rw [h.events]
    exact List.mem_append_left _ hmem
  · intro k hk hlt
    exact h.owed k hk (by omega)

/-- A fragment of the outer loop, with the loops that made it. -/
def FragmentOf (closed : Nat → Bool) (n : Nat) (events : List Json) (f : LogicalFragment) : Prop :=
  ∃ before event rest taken c, events = before ++ event :: rest ∧ isPrimary event = true
    ∧ f.primary = some (n + before.length + 1)
    ∧ Takes closed (n + before.length + 1) rest c taken ∧ f.removes = c.removes
    ∧ f.complete = c.complete

theorem turnFragments_made (h : LegalFrom closed n events) :
    ∀ f ∈ turnFragments closed events, FragmentOf closed n events f := by
  -- the cases follow `turnFragments`: no event, a primary one that opens a fragment, any other one
  induction events using turnFragments.induct closed generalizing n with
  | case1 =>
    intro f hf
    rw [turnFragments] at hf
    cases hf
  | case2 event rest hprimary seq taken =>
    rename_i ih
    intro f hf
    rw [turnFragments, if_pos hprimary] at hf
    obtain ⟨hseq, -, -, hrest⟩ := h
    obtain ⟨took, htakes⟩ := collectRemoves_takes hrest (closed (eventSeq event)) (by rw [hseq])
    rcases List.mem_cons.1 hf with rfl | hf
    · refine ⟨[], event, rest, took, taken, rfl, hprimary, ?_, ?_, rfl, rfl⟩
      · exact congrArg some hseq
      · exact htakes
    · obtain ⟨before, next, later, took', c, hevents, hmade⟩ := ih (htakes.legal hrest) f hf
      -- a later fragment lies behind the event, what it took, and what comes before
      refine ⟨event :: (took ++ before), next, later, took', c, ?_, ?_⟩
      · rw [List.cons_append, List.append_assoc, ← hevents, ← htakes.events]
      · have hlength : n + (event :: (took ++ before)).length
            = n + 1 + took.length + before.length := by
          rw [List.length_cons, List.length_append]
          omega
        rw [hlength]
        exact hmade
  | case3 event rest hprimary ih =>
    intro f hf
    rw [turnFragments, if_neg hprimary] at hf
    obtain ⟨-, -, -, hrest⟩ := h
    obtain ⟨before, next, later, took, c, hevents, hmade⟩ := ih hrest f hf
    refine ⟨event :: before, next, later, took, c, ?_, ?_⟩
    · rw [List.cons_append, ← hevents]
    · have hlength : n + (event :: before).length = n + 1 + before.length := by
        rw [List.length_cons]
        omega
      rw [hlength]
      exact hmade

/-! ## Paid obligations -/

/-- Where removals follow turns, what is still owed is not paid behind the end of a turn. -/
theorem not_removesAt_later {later : List Json} {k : Nat} (hlegal : LegalFrom closed n later)
    (hstops : ∀ next ∈ later.head?, isRemove next = false) (hchain : later.IsChain Follows)
    (hopen : ∀ j, n ≤ j → j < k → closed j = false) : ¬RemovesAt later k := by
  induction later generalizing n with
  | nil =>
    rintro ⟨event, hmem, -, -⟩
    cases hmem
  | cons event rest ih =>
    obtain ⟨hseq, hprimary, -, hrest⟩ := hlegal
    rw [List.isChain_cons] at hchain
    obtain ⟨hnext, hchain⟩ := hchain
    have hevent : isRemove event = false := hstops event rfl
    rintro ⟨other, hmem, hother, hremove⟩
    rcases List.mem_cons.1 hmem with rfl | hmem
    · rw [hevent] at hremove
      cases hremove
    have hlater := (hrest.seq_gt hmem).1
    rw [hother] at hlater
    refine ih hrest ?_ hchain (fun j hj hlt => hopen j (by omega) hlt)
      ⟨other, hmem, hother, hremove⟩
    intro next hmem
    by_contra hremoves
    -- only a place or a move could stand before it, and neither is accepted while removals are owed
    have haction := hnext next hmem (eq_true_of_ne_false hremoves)
    unfold isAction at haction
    rw [hevent, Bool.or_false] at haction
    have hclosed := hprimary haction
    rw [hopen n le_rfl (by omega)] at hclosed
    cases hclosed

theorem takes_complete_iff (before : List Json) {c : Collected} {taken : List Json}
    (hlegal : LegalFrom closed 0 (before ++ events))
    (htakes : Takes closed before.length events c taken)
    (hchain : (before ++ events).IsChain Follows) :
    c.complete = true
      ↔ Discharged (fun k => closed k = false) (before ++ events) before.length := by
  have hevents : LegalFrom closed before.length events := by
    have hafter := hlegal.append.2
    rwa [Nat.zero_add] at hafter
  rw [htakes.complete]
  constructor
  · intro hclosed
    refine ⟨before.length + taken.length, by omega, htakes.owed, ?_, ?_⟩
    · intro hopen
      exact absurd (hclosed.symm.trans hopen) (by decide)
    rcases taken.eq_nil_or_concat with rfl | ⟨earlier, last, rfl⟩
    · exact .inl rfl
    · right
      have hmem : last ∈ events := by
        rw [htakes.events]
        simp
      refine ⟨last, List.mem_append_right _ hmem, ?_, htakes.removal last (by simp)⟩
      have hboth := hevents
      rw [htakes.events] at hboth
      have hseqs := hboth.append.1.map_seq
      simp only [List.concat_eq_append, List.map_append, List.map_cons, List.map_nil,
        List.length_append,
        List.length_singleton, List.range'_concat] at hseqs ⊢
      have hlast := List.append_inj_right' hseqs rfl
      have heq := List.cons.inj hlast
      omega
  · rintro ⟨k, hk, howed, hdone, hpaid⟩
    have hclosed : closed k = true := eq_true_of_ne_false hdone
    by_contra hopen
    have hbeyond : before.length + taken.length < k := by
      by_contra hle
      rcases Nat.lt_or_eq_of_le (Nat.le_of_not_lt hle) with hlt | rfl
      · rw [htakes.owed k hk hlt] at hclosed
        cases hclosed
      · exact hopen hclosed
    rcases hpaid with rfl | ⟨event, hmem, hseq, hremove⟩
    · omega
    -- the event is behind those that were taken
    have hlater : event ∈ c.later := by
      rcases List.mem_append.1 hmem with hearlier | hmem
      · have hle := (hlegal.append.1.seq_gt hearlier).2
        omega
      rw [htakes.events] at hmem
      rcases List.mem_append.1 hmem with htaken | hlater
      · have hboth := hevents
        rw [htakes.events] at hboth
        have hle := (hboth.append.1.seq_gt htaken).2
        omega
      · exact hlater
    have hchainLater : c.later.IsChain Follows := by
      have hsuffix := (List.isChain_append.1 hchain).2.1
      rw [htakes.events] at hsuffix
      exact (List.isChain_append.1 hsuffix).2.1
    refine not_removesAt_later (htakes.legal hevents) htakes.stops hchainLater ?_
      ⟨event, hlater, hseq, hremove⟩
    intro j hj hlt
    exact howed j (by omega) hlt

/-! ## Placed events -/

theorem isAction_of_isRemove {event : Json} (h : isRemove event = true) :
    isAction event = true := by
  unfold isAction
  rw [h, Bool.or_true]

/-- Any event may follow an event of a turn. -/
theorem isChain_actions (taken : List Json) {later : List Json}
    (htaken : ∀ event ∈ taken, isAction event = true) :
    (taken ++ later).IsChain Follows ↔ later.IsChain Follows := by
  induction taken with
  | nil => exact Iff.rfl
  | cons first rest ih =>
    rw [List.cons_append, List.isChain_cons,
      ih fun event hmem => htaken event (List.mem_cons_of_mem _ hmem)]
    constructor
    · intro h
      exact h.2
    · intro h
      exact ⟨fun _ _ _ => htaken first List.mem_cons_self, h⟩

theorem FragmentOf.seqs_gt {f : LogicalFragment} (hlegal : LegalFrom closed n events)
    (h : FragmentOf closed n events f) {seq : Nat} (hseq : seq ∈ f.seqs) : n < seq := by
  obtain ⟨before, event, rest, taken, c, rfl, -, hprimary, htakes, hremoves, -⟩ := h
  unfold LogicalFragment.seqs at hseq
  rw [hprimary, hremoves] at hseq
  rcases List.mem_append.1 hseq with hstart | hseq
  · have heq : seq = n + before.length + 1 := by simpa using hstart
    omega
  · obtain ⟨-, -, -, hrest⟩ := hlegal.append.2
    have hgt := (htakes.mem_removes hrest hseq).2.1
    omega

/-- The events that a scan has taken, and the events of turns that are left. -/
theorem filter_taken {taken later : List Json} (htaken : ∀ next ∈ taken, isRemove next = true) :
    (taken ++ later).filter isAction = taken ++ later.filter isAction := by
  rw [List.filter_append, List.filter_eq_self.2]
  intro next hmem
  exact isAction_of_isRemove (htaken next hmem)

theorem turnFragments_placed_iff (hlegal : LegalFrom closed n events)
    (hstops : ∀ next ∈ events.head?, isRemove next = false) :
    (turnFragments closed events).flatMap LogicalFragment.seqs
      = (events.filter isAction).map eventSeq
      ↔ events.IsChain Follows := by
  induction events using turnFragments.induct closed generalizing n with
  | case1 =>
    rw [turnFragments]
    constructor
    · intro _
      exact .nil
    · intro _
      rfl
  | case2 event rest hprimary seq taken =>
    rename_i ih
    obtain ⟨hseq, -, -, hrest⟩ := hlegal
    obtain ⟨took, htakes⟩ := collectRemoves_takes hrest (closed (eventSeq event)) (by rw [hseq])
    have hevent : isAction event = true := by
      unfold isAction
      rw [hprimary, Bool.true_or]
    have hih := ih (htakes.legal hrest) htakes.stops
    have hchain : (event :: rest).IsChain Follows ↔ taken.later.IsChain Follows := by
      rw [htakes.events]
      refine isChain_actions (event :: took) fun other hmem => ?_
      rcases List.mem_cons.1 hmem with rfl | hmem
      · exact hevent
      · exact isAction_of_isRemove (htakes.removal other hmem)
    rw [hchain, ← hih, turnFragments, if_pos hprimary, List.flatMap_cons,
      List.filter_cons_of_pos hevent,
      List.map_cons]
    have hfilter : rest.filter isAction = took ++ taken.later.filter isAction := by
      rw [htakes.events]
      exact filter_taken htakes.removal
    have hseqs : (logicalFragment (eventSeq event) taken.removes taken.complete).seqs
        = eventSeq event :: took.map eventSeq := by
      rw [← htakes.removes]
      rfl
    rw [hfilter, List.map_append]
    change (logicalFragment (eventSeq event) taken.removes taken.complete).seqs ++ _ = _ ↔ _
    rw [hseqs, List.cons_append, List.cons.injEq, and_iff_right rfl, List.append_cancel_left_eq]
  | case3 event rest hprimary ih =>
    obtain ⟨-, -, -, hrest⟩ := hlegal
    have hevent : isAction event = false := by
      unfold isAction
      rw [eq_false_of_ne_true hprimary, hstops event rfl]
      rfl
    rw [turnFragments, if_neg hprimary, List.filter_cons_of_neg (by rw [hevent]; nofun),
      List.isChain_cons]
    by_cases hnext : ∀ next ∈ rest.head?, isRemove next = false
    · rw [ih hrest hnext]
      constructor
      · intro h
        refine ⟨fun next hmem hremove => ?_, h⟩
        rw [hnext next hmem] at hremove
        cases hremove
      · intro h
        exact h.2
    · -- the removal is lost: the scan goes on behind it
      push Not at hnext
      obtain ⟨next, hmem, hremove⟩ := hnext
      have hremoves := eq_true_of_ne_false hremove
      obtain ⟨later, rfl⟩ : ∃ later, rest = next :: later := by
        cases rest with
        | nil => cases hmem
        | cons first later => exact ⟨later, by rw [Option.some.inj hmem]⟩
      constructor
      · intro hplaced
        obtain ⟨hseq, -, -, hlater⟩ := hrest
        have hnone : isPrimary next = false := by
          by_contra hne
          rw [not_isRemove_of_isPrimary (eq_true_of_ne_false hne)] at hremoves
          cases hremoves
        have haction := isAction_of_isRemove hremoves
        rw [turnFragments, if_neg (by rw [hnone]; nofun), List.filter_cons_of_pos haction,
          List.map_cons] at hplaced
        have hmem : eventSeq next ∈ (turnFragments closed later).flatMap LogicalFragment.seqs := by
          rw [hplaced]
          exact List.mem_cons_self
        obtain ⟨f, hf, hin⟩ := List.mem_flatMap.1 hmem
        have hgt := (turnFragments_made hlater f hf).seqs_gt hlater hin
        omega
      · rintro ⟨hfollows, -⟩
        have haction := hfollows next hmem hremoves
        rw [hevent] at haction
        cases haction

/-! ## The fragments of a replay -/

/-- What is shared by the fragment of an origin and those of the outer loop. -/
theorem fragmentOf_removes {f : LogicalFragment} (hlegal : LegalFrom closed 0 events)
    (h : FragmentOf closed 0 events f) :
    (∃ event ∈ events, eventSeq event = f.start ∧ isPrimary event = true) ∧ f.primary = some f.start
      ∧ (∀ r ∈ f.removes, RemovesAt events r ∧ f.start < r
        ∧ ∀ k, f.start ≤ k → k < r → closed k = false)
      ∧ (events.IsChain Follows →
        (f.complete = true ↔ Discharged (fun k => closed k = false) events f.start)) := by
  obtain ⟨before, event, rest, taken, c, rfl, hevent, hprimary, htakes, hremoves, hcomplete⟩ := h
  rw [Nat.zero_add] at hprimary htakes
  have hstart : f.start = before.length + 1 := by
    unfold LogicalFragment.start
    rw [hprimary]
    rfl
  obtain ⟨hseq, -, -, hrest⟩ := hlegal.append.2
  rw [Nat.zero_add] at hseq hrest
  refine ⟨⟨event, by simp, hseq.trans hstart.symm, hevent⟩,
    hprimary.trans (congrArg some hstart.symm), ?_, ?_⟩
  · intro r hr
    rw [hremoves] at hr
    obtain ⟨⟨other, hmem, hother⟩, hgt, howed⟩ := htakes.mem_removes hrest hr
    rw [hstart]
    exact ⟨⟨other, by simp [hmem], hother⟩, hgt, howed⟩
  · intro hchain
    have hsplit : before ++ event :: rest = (before ++ [event]) ++ rest := by simp
    have hlength : (before ++ [event]).length = before.length + 1 := by simp
    rw [hsplit] at hlegal hchain ⊢
    rw [hcomplete, hstart, ← hlength]
    rw [← hlength] at htakes
    exact takes_complete_iff _ hlegal htakes hchain

end Scan

namespace Engine

variable {e start : Engine} {event : Json} {events : List Json} {identity : Identity}

/-- The fragment of an origin takes the removals at the start, and the rest is scanned for turns. -/
theorem fragments_open (hopen : e.closedAt 0 = false) (hlegal : LegalFrom e.closedAt 0 events) :
    ∃ origin c taken, e.fragments events = origin :: turnFragments e.closedAt c.later
      ∧ Takes e.closedAt 0 events c taken ∧ origin.primary = none ∧ origin.removes = c.removes
      ∧ origin.complete = c.complete := by
  obtain ⟨taken, htakes⟩ := collectRemoves_takes hlegal false hopen.symm
  let kind := if e.originGeneratedObligation then "origin-stabilization" else "origin-obligation"
  let c := collectRemoves e.closedAt events false
  refine ⟨⟨kind, none, c.removes, c.complete⟩, c, taken, ?_, htakes, rfl, rfl, rfl⟩
  unfold fragments
  rw [if_pos hopen]

theorem fragments_placed_iff (hlegal : LegalFrom e.closedAt 0 events) :
    (e.fragments events).flatMap LogicalFragment.seqs = (events.filter isAction).map eventSeq
      ↔ events.IsChain Follows := by
  cases hclosed : e.closedAt 0 with
  | true =>
    have hfragments : e.fragments events = turnFragments e.closedAt events := by
      unfold fragments
      rw [hclosed]
      rfl
    rw [hfragments]
    refine turnFragments_placed_iff hlegal fun next hnext => ?_
    -- with nothing owed at the start, the first event cannot be a removal
    cases events with
    | nil => cases hnext
    | cons first rest =>
      obtain rfl : first = next := Option.some.inj hnext
      by_contra hremove
      have hopen := hlegal.2.2.1 (eq_true_of_ne_false hremove)
      rw [hclosed] at hopen
      cases hopen
  | false =>
    -- removals owed from the start make a fragment of their own
    obtain ⟨origin, c, taken, hfragments, htakes, hprimary, hremoves, -⟩ :=
      fragments_open hclosed hlegal
    have hlater := turnFragments_placed_iff (htakes.legal hlegal) htakes.stops
    have hseqs : origin.seqs = taken.map eventSeq := by
      unfold LogicalFragment.seqs
      rw [hprimary, hremoves, htakes.removes]
      rfl
    have hfilter : events.filter isAction = taken ++ c.later.filter isAction := by
      rw [htakes.events]
      exact filter_taken htakes.removal
    have hchain : events.IsChain Follows ↔ c.later.IsChain Follows := by
      rw [htakes.events]
      exact isChain_actions _ fun other hmem => isAction_of_isRemove (htakes.removal other hmem)
    rw [hchain, ← hlater, hfragments, List.flatMap_cons, hseqs, hfilter, List.map_append,
      List.append_cancel_left_eq]

/-- A fragment is that of the origin, or one of the outer loop. -/
theorem fragments_made (hlegal : LegalFrom e.closedAt 0 events) {f : LogicalFragment}
    (hf : f ∈ e.fragments events) :
    FragmentOf e.closedAt 0 events f
      ∨ (e.closedAt 0 = false ∧ f.primary = none ∧ ∃ c taken, Takes e.closedAt 0 events c taken
        ∧ f.removes = c.removes ∧ f.complete = c.complete) := by
  cases hclosed : e.closedAt 0 with
  | true =>
    have hfragments : e.fragments events = turnFragments e.closedAt events := by
      unfold fragments
      rw [hclosed]
      rfl
    rw [hfragments] at hf
    exact .inl (turnFragments_made hlegal f hf)
  | false =>
    obtain ⟨origin, c, taken, hfragments, htakes, hprimary, hremoves, hcomplete⟩ :=
      fragments_open hclosed hlegal
    rw [hfragments] at hf
    rcases List.mem_cons.1 hf with rfl | hf
    · exact .inr ⟨rfl, hprimary, c, taken, htakes, hremoves, hcomplete⟩
    · left
      obtain ⟨before, next, rest, taken', c', hevents, hevent, hprimary', htakes', hmade⟩ :=
        turnFragments_made (htakes.legal hlegal) f hf
      have hlength : 0 + taken.length + before.length = 0 + (taken ++ before).length := by
        rw [List.length_append]
        omega
      rw [hlength] at hprimary' htakes'
      refine ⟨taken ++ before, next, rest, taken', c', ?_, hevent, hprimary', htakes', hmade⟩
      rw [List.append_assoc, ← hevents, ← htakes.events]

theorem fragments_attach_iff (hlegal : LegalFrom e.closedAt 0 events) :
    AttachesEvents (fun k => e.closedAt k = false) events (e.fragments events)
      ↔ events.IsChain Follows := by
  constructor
  · intro h
    exact (fragments_placed_iff hlegal).1 h.placed
  -- a fragment is that of a turn, or the one of the removals owed from the start
  intro hchain
  refine ⟨(fragments_placed_iff hlegal).2 hchain, ?_, ?_, ?_, ?_⟩
  · intro f hf p hp
    rcases fragments_made hlegal hf with hturn | ⟨-, hnone, -⟩
    · obtain ⟨hevent, hprimary, -, -⟩ := fragmentOf_removes hlegal hturn
      obtain rfl := Option.some.inj (hp.symm.trans hprimary)
      exact hevent
    · rw [hnone] at hp
      cases hp
  · intro f hf hnone
    rcases fragments_made hlegal hf with hturn | ⟨hopen, -⟩
    · obtain ⟨-, hprimary, -, -⟩ := fragmentOf_removes hlegal hturn
      rw [hnone] at hprimary
      cases hprimary
    · exact hopen
  · intro f hf r hr
    rcases fragments_made hlegal hf with hturn | ⟨-, hnone, c, taken, htakes, hremoves, -⟩
    · exact (fragmentOf_removes hlegal hturn).2.2.1 r hr
    · unfold LogicalFragment.start
      rw [hremoves] at hr
      rw [hnone]
      exact htakes.mem_removes hlegal hr
  · intro f hf
    rcases fragments_made hlegal hf with hturn | ⟨-, hnone, c, taken, htakes, -, hcomplete⟩
    · exact (fragmentOf_removes hlegal hturn).2.2.2 hchain
    · unfold LogicalFragment.start
      rw [hcomplete, hnone]
      exact takes_complete_iff [] hlegal htakes hchain

/-! ## Accepted recordings -/

theorem executeEvent_seq {e' : Engine} (hok : executeEvent identity e event = .ok e') :
    eventSeq event = e.events.length + 1
      ∧ ∃ applied, e.applyEvent event (eventSeq event) = .ok applied := by
  unfold executeEvent at hok
  unfold eventSeq
  split at hok
  · cases hok
  rename_i seq hseq
  split at hok
  · cases hok
  rename_i hnumber
  obtain ⟨applied, happly, -⟩ := Except.bind_ok_iff.1 hok
  rw [hseq]
  exact ⟨not_not.1 hnumber, applied, happly⟩

theorem eventType_of_isPrimary (h : isPrimary event = true) :
    eventType event = some .place ∨ eventType event = some .move := by
  unfold eventType
  rcases isPrimary_iff.1 h with hplace | hmove
  · rw [hplace]
    left
    decide
  · rw [hmove]
    right
    decide

theorem eventType_of_isRemove (h : isRemove event = true) : eventType event = some .remove := by
  unfold eventType
  rw [isRemove_iff.1 h]
  decide

theorem applyEvent_type {e' : Engine} {seq : Nat} (h : e.Traced)
    (hok : e.applyEvent event seq = .ok e') :
    (isPrimary event = true → e.state.obligations = dash)
      ∧ (isRemove event = true → e.state.obligations ≠ dash) := by
  unfold applyEvent at hok
  split at hok
  · cases hok
  dsimp only at hok
  constructor
  · intro hprimary
    rcases eventType_of_isPrimary hprimary with htype | htype
    · rw [htype] at hok
      exact (applyPlace_advances h.owing hok).2
    · rw [htype] at hok
      exact (applyMove_advances h.owing hok).2
  · intro hremove
    rw [eventType_of_isRemove hremove] at hok
    exact (applyRemove_advances h.normal h.owing hok).2

theorem runs_legalFrom (h : start.Traced) (hruns : Runs (executeEvent identity) start events e) :
    LegalFrom e.closedAt start.events.length events := by
  induction events generalizing start with
  | nil => trivial
  | cons event rest ih =>
    have hclosed := (runs_traced h hruns).2.2 start.events.length le_rfl
    rw [h.last] at hclosed
    obtain ⟨next, hstep, hrest⟩ := runs_cons_iff.1 hruns
    obtain ⟨hnext, hevents, -⟩ := executeEvent_traced h hstep
    obtain ⟨hseq, applied, happly⟩ := executeEvent_seq hstep
    obtain ⟨hprimary, hremove⟩ := applyEvent_type h happly
    have hlater := ih hnext hrest
    rw [hevents, List.length_append] at hlater
    refine ⟨hseq, ?_, ?_, hlater⟩
    · intro hevent
      rw [hclosed, hprimary hevent]
      rfl
    · intro hevent
      rw [hclosed]
      exact decide_eq_false (hremove hevent)

/-- Removals are owed after the first `k` events. -/
def OwesAfter (identity : Identity) (start : Engine) (events : List Json) (k : Nat) : Prop :=
  ∃ before later a, events = before ++ later ∧ before.length = k
    ∧ Runs (executeEvent identity) start before a ∧ a.state.obligations ≠ dash

theorem owesAfter_iff (h : start.Traced) (hnone : start.events = [])
    (hruns : Runs (executeEvent identity) start events e) (k : Nat) :
    OwesAfter identity start events k ↔ e.closedAt k = false := by
  -- the trace was closed after a number of events exactly if nothing is owed by the state there
  have hsplit : ∀ before later a, events = before ++ later →
      Runs (executeEvent identity) start before a →
      e.closedAt before.length = decide (a.state.obligations = dash) := by
    intro before later a hevents hbefore
    rw [hevents] at hruns
    obtain ⟨middle, hmiddle, hlater⟩ := runs_append_iff.1 hruns
    obtain rfl : a = middle := Except.ok.inj (hbefore.symm.trans hmiddle)
    obtain ⟨htraced, htaken, -⟩ := runs_traced h hbefore
    rw [hnone, List.nil_append] at htaken
    have hlast := (runs_traced htraced hlater).2.2 a.events.length le_rfl
    rw [htraced.last, htaken] at hlast
    exact hlast
  constructor
  · rintro ⟨before, later, a, hevents, rfl, hbefore, howes⟩
    rw [hsplit before later a hevents hbefore]
    exact decide_eq_false howes
  · intro hopen
    -- beyond the events the trace reads as closed
    have hk : k ≤ events.length := by
      by_contra hbeyond
      obtain ⟨htraced, hall, -⟩ := runs_traced h hruns
      rw [hnone, List.nil_append] at hall
      have hpast : e.trace.getD k .null = .null := by
        refine List.getD_eq_default _ _ ?_
        rw [htraced.length, hall]
        omega
      unfold closedAt at hopen
      rw [hpast] at hopen
      exact absurd hopen (by decide)
    have hevents : events = events.take k ++ events.drop k := (List.take_append_drop k events).symm
    have hlength : (events.take k).length = k := List.length_take_of_le hk
    have hboth := hruns
    rw [hevents] at hboth
    obtain ⟨a, hbefore, -⟩ := runs_append_iff.1 hboth
    refine ⟨events.take k, events.drop k, a, hevents, hlength, hbefore, fun hdash => ?_⟩
    have hclosed := hsplit _ _ a hevents hbefore
    rw [hlength, hopen, hdash] at hclosed
    exact absurd hclosed (by decide)

/-- A recording that `replay_request` accepts, with the engines at its origin and at its end. -/
structure Replays (identity : Identity) (payload : Json) (start e : Engine) : Prop where
  engine : replayEngine identity payload = .ok e
  recorded : ∃ mstate, payload.get "mstate" = some mstate
    ∧ arrayMember mstate "events" = .ok e.events
  origin : ∃ manifest origin seed claims,
    Engine.new identity manifest origin seed claims = .ok start
  run : Runs (executeEvent identity) start e.events e

variable {payload report : Json}

/-- The projection replays the recording once more. -/
theorem replayEngine_projects (h : replayEngine identity payload = .ok e) :
    (∃ start, Replays identity payload start e)
      ∧ projectLogicalTurns identity payload
        = .ok (turnDocument identity e (e.fragments e.events)) := by
  have hengine := h
  -- the replay and the projection make the same steps, so those of the first are named and used
  -- again
  unfold replayEngine at h
  obtain ⟨mstate, hmstate, h⟩ := Except.bind_ok_iff.1 h
  obtain ⟨value, hvalue, h⟩ := Except.bind_ok_iff.1 h
  obtain ⟨manifest, hmanifest, h⟩ := Except.bind_ok_iff.1 h
  obtain ⟨⟨⟩, hverify, h⟩ := Except.bind_ok_iff.1 h
  obtain ⟨origin, horigin, h⟩ := Except.bind_ok_iff.1 h
  obtain ⟨history, hhistory, h⟩ := Except.bind_ok_iff.1 h
  obtain ⟨⟨⟩, hlimit, h⟩ := Except.bind_ok_iff.1 h
  obtain ⟨preOriginClaims, hclaims, h⟩ := Except.bind_ok_iff.1 h
  obtain ⟨start, hnew, h⟩ := Except.bind_ok_iff.1 h
  obtain ⟨events, hevents, h⟩ := Except.bind_ok_iff.1 h
  obtain ⟨engine, hexecute, h⟩ := Except.bind_ok_iff.1 h
  obtain ⟨current, hcurrent, h⟩ := Except.bind_ok_iff.1 h
  split at h
  · cases h
  rename_i hcheckpoint
  split at h
  · cases h
  rename_i hrepetition
  obtain ⟨claims, haudit, h⟩ := Except.bind_ok_iff.1 h
  split at h
  · cases h
  rename_i hsame
  obtain rfl := Except.ok.inj h
  have hrun := hexecute
  unfold executeEvents at hrun
  obtain ⟨-, -, hrun⟩ := Except.bind_ok_iff.1 hrun
  obtain ⟨htraced, hnone⟩ := new_traced hnew
  have hall : engine.events = events := by
    rw [(runs_traced htraced hrun).2.1, hnone]
    rfl
  have hgot : payload.get "mstate" = some mstate := by
    unfold requireMstate at hmstate
    split at hmstate
    · rename_i found hfound
      rw [hfound, Except.ok.inj hmstate]
    · cases hmstate
  refine ⟨⟨start, hengine, ⟨mstate, hgot, ?_⟩, ⟨_, _, _, _, hnew⟩, ?_⟩, ?_⟩
  · rw [hall]
    exact hevents
  · rw [hall]
    exact hrun
  · have hrequire : requireMstate payload "logical-turn projection requires mstate"
        = .ok mstate := by
      unfold requireMstate
      rw [hgot]
    unfold projectLogicalTurns
    refine Except.bind_ok_iff.2 ⟨mstate, hrequire, Except.bind_ok_iff.2 ⟨value, hvalue, ?_⟩⟩
    refine Except.bind_ok_iff.2 ⟨manifest, hmanifest, Except.bind_ok_iff.2 ⟨(), hverify, ?_⟩⟩
    refine Except.bind_ok_iff.2 ⟨history, hhistory, Except.bind_ok_iff.2 ⟨(), hlimit, ?_⟩⟩
    refine Except.bind_ok_iff.2 ⟨origin, horigin, Except.bind_ok_iff.2 ⟨_, hclaims, ?_⟩⟩
    refine Except.bind_ok_iff.2 ⟨start, hnew, Except.bind_ok_iff.2 ⟨events, hevents, ?_⟩⟩
    refine Except.bind_ok_iff.2 ⟨engine, hexecute, Except.bind_ok_iff.2 ⟨current, hcurrent, ?_⟩⟩
    dsimp only
    rw [if_neg (not_or.2 ⟨hcheckpoint, hrepetition⟩)]
    refine Except.bind_ok_iff.2 ⟨claims, haudit, ?_⟩
    rw [if_neg hsame, hall]

theorem Replays.attach_iff (h : Replays identity payload start e) :
    AttachesEvents (OwesAfter identity start e.events) e.events (e.fragments e.events)
      ↔ e.events.IsChain Follows := by
  obtain ⟨manifest, origin, seed, claims, hnew⟩ := h.origin
  obtain ⟨htraced, hnone⟩ := new_traced hnew
  have howes : OwesAfter identity start e.events = fun k => e.closedAt k = false :=
    funext fun k => propext (owesAfter_iff htraced hnone h.run k)
  have hlegal := runs_legalFrom htraced h.run
  rw [hnone] at hlegal
  rw [howes]
  exact fragments_attach_iff hlegal

/-- The projection attaches the events of a recording to their turns exactly when no removal comes
behind an event that is no place, move or removal. -/
theorem projectLogicalTurns_attaches_iff (haccepted : replayRequest identity payload = .ok report) :
    ∃ start e, Replays identity payload start e
      ∧ projectLogicalTurns identity payload = .ok (turnDocument identity e (e.fragments e.events))
      ∧ (AttachesEvents (OwesAfter identity start e.events) e.events (e.fragments e.events)
        ↔ e.events.IsChain Follows) := by
  unfold replayRequest at haccepted
  obtain ⟨e, hengine, -⟩ := Except.bind_ok_iff.1 haccepted
  obtain ⟨⟨start, hreplays⟩, hproject⟩ := replayEngine_projects hengine
  exact ⟨start, e, hreplays, hproject, hreplays.attach_iff⟩

/-! ## Two recordings -/

/-- The digests of the documents that occur below. -/
def turnDigest (document : Json) : Text :=
  if (document.get "origin").isSome then
    if ((document.get "events").bind Json.asArray).any fun events => events.length = 2 then
      "sha256:e223f377a7ae147308b7d44112e86c150279fb1c1a960dd05a14afa340e3740b".toList
    else "sha256:30fbcd4a73451fee28645473a6dab78c902ca5236e017a8921514772acc2ac52".toList
  else if document.get "profile" = some (.ofString "resumption-state-v1") then
    if (document.get "lastEventSeq").bind Json.asU64 = some 2 then
      "sha256:c480136e5988dcf8488c56a0282532dc9cc03325cf0cfa9e60c2815059bc2079".toList
    else "sha256:c388c81a9ca0b730982de5a7c8a60779f1f4cd7902158bd4a2b1f31c1777f2c9".toList
  else if document.get "obligations" ≠ some (.ofString "-")
    ∧ document.get "openOffer" = some .null then
    "sha256:581780a647d743bd3f66bc7cafe4fb916a2d73468ac23727c96ab9dd899c1b53".toList
  else sampleDigest document

def turnIdentity : Identity := { sampleIdentity with digestJson := turnDigest }

def sampleMove : Json := sampleEvent 1 "w" "move" [("from", .ofString "g4"), ("to", .ofString "g7")]

def sampleRemove (seq : Nat) : Json :=
  sampleEvent seq "w" "remove" [("target",
    .ofMembers [("zone", .ofString "board"), ("at", .ofString "b6")])]

def samplePayload (events claims : List Json) : Json :=
  .ofMembers [("manifest", sampleManifest), ("mstate", .ofMembers [
    ("ruleset", .ofMembers [("mode", .ofString "reference"), ("id", .ofString "example-morris"),
      ("version", .int 1), ("semanticDigest", .ofString
        "sha256:9a6c8eea359973019f1da00ef2abd88ec595aece8a7c63cf33e89a675aec683b")]),
    ("origin", .str sampleOrigin), ("repetitionHistory", .arr []), ("preOriginClaims", .arr []),
    ("events", .arr events), ("claims", .arr claims),
    ("current", .ofString
      "MFEN/1.0 mill24-state-v1 WWW...../..B.B.../........ - o o 0,0 - 0 1 w:fewer-than-minimum")])]

/-- White closes a mill and removes a piece. -/
def plainTurn : Json := samplePayload [sampleMove, sampleRemove 2] []

/-- In between, White offers a draw. -/
def offerTurn : Json :=
  samplePayload [sampleMove, sampleEvent 2 "w" "offer-draw" [], sampleRemove 3]
    [.ofMembers [("actor", .ofString "w"), ("eventSeq", .int 2), ("kind", .ofString "draw-offer"),
      ("source", .ofString "event"), ("status", .ofString "open")]]

theorem Replays.events_eq (h : Replays identity payload start e) (events : List Json)
    (hevents : (payload.get "mstate").map (arrayMember · "events") = some (.ok events)) :
    e.events = events := by
  obtain ⟨mstate, hmstate, hrecorded⟩ := h.recorded
  rw [hmstate, Option.map_some, hrecorded] at hevents
  exact Except.ok.inj (Option.some.inj hevents)

theorem projectLogicalTurns_attaches_plain :
    ∃ start e, Replays turnIdentity plainTurn start e
      ∧ projectLogicalTurns turnIdentity plainTurn
        = .ok (turnDocument turnIdentity e (e.fragments e.events))
      ∧ AttachesEvents (OwesAfter turnIdentity start e.events) e.events (e.fragments e.events) := by
  have haccepted : (replayRequest turnIdentity plainTurn).toBool = true := by decide +kernel
  cases hreport : replayRequest turnIdentity plainTurn with
  | error diagnostic =>
    rw [hreport] at haccepted
    cases haccepted
  | ok report =>
    obtain ⟨start, e, hreplays, hproject, hattach⟩ := projectLogicalTurns_attaches_iff hreport
    refine ⟨start, e, hreplays, hproject, hattach.2 ?_⟩
    rw [hreplays.events_eq [sampleMove, sampleRemove 2] (by decide +kernel)]
    refine List.isChain_cons_cons.2 ⟨fun _ => ?_, .singleton _⟩
    decide +kernel

/-- The removal behind the offer is in no fragment. -/
theorem projectLogicalTurns_loses_removal :
    ¬∀ (payload report : Json) (start e : Engine), replayRequest turnIdentity payload = .ok report →
      Replays turnIdentity payload start e →
      AttachesEvents (OwesAfter turnIdentity start e.events) e.events (e.fragments e.events) := by
  intro hclaim
  have haccepted : (replayRequest turnIdentity offerTurn).toBool = true := by decide +kernel
  cases hreport : replayRequest turnIdentity offerTurn with
  | error diagnostic =>
    rw [hreport] at haccepted
    cases haccepted
  | ok report =>
    have hengine := hreport
    unfold replayRequest at hengine
    obtain ⟨e, hengine, -⟩ := Except.bind_ok_iff.1 hengine
    obtain ⟨⟨start, hreplays⟩, -⟩ := replayEngine_projects hengine
    have hchain := hreplays.attach_iff.1 (hclaim offerTurn report start e hreport hreplays)
    rw [hreplays.events_eq [sampleMove, sampleEvent 2 "w" "offer-draw" [], sampleRemove 3]
      (by decide +kernel)] at hchain
    have hfollows := (List.isChain_cons_cons.1 (List.isChain_cons_cons.1 hchain).2).1
    have haction := hfollows (by decide +kernel)
    exact absurd haction (by decide +kernel)

end Engine

end Sanmill.Mif
