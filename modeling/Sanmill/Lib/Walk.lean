import Mathlib.Data.List.Nodup
import Sanmill.Lib.Fallible

/-!
# Walks of bounded length

A walk offers moves in each of its states and stops in some of them. `explore` lists
the complete walks from a state, depth first; it fails at a state that offers nothing,
and beyond a bound on the number of moves. It succeeds exactly when no open walk is
stuck or reaches the bound, and then it lists each complete walk once.
-/

namespace Sanmill

/-- A loop that appends what each round yields collects the rounds in order. -/
theorem Except.foldlM_append {ε α β : Type} (f : α → Except ε (List β)) (xs : List α)
    (acc : List β) :
    xs.foldlM (fun found x => (f x).map (found ++ ·)) acc
      = (xs.mapM f).map fun pieces => acc ++ pieces.flatten := by
  induction xs generalizing acc with
  | nil =>
    rw [List.foldlM_nil, List.mapM_nil]
    show (Except.ok acc : Except ε (List β)) = Except.ok (acc ++ [].flatten)
    simp
  | cons x rest ih =>
    rw [List.foldlM_cons, List.mapM_cons]
    cases hx : f x with
    | error e => rfl
    | ok piece =>
      show rest.foldlM _ (acc ++ piece) = _
      rw [ih]
      cases hrest : rest.mapM f with
      | error e => rfl
      | ok pieces =>
        show Except.ok _ = Except.ok _
        simp

theorem Except.map_eq_ok_iff {ε α β : Type} {x : Except ε α} {f : α → β} {b : β} :
    x.map f = .ok b ↔ ∃ a, x = .ok a ∧ f a = b := by
  cases x with
  | error e =>
    constructor
    · intro h
      cases h
    · rintro ⟨a, ha, -⟩
      cases ha
  | ok a =>
    constructor
    · intro h
      exact ⟨a, rfl, Except.ok.inj h⟩
    · rintro ⟨a', ha, h⟩
      cases ha
      rw [← h]
      rfl

/-- What is done to each result may be done at the end. -/
theorem Except.mapM_map {ε α β γ : Type} (f : α → Except ε β) (k : β → γ) (xs : List α) :
    (xs.mapM fun x => (f x).map k) = (xs.mapM f).map (List.map k) := by
  induction xs with
  | nil => rfl
  | cons x rest ih =>
    rw [List.mapM_cons, List.mapM_cons, ih]
    cases f x with
    | error e => rfl
    | ok y =>
      cases rest.mapM f with
      | error e => rfl
      | ok ys => rfl

/-! ## Lists of pieces -/

section Pieces

variable {α β κ : Type} {xs : List α} {pieces : List (List β)}

/-- Related pieces exist when each element has one. -/
theorem exists_forall₂_iff {R : α → β → Prop} :
    (∃ ys, List.Forall₂ R xs ys) ↔ ∀ x ∈ xs, ∃ y, R x y := by
  induction xs with
  | nil => exact ⟨fun _ x hx => absurd hx List.not_mem_nil, fun _ => ⟨[], .nil⟩⟩
  | cons x rest ih =>
    rw [List.forall_mem_cons, ← ih]
    constructor
    · intro h
      obtain ⟨ys, hys⟩ := h
      obtain ⟨y, tail, hy, htail, -⟩ := List.forall₂_cons_left_iff.1 hys
      exact ⟨⟨y, hy⟩, tail, htail⟩
    · intro h
      obtain ⟨⟨y, hy⟩, tail, htail⟩ := h
      exact ⟨y :: tail, .cons hy htail⟩

/-- Each element is related to one of the others. -/
theorem exists_mem_of_forall₂ {ys : List β} {R : α → β → Prop} (h : List.Forall₂ R xs ys) :
    ∀ x ∈ xs, ∃ y ∈ ys, R x y := by
  induction h with
  | nil =>
    intro x hx
    cases hx
  | @cons first y rest later hfirst _ ih =>
    intro x hx
    rcases List.mem_cons.1 hx with rfl | hx
    · exact ⟨y, List.mem_cons_self, hfirst⟩
    · obtain ⟨y', hy', hrel⟩ := ih x hx
      exact ⟨y', List.mem_cons_of_mem _ hy', hrel⟩

/-- What is in the joined pieces, from what is in each. -/
theorem mem_flatten_iff_of_forall₂ {P : α → β → Prop}
    (h : List.Forall₂ (fun x piece => ∀ y, y ∈ piece ↔ P x y) xs pieces) (y : β) :
    y ∈ pieces.flatten ↔ ∃ x ∈ xs, P x y := by
  induction h with
  | nil => simp
  | cons hpiece _ ih => rw [List.flatten_cons, List.mem_append, hpiece, ih,
    List.exists_mem_cons_iff]

/-- Pieces without repetitions, told apart by their source, join without one. -/
theorem nodup_flatten_of_forall₂ {source : β → Option α}
    (h : List.Forall₂ (fun x piece => piece.Nodup ∧ ∀ y ∈ piece, source y = some x) xs pieces)
    (hxs : xs.Nodup) : pieces.flatten.Nodup := by
  induction h with
  | nil => exact List.nodup_nil
  | @cons x piece xs pieces hpiece hrest ih =>
    obtain ⟨hx, hxs⟩ := List.nodup_cons.1 hxs
    rw [List.flatten_cons]
    refine List.Nodup.append hpiece.1 (ih hxs) ?_
    intro y hy hlater
    -- a later piece has another source
    have hsource := hrest.imp (fun x' piece' h' => h'.2)
    obtain ⟨later, hlater, hmem⟩ := List.mem_flatten.1 hlater
    obtain ⟨i, hi, rfl⟩ := List.getElem_of_mem hlater
    have hlen := hrest.length_eq
    have hfrom := (List.Forall₂.get hsource (by omega) hi) y hmem
    rw [hpiece.2 y hy] at hfrom
    apply hx
    rw [Option.some.inj hfrom]
    exact List.get_mem _ _

end Pieces

/-- Moves between states, with the states at which a walk ends. -/
structure Walk (S A : Type) where
  moves : S → List A
  next : S → A → S
  stops : S → Bool

namespace Walk

variable {S A ε : Type} {w : Walk S A} {s t : S} {a : A} {as : List A} {stuck tooLong : ε} {n : Nat}

/-- A walk that has not stopped. -/
inductive Open (w : Walk S A) : S → List A → S → Prop
  | nil {s : S} (h : w.stops s = false) : Open w s [] s
  | cons {s t : S} {a : A} {as : List A} (h : w.stops s = false) (ha : a ∈ w.moves s)
      (rest : Open w (w.next s a) as t) : Open w s (a :: as) t

/-- A walk that stops at its end and nowhere earlier. -/
inductive Complete (w : Walk S A) : S → List A → S → Prop
  | nil {s : S} (h : w.stops s = true) : Complete w s [] s
  | cons {s t : S} {a : A} {as : List A} (h : w.stops s = false) (ha : a ∈ w.moves s)
      (rest : Complete w (w.next s a) as t) : Complete w s (a :: as) t

/-- The complete walks of fewer than `n` moves; an error if there are longer or stuck ones. -/
def explore (w : Walk S A) (stuck tooLong : ε) : Nat → S → Except ε (List (List A × S))
  | 0, _ => .error tooLong
  | n + 1, s =>
    if w.stops s then .ok [([], s)]
    else if (w.moves s).isEmpty then .error stuck
    else
      ((w.moves s).mapM fun a =>
        (explore w stuck tooLong n (w.next s a)).map fun tails =>
          tails.map fun tail => (a :: tail.1, tail.2)).map List.flatten

theorem complete_cons_iff : w.Complete s (a :: as) t
    ↔ w.stops s = false ∧ a ∈ w.moves s ∧ w.Complete (w.next s a) as t := by
  constructor
  · intro h
    cases h with
    | cons hs ha rest => exact ⟨hs, ha, rest⟩
  · intro h
    exact .cons h.1 h.2.1 h.2.2

/-- A complete walk ends where the walk stops. -/
theorem Complete.stops (h : w.Complete s as t) : w.stops t = true := by
  induction h with
  | nil hs => exact hs
  | cons _ _ _ ih => exact ih

/-- A state that stops is left by no walk. -/
theorem Complete.of_stops (hs : w.stops s = true) : w.Complete s as t ↔ as = [] ∧ t = s := by
  constructor
  · intro h
    cases h with
    | nil => exact ⟨rfl, rfl⟩
    | cons hopen => rw [hs] at hopen; cases hopen
  · intro h
    rw [h.1, h.2]
    exact .nil hs

/-- The end of the open walk along the given moves. -/
def follow [BEq A] (w : Walk S A) : S → List A → Option S
  | s, [] => if w.stops s then none else some s
  | s, a :: as =>
    if w.stops s || !(w.moves s).contains a then none else follow w (w.next s a) as

theorem Open.of_follow [BEq A] [LawfulBEq A] (h : w.follow s as = some t) : w.Open s as t := by
  induction as generalizing s with
  | nil =>
    unfold follow at h
    by_cases hs : w.stops s = true
    · rw [if_pos hs] at h
      cases h
    · rw [if_neg hs] at h
      cases h
      exact .nil (Bool.eq_false_iff.2 hs)
  | cons a as ih =>
    unfold follow at h
    by_cases hs : (w.stops s || !(w.moves s).contains a) = true
    · rw [if_pos hs] at h
      cases h
    · rw [if_neg hs] at h
      rw [Bool.not_eq_true, Bool.or_eq_false_iff, Bool.not_eq_false', List.contains_iff_mem] at hs
      exact .cons hs.1 hs.2 (ih h)

/-! ## What the exploration lists -/

/-- The walks found behind one move. -/
def Behind (w : Walk S A) (stuck tooLong : ε) (n : Nat) (s : S) (a : A)
    (piece : List (List A × S)) : Prop :=
  ∃ tails, w.explore stuck tooLong n (w.next s a) = .ok tails
    ∧ piece = tails.map fun tail => (a :: tail.1, tail.2)

theorem explore_succ_eq_ok {found : List (List A × S)} :
    w.explore stuck tooLong (n + 1) s = .ok found
      ↔ (w.stops s = true ∧ found = [([], s)])
        ∨ (w.stops s = false ∧ w.moves s ≠ [] ∧ ∃ pieces,
          List.Forall₂ (w.Behind stuck tooLong n s) (w.moves s) pieces
            ∧ found = pieces.flatten) := by
  unfold explore
  cases hs : w.stops s with
  | true =>
    simp only [if_true, true_and, Bool.true_eq_false, false_and, or_false]
    constructor
    · intro h
      exact (Except.ok.inj h).symm
    · intro h
      rw [h]
  | false =>
    simp only [Bool.false_eq_true, if_false, false_and, false_or, true_and, List.isEmpty_iff]
    by_cases hmoves : w.moves s = []
    · rw [if_pos hmoves]
      -- no moves: the exploration reports that it is stuck
      constructor
      · intro h
        cases h
      · intro h
        exact absurd hmoves h.1
    · rw [if_neg hmoves, Except.map_eq_ok_iff]
      constructor
      · rintro ⟨pieces, hpieces, hfound⟩
        refine ⟨hmoves, pieces, (Except.mapM_eq_ok_iff.1 hpieces).imp ?_, hfound.symm⟩
        intro a piece hpiece
        obtain ⟨tails, htails, heq⟩ := Except.map_eq_ok_iff.1 hpiece
        exact ⟨tails, htails, heq.symm⟩
      · rintro ⟨-, pieces, hpieces, hfound⟩
        refine ⟨pieces, Except.mapM_eq_ok_iff.2 (hpieces.imp ?_), hfound.symm⟩
        intro a piece hpiece
        obtain ⟨tails, htails, heq⟩ := hpiece
        exact Except.map_eq_ok_iff.2 ⟨tails, htails, heq.symm⟩

/-- **Whatever the exploration lists are the complete walks.** -/
theorem mem_explore {found : List (List A × S)} (h : w.explore stuck tooLong n s = .ok found)
    (as : List A) (t : S) : (as, t) ∈ found ↔ w.Complete s as t := by
  induction n generalizing s found as t with
  | zero => cases h
  | succ n ih =>
    rcases explore_succ_eq_ok.1 h with ⟨hs, rfl⟩ | ⟨hs, -, pieces, hpieces, rfl⟩
    · rw [Complete.of_stops hs, List.mem_singleton, Prod.mk.injEq]
    · have hmem := mem_flatten_iff_of_forall₂
        (P := fun a walk => ∃ as, walk.1 = a :: as ∧ w.Complete (w.next s a) as walk.2)
        (hpieces.imp fun a piece hpiece => ?_) (as, t)
      -- a walk that does not stop here has a first move, and the piece of that move holds the rest
      · rw [hmem]
        constructor
        · intro hfound
          obtain ⟨a, ha, as', has, hrest⟩ := hfound
          rw [show as = a :: as' from has]
          exact .cons hs ha hrest
        · intro hwalk
          cases hwalk with
          | nil hstop => rw [hs] at hstop; cases hstop
          | cons _ ha hrest => exact ⟨_, ha, _, rfl, hrest⟩
      · obtain ⟨tails, htails, rfl⟩ := hpiece
        intro walk
        rw [List.mem_map]
        constructor
        · intro hwalk
          obtain ⟨⟨as', t'⟩, htail, rfl⟩ := hwalk
          exact ⟨as', rfl, (ih htails as' t').1 htail⟩
        · intro hwalk
          obtain ⟨as', has, hrest⟩ := hwalk
          exact ⟨(as', walk.2), (ih htails as' walk.2).2 hrest, by rw [← has]⟩

/-- **No walk is listed twice**, where no state offers a move twice. -/
theorem nodup_explore {I : S → Prop}
    (hstep : ∀ s a, I s → w.stops s = false → a ∈ w.moves s → I (w.next s a))
    (hmoves : ∀ s, I s → (w.moves s).Nodup) (hs : I s) {found : List (List A × S)}
    (h : w.explore stuck tooLong n s = .ok found) : (found.map Prod.fst).Nodup := by
  induction n generalizing s found with
  | zero => cases h
  | succ n ih =>
    rcases explore_succ_eq_ok.1 h with ⟨-, rfl⟩ | ⟨hopen, -, pieces, hpieces, rfl⟩
    · exact List.nodup_singleton _
    · rw [List.map_flatten]
      refine @nodup_flatten_of_forall₂ _ _ (w.moves s) _ List.head? ?_ (hmoves s hs)
      rw [List.forall₂_map_right_iff]
      refine ((List.forall₂_and_left _ _).2 ⟨fun a ha => ha, hpieces⟩).imp ?_
      intro a piece hpiece
      obtain ⟨ha, tails, htails, rfl⟩ := hpiece
      have htail := ih (hstep s a hs hopen ha) htails
      constructor
      · have hcons : (tails.map fun tail => (a :: tail.1, tail.2)).map Prod.fst
            = (tails.map Prod.fst).map (a :: ·) := by
          rw [List.map_map, List.map_map]
          rfl
        rw [hcons]
        exact htail.map (List.cons_injective)
      · intro as has
        obtain ⟨walk, hwalk, rfl⟩ := List.mem_map.1 has
        obtain ⟨tail, -, rfl⟩ := List.mem_map.1 hwalk
        rfl

/-- **The exploration succeeds exactly when no open walk is stuck or reaches the bound.** -/
theorem explore_ok_iff : (∃ found, w.explore stuck tooLong (n + 1) s = .ok found)
    ↔ ∀ as t, w.Open s as t → w.moves t ≠ [] ∧ as.length < n := by
  induction n generalizing s with
  | zero =>
    cases hs : w.stops s with
    | true =>
      refine ⟨fun _ as t hwalk => ?_, fun _ => ⟨_, explore_succ_eq_ok.2 (.inl ⟨hs, rfl⟩)⟩⟩
      cases hwalk with
      | nil hopen => rw [hs] at hopen; cases hopen
      | cons hopen => rw [hs] at hopen; cases hopen
    | false =>
      constructor
      · intro h
        obtain ⟨found, hfound⟩ := h
        rcases explore_succ_eq_ok.1 hfound with ⟨hstop, -⟩ | ⟨-, hmoves, pieces, hpieces, -⟩
        · rw [hs] at hstop
          cases hstop
        · -- the bound leaves no room for a first move
          obtain ⟨a, ha⟩ := List.exists_mem_of_ne_nil _ hmoves
          obtain ⟨piece, tails, htails, -⟩ := exists_forall₂_iff.1 ⟨pieces, hpieces⟩ a ha
          cases htails
      · intro h
        exact absurd (h [] s (.nil hs)).2 (Nat.not_lt_zero _)
  | succ n ih =>
    cases hs : w.stops s with
    | true =>
      refine ⟨fun _ as t hwalk => ?_, fun _ => ⟨_, explore_succ_eq_ok.2 (.inl ⟨hs, rfl⟩)⟩⟩
      cases hwalk with
      | nil hopen => rw [hs] at hopen; cases hopen
      | cons hopen => rw [hs] at hopen; cases hopen
    | false =>
      constructor
      · intro h
        obtain ⟨found, hfound⟩ := h
        rcases explore_succ_eq_ok.1 hfound with ⟨hstop, -⟩ | ⟨-, hmoves, pieces, hpieces, -⟩
        · rw [hs] at hstop
          cases hstop
        · intro as t hwalk
          cases hwalk with
          | nil => exact ⟨hmoves, Nat.succ_pos n⟩
          | cons _ ha hrest =>
            obtain ⟨piece, tails, htails, -⟩ := exists_forall₂_iff.1 ⟨pieces, hpieces⟩ _ ha
            have hlater := ih.1 ⟨tails, htails⟩ _ _ hrest
            exact ⟨hlater.1, Nat.succ_lt_succ hlater.2⟩
      · intro h
        have hpieces : ∃ pieces,
            List.Forall₂ (w.Behind stuck tooLong (n + 1) s) (w.moves s) pieces := by
          rw [exists_forall₂_iff]
          intro a ha
          obtain ⟨tails, htails⟩ := ih.2 fun as t hrest => by
            have hlater := h (a :: as) t (.cons hs ha hrest)
            exact ⟨hlater.1, Nat.lt_of_succ_lt_succ hlater.2⟩
          exact ⟨_, tails, htails, rfl⟩
        obtain ⟨pieces, hpieces⟩ := hpieces
        exact ⟨_, explore_succ_eq_ok.2 (.inr ⟨hs, (h [] s (.nil hs)).1, pieces, hpieces, rfl⟩)⟩

end Walk

end Sanmill
