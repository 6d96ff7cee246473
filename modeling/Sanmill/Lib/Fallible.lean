import Mathlib.Data.List.Forall2

/-!
# Steps that may fail

A sequenced computation succeeds when its parts do. A run of a step that may fail goes
on as long as the steps are accepted; what every accepted step keeps, a run keeps.
-/

namespace Sanmill

/-- How a call ends without a value: it returns an error, or it panics. -/
inductive Fault (ε : Type) where
  | error (e : ε)
  | panic
deriving DecidableEq

variable {α β : Type}

/-- A sequenced parser succeeds when both parts do. -/
theorem Except.bind_ok_iff {ε : Type} {x : Except ε α} {f : α → Except ε β} {b : β} :
    (x >>= f) = .ok b ↔ ∃ a, x = .ok a ∧ f a = .ok b := by
  cases x with
  | error e =>
    constructor
    · intro h
      cases h
    · rintro ⟨a, ha, -⟩
      cases ha
  | ok a =>
    constructor
    · intro h
      exact ⟨a, rfl, h⟩
    · rintro ⟨a', ha, h⟩
      cases ha
      exact h

/-- A loop over a list that may fail ends well when every round does. -/
theorem Except.mapM_eq_ok_iff {ε : Type} {f : α → Except ε β} {xs : List α} {ys : List β} :
    xs.mapM f = .ok ys ↔ List.Forall₂ (fun x y => f x = .ok y) xs ys := by
  induction xs generalizing ys with
  | nil =>
    rw [List.mapM_nil, List.forall₂_nil_left_iff]
    constructor
    · intro h
      exact (Except.ok.inj h).symm
    · rintro rfl
      rfl
  | cons x rest ih =>
    rw [List.mapM_cons, Except.bind_ok_iff, List.forall₂_cons_left_iff]
    constructor
    · rintro ⟨y, hy, hrest⟩
      obtain ⟨tail, htail, heq⟩ := Except.bind_ok_iff.1 hrest
      exact ⟨y, tail, hy, ih.1 htail, (Except.ok.inj heq).symm⟩
    · rintro ⟨y, tail, hy, htail, rfl⟩
      exact ⟨y, hy, Except.bind_ok_iff.2 ⟨tail, ih.2 htail, rfl⟩⟩

/-- And badly where some round does. -/
theorem Except.mapM_eq_error {ε : Type} {f : α → Except ε β} {xs : List α} {e : ε}
    (h : xs.mapM f = .error e) : ∃ x ∈ xs, f x = .error e := by
  induction xs with
  | nil => cases h
  | cons x rest ih =>
    rw [List.mapM_cons] at h
    cases hx : f x with
    | error e' =>
      rw [hx] at h
      obtain rfl := Except.error.inj h
      exact ⟨x, List.mem_cons_self, hx⟩
    | ok y =>
      rw [hx] at h
      cases hrest : rest.mapM f with
      | error e' =>
        obtain ⟨x', hx', hfail⟩ := ih (by
          rw [hrest] at h ⊢
          exact h)
        exact ⟨x', List.mem_cons_of_mem _ hx', hfail⟩
      | ok tail =>
        rw [hrest] at h
        cases h

namespace Fallible

variable {σ ε δ : Type} {step : σ → ε → Except δ σ} {P Q : σ → ε → σ → Prop} {I : σ → Prop}
  {s t : σ} {events : List ε}

/-- The steps of the events are all accepted, and lead from `s` to `t`. -/
def Runs (step : σ → ε → Except δ σ) (s : σ) (events : List ε) (t : σ) : Prop :=
  events.foldlM step s = .ok t

/-- Each accepted step of a run, with the states before and after it, meets `P`. -/
def EachStep (step : σ → ε → Except δ σ) (P : σ → ε → σ → Prop) : σ → List ε → Prop
  | _, [] => True
  | s, e :: rest => ∀ t, step s e = .ok t → P s e t ∧ EachStep step P t rest

theorem runs_nil_iff : Runs step s [] t ↔ s = t := by
  unfold Runs
  rw [List.foldlM_nil]
  constructor
  · intro h
    exact Except.ok.inj h
  · rintro rfl
    rfl

theorem runs_cons_iff {e : ε} {rest : List ε} :
    Runs step s (e :: rest) t ↔ ∃ m, step s e = .ok m ∧ Runs step m rest t := by
  unfold Runs
  rw [List.foldlM_cons]
  exact Except.bind_ok_iff

theorem runs_append_iff {xs ys : List ε} :
    Runs step s (xs ++ ys) t ↔ ∃ m, Runs step s xs m ∧ Runs step m ys t := by
  unfold Runs
  rw [List.foldlM_append]
  exact Except.bind_ok_iff

theorem EachStep.of_forall (h : ∀ e ∈ events, ∀ s t, P s e t) : EachStep step P s events := by
  induction events generalizing s with
  | nil => trivial
  | cons e rest ih =>
    intro t _
    exact ⟨h e List.mem_cons_self s t, ih fun later hmem => h later (List.mem_cons_of_mem _ hmem)⟩

theorem EachStep.append {xs ys : List ε} {m : σ} (h : EachStep step P s (xs ++ ys))
    (hruns : Runs step s xs m) : EachStep step P m ys := by
  induction xs generalizing s with
  | nil =>
    obtain rfl := runs_nil_iff.1 hruns
    exact h
  | cons e rest ih =>
    obtain ⟨t, hstep, hrest⟩ := runs_cons_iff.1 hruns
    exact ih (h t hstep).2 hrest

/-- Two properties that agree on the accepted steps from states with the invariant. -/
theorem eachStep_congr (hkeep : ∀ s e t, I s → step s e = .ok t → I t)
    (hiff : ∀ s e t, I s → step s e = .ok t → (P s e t ↔ Q s e t)) (hinit : I s) :
    EachStep step P s events ↔ EachStep step Q s events := by
  induction events generalizing s with
  | nil => exact Iff.rfl
  | cons e rest ih =>
    refine forall_congr' fun t => forall_congr' fun hstep => ?_
    exact and_congr (hiff s e t hinit hstep) (ih (hkeep s e t hinit hstep))

end Fallible

end Sanmill
