import Mathlib.Data.List.Basic

/-!
# Runs of a step function

A system is a function from a state and an event to the next state; a run is a list of
events. What every step keeps, every run keeps, also when only the steps that meet a
condition keep it and all steps of the run meet it.
-/

namespace Sanmill.Run

variable {σ ε : Type*} {step : σ → ε → σ}

/-- The state in which the events leave the system. -/
def last (step : σ → ε → σ) (s : σ) (events : List ε) : σ := events.foldl step s

/-- Each step of the run is taken in a state, and with an event, that meets `P`. -/
def Every (step : σ → ε → σ) (P : σ → ε → Prop) : σ → List ε → Prop
  | _, [] => True
  | s, e :: rest => P s e ∧ Every step P (step s e) rest

instance decidableEvery {P : σ → ε → Prop} [∀ s e, Decidable (P s e)] : (events : List ε) →
    (s : σ) → Decidable (Every step P s events)
  | [], _ => .isTrue trivial
  | e :: rest, s =>
    have := decidableEvery (P := P) rest (step s e)
    inferInstanceAs (Decidable (P s e ∧ Every step P (step s e) rest))

@[simp] theorem last_nil (s : σ) : last step s [] = s := rfl

@[simp] theorem last_cons (s : σ) (e : ε) (rest : List ε) :
    last step s (e :: rest) = last step (step s e) rest := rfl

theorem last_append (s : σ) (xs ys : List ε) :
    last step s (xs ++ ys) = last step (last step s xs) ys := List.foldl_append

theorem every_append {P : σ → ε → Prop} {s : σ} {xs ys : List ε} :
    Every step P s (xs ++ ys) ↔ Every step P s xs ∧ Every step P (last step s xs) ys := by
  induction xs generalizing s with
  | nil => simp [Every]
  | cons e rest ih => simp only [List.cons_append, Every, last_cons, ih, and_assoc]

theorem Every.mono {P Q : σ → ε → Prop} (himp : ∀ s e, P s e → Q s e) {s : σ} {events : List ε}
    (h : Every step P s events) : Every step Q s events := by
  induction events generalizing s with
  | nil => trivial
  | cons e rest ih => exact ⟨himp _ _ h.1, ih h.2⟩

/-- What holds of every step holds of every run. -/
theorem every_of_forall {P : σ → ε → Prop} (h : ∀ s e, P s e) (s : σ) (events : List ε) :
    Every step P s events := by
  induction events generalizing s with
  | nil => trivial
  | cons e rest ih => exact ⟨h s e, ih _⟩

/-- An invariant of the steps that meet `C` holds after a run of such steps. -/
theorem invariant {I : σ → Prop} {C : σ → ε → Prop}
    (hstep : ∀ s e, I s → C s e → I (step s e)) {s : σ} {events : List ε} (hinit : I s)
    (h : Every step C s events) : I (last step s events) := by
  induction events generalizing s with
  | nil => exact hinit
  | cons e rest ih => exact ih (hstep s e hinit h.1) h.2

/-- The steps of such a run start in states with the invariant. -/
theorem Every.withInvariant {I : σ → Prop} {C : σ → ε → Prop}
    (hstep : ∀ s e, I s → C s e → I (step s e)) {s : σ} {events : List ε} (hinit : I s)
    (h : Every step C s events) : Every step (fun s e => I s ∧ C s e) s events := by
  induction events generalizing s with
  | nil => trivial
  | cons e rest ih => exact ⟨⟨hinit, h.1⟩, ih (hstep s e hinit h.1) h.2⟩

/-- Two conditions that agree on the steps from states with an invariant that they keep. -/
theorem every_congr {I : σ → Prop} {P C : σ → ε → Prop}
    (hkeep : ∀ s e, I s → C s e → I (step s e)) (hiff : ∀ s e, I s → (P s e ↔ C s e)) {s : σ}
    {events : List ε} (hinit : I s) : Every step P s events ↔ Every step C s events := by
  induction events generalizing s with
  | nil => exact Iff.rfl
  | cons e rest ih =>
    constructor
    · rintro ⟨hp, hrest⟩
      have hc := (hiff s e hinit).1 hp
      exact ⟨hc, (ih (hkeep s e hinit hc)).1 hrest⟩
    · rintro ⟨hc, hrest⟩
      exact ⟨(hiff s e hinit).2 hc, (ih (hkeep s e hinit hc)).2 hrest⟩

/-- A preorder along which every step goes relates the ends of a run. -/
theorem related {R : σ → σ → Prop} {C : σ → ε → Prop} (hrefl : ∀ s, R s s)
    (htrans : ∀ a b c, R a b → R b c → R a c) (hstep : ∀ s e, C s e → R s (step s e)) {s : σ}
    {events : List ε} (h : Every step C s events) : R s (last step s events) := by
  induction events generalizing s with
  | nil => exact hrefl s
  | cons e rest ih => exact htrans _ _ _ (hstep s e h.1) (ih h.2)

/-- A run is no longer than the rank of its first state allows: each step from a state with
the invariant lowers the rank, save perhaps the one into a state with no step left. -/
theorem Every.length_le {I : σ → Prop} {C : σ → ε → Prop} {rank : σ → Nat}
    (hkeep : ∀ s e, I s → C s e → I (step s e))
    (hrank : ∀ s e e', I s → C s e → C (step s e) e' → rank (step s e) < rank s) {s : σ}
    {events : List ε} (hinit : I s) (h : Every step C s events) :
    events.length ≤ rank s + 1 := by
  induction events generalizing s with
  | nil => exact Nat.zero_le _
  | cons e rest ih =>
    cases rest with
    | nil => exact Nat.succ_le_succ (Nat.zero_le _)
    | cons e' rest =>
      have hlower := hrank s e e' hinit h.1 h.2.1
      have hrest := ih (hkeep s e hinit h.1) h.2
      simp only [List.length_cons] at hrest ⊢
      omega

/-! ## Two systems -/

variable {σ' ε' : Type*} {step' : σ' → ε' → σ'} {R : σ → σ' → Prop} {C : σ → ε → Prop}
  {C' : σ' → ε' → Prop} {f : ε → ε'}

/-- A system follows another one along a run when it can answer each step. -/
theorem Every.followed (hstep : ∀ s s' e, R s s' → C s e → C' s' (f e)
    ∧ R (step s e) (step' s' (f e)))
    {s : σ} {s' : σ'} {events : List ε} (h : R s s') (hrun : Every step C s events) :
    Every step' C' s' (events.map f) ∧ R (last step s events) (last step' s' (events.map f)) := by
  induction events generalizing s s' with
  | nil => exact ⟨trivial, h⟩
  | cons e rest ih =>
    obtain ⟨hallowed, hnext⟩ := hstep s s' e h hrun.1
    obtain ⟨hrest, hlast⟩ := ih hnext hrun.2
    exact ⟨⟨hallowed, hrest⟩, hlast⟩

/-- Two systems whose steps correspond, and are allowed together, have corresponding runs. -/
theorem bisimilar (hiff : ∀ s s' e, R s s' → (C' s' (f e) ↔ C s e))
    (hstep : ∀ s s' e, R s s' → C s e → R (step s e) (step' s' (f e))) {s : σ} {s' : σ'}
    (h : R s s') (events : List ε) :
    (Every step' C' s' (events.map f) ↔ Every step C s events)
      ∧ (Every step C s events → R (last step s events) (last step' s' (events.map f))) := by
  have hforth : ∀ {s : σ} {s' : σ'}, R s s' → Every step C s events →
      Every step' C' s' (events.map f) ∧ R (last step s events) (last step' s' (events.map f)) :=
    fun h hrun => hrun.followed (fun s s' e hR hC => ⟨(hiff s s' e hR).2 hC, hstep s s' e hR hC⟩) h
  refine ⟨⟨?_, fun hrun => (hforth h hrun).1⟩, fun hrun => (hforth h hrun).2⟩
  clear hforth
  induction events generalizing s s' with
  | nil => exact fun _ => trivial
  | cons e rest ih =>
    intro hrun
    have hfirst := (hiff s s' e h).1 hrun.1
    exact ⟨hfirst, ih (hstep s s' e h hfirst) hrun.2⟩

end Sanmill.Run
