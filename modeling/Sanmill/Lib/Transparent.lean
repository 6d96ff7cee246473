import Sanmill.Lib.Fallible

/-!
# Computations whose state does not show

A computation over a state is transparent when it answers like a computation without one,
from every state that an invariant allows, and keeps the invariant: a cache, a pool of readers,
a table that is filled on demand. Transparent parts make transparent programs.
-/

namespace Sanmill

/-- The answer from a state, and the state after it. -/
def ExceptT.answer {σ ε α : Type} (x : ExceptT ε (StateM σ) α) (s : σ) : Except ε α × σ :=
  x.run.run s

theorem ExceptT.run_bind_ok_iff {ε α β : Type} {x : ExceptT ε Id α}
    {f : α → ExceptT ε Id β} {b : β} :
    (x >>= f).run = .ok b ↔ ∃ a, x.run = .ok a ∧ (f a).run = .ok b := by
  rw [ExceptT.run_bind]
  cases x.run with
  | error e =>
    constructor
    · intro h
      cases h
    · intro h
      obtain ⟨a, ha, -⟩ := h
      cases ha
  | ok a =>
    constructor
    · intro h
      exact ⟨a, rfl, h⟩
    · intro h
      obtain ⟨a', ha, h⟩ := h
      rwa [Except.ok.inj ha]

/-- From every state with `I`, the answer is `y`, and the state keeps `I`. -/
def Transparent {σ ε α : Type} (I : σ → Prop) (x : ExceptT ε (StateM σ) α) (y : Except ε α) :
    Prop :=
  ∀ s, I s → (ExceptT.answer x s).1 = y ∧ I (ExceptT.answer x s).2

namespace Transparent

variable {σ ε ε' α β γ : Type} {I : σ → Prop} {x : ExceptT ε (StateM σ) α} {y : Except ε α}

theorem pure (a : α) : Transparent I (Pure.pure a : ExceptT ε (StateM σ) α) (.ok a) := by
  intro s hs
  exact ⟨rfl, hs⟩

theorem throw (e : ε) : Transparent I (MonadExcept.throw e : ExceptT ε (StateM σ) α)
    (.error e) := by
  intro s hs
  exact ⟨rfl, hs⟩

/-- A step that does not look at the state. -/
theorem fixed (y : Except ε α) :
    Transparent I (ExceptT.mk (Pure.pure y) : ExceptT ε (StateM σ) α) y := by
  intro s hs
  exact ⟨rfl, hs⟩

theorem answer_bind (x : ExceptT ε (StateM σ) α) (f : α → ExceptT ε (StateM σ) β) (s : σ) :
    ExceptT.answer (x >>= f) s
      = match ExceptT.answer x s with
        | (.ok a, after) => ExceptT.answer (f a) after
        | (.error e, after) => (.error e, after) := by
  unfold ExceptT.answer
  rw [ExceptT.run_bind, StateT.run_bind]
  rcases hx : x.run.run s with ⟨result, after⟩
  cases result with
  | error e => rfl
  | ok a => rfl

theorem bind {f : α → ExceptT ε (StateM σ) β} {g : α → Except ε β} (hx : Transparent I x y)
    (hf : ∀ a, y = .ok a → Transparent I (f a) (g a)) : Transparent I (x >>= f) (y >>= g) := by
  intro s hs
  obtain ⟨hanswer, hkept⟩ := hx s hs
  rw [answer_bind]
  rcases h : ExceptT.answer x s with ⟨result, after⟩
  rw [h] at hanswer hkept
  obtain rfl : result = y := hanswer
  cases result with
  | error e => exact ⟨rfl, hkept⟩
  | ok a => exact hf a rfl after hkept

/-- A check that holds. -/
theorem skip {y : Except ε α} {a : α} {f : α → ExceptT ε (StateM σ) β} {z : Except ε β}
    (hy : y = .ok a) (hf : Transparent I (f a) z) :
    Transparent I ((ExceptT.mk (Pure.pure y) : ExceptT ε (StateM σ) α) >>= f) z := by
  intro s hs
  rw [answer_bind, hy]
  exact hf s hs

/-- The same where the computation without a state is written in `ExceptT` as well. -/
theorem bindId {z : ExceptT ε Id α} {f : α → ExceptT ε (StateM σ) β} {g : α → ExceptT ε Id β}
    (hx : Transparent I x z.run) (hf : ∀ a, Transparent I (f a) (g a).run) :
    Transparent I (x >>= f) (z >>= g).run := by
  have hsame : (z >>= g).run = Except.bind z.run fun a => (g a).run := by
    rw [ExceptT.run_bind]
    cases z.run with
    | error e => rfl
    | ok a => rfl
  rw [hsame]
  exact bind hx fun a _ => hf a

/-- The answer may be read in another way. -/
theorem reread (k : Except ε α → Except ε' β) (hx : Transparent I x y) :
    Transparent I (ExceptT.mk (k <$> x.run)) (k y) := by
  intro s hs
  obtain ⟨hanswer, hkept⟩ := hx s hs
  have hrun : ExceptT.answer (ExceptT.mk (k <$> x.run)) s
      = (k (ExceptT.answer x s).1, (ExceptT.answer x s).2) := rfl
  rw [hrun, hanswer]
  exact ⟨rfl, hkept⟩

theorem foldlM {f : β → α → ExceptT ε (StateM σ) β} {g : β → α → Except ε β} {xs : List α}
    (hf : ∀ b, ∀ a ∈ xs, Transparent I (f b a) (g b a)) (b : β) :
    Transparent I (xs.foldlM f b) (xs.foldlM g b) := by
  induction xs generalizing b with
  | nil =>
    rw [List.foldlM_nil, List.foldlM_nil]
    exact pure b
  | cons a rest ih =>
    rw [List.foldlM_cons, List.foldlM_cons]
    refine bind (hf b a List.mem_cons_self) ?_
    intro b' _
    exact ih (fun b a ha => hf b a (List.mem_cons_of_mem _ ha)) b'

/-- A computation has one answer. -/
theorem answer_eq {s : σ} (hx : Transparent I x y) (hs : I s) : (ExceptT.answer x s).1 = y :=
  (hx s hs).1

end Transparent

end Sanmill
