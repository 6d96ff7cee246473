import Mathlib.Data.List.Basic

/-!
# Decoders of a stream

A decoder takes a stream item by item, and each item may bring an output or an error that
ends it. Fed with chunks, it returns the outputs of a chunk together, and none of them when
the chunk brings an error. However the stream is cut, the same error ends it, and the same
outputs come before it, except for those of the chunk that brings it.
-/

namespace Sanmill.Stream

variable {σ β α ε : Type} {step : σ → β → Except ε (σ × Option α)}
  {add : σ → List β → Except ε (List α × σ)} {Valid : σ → Prop}

/-- The outputs so far, and the state or the error that they end with. -/
structure Scan (σ α ε : Type) where
  outs : List α
  stop : Except ε σ

/-- The scan with outputs that came before. -/
def Scan.after (outs : List α) (r : Scan σ α ε) : Scan σ α ε := ⟨outs ++ r.outs, r.stop⟩

/-- The steps over a list, with what they put out, up to the first error. -/
def scan (step : σ → β → Except ε (σ × Option α)) : σ → List β → Scan σ α ε
  | s, [] => ⟨[], .ok s⟩
  | s, b :: rest =>
    match step s b with
    | .error e => ⟨[], .error e⟩
    | .ok (s', out) => (scan step s' rest).after out.toList

/-- Chunk by chunk, up to the first error. -/
def feed (add : σ → List β → Except ε (List α × σ)) : σ → List (List β) → Scan σ α ε
  | s, [] => ⟨[], .ok s⟩
  | s, chunk :: rest =>
    match add s chunk with
    | .error e => ⟨[], .error e⟩
    | .ok (outs, s') => (feed add s' rest).after outs

/-- The outputs of the chunk that brings the error. -/
def lost (step : σ → β → Except ε (σ × Option α)) : σ → List (List β) → List α
  | _, [] => []
  | s, chunk :: rest =>
    match (scan step s chunk).stop with
    | .error _ => (scan step s chunk).outs
    | .ok s' => lost step s' rest

/-- A chunk is decoded item by item, and its outputs are returned if it brings no error. -/
structure Batches (step : σ → β → Except ε (σ × Option α))
    (add : σ → List β → Except ε (List α × σ)) (Valid : σ → Prop) : Prop where
  keeps : ∀ s b s' out, Valid s → step s b = .ok (s', out) → Valid s'
  add_ok : ∀ s chunk s', Valid s → (scan step s chunk).stop = .ok s' →
    add s chunk = .ok ((scan step s chunk).outs, s')
  add_error : ∀ s chunk e, Valid s → (scan step s chunk).stop = .error e →
    add s chunk = .error e

@[simp] theorem scan_nil (s : σ) : scan step s [] = ⟨[], .ok s⟩ := rfl

theorem scan_cons_ok {s s' : σ} {b : β} {out : Option α} (h : step s b = .ok (s', out))
    (rest : List β) : scan step s (b :: rest) = (scan step s' rest).after out.toList := by
  rw [scan, h]

theorem scan_cons_error {s : σ} {b : β} {e : ε} (h : step s b = .error e) (rest : List β) :
    scan step s (b :: rest) = ⟨[], .error e⟩ := by
  rw [scan, h]

theorem scan_append_ok {s s' : σ} {xs : List β} (h : (scan step s xs).stop = .ok s')
    (ys : List β) : scan step s (xs ++ ys) = (scan step s' ys).after (scan step s xs).outs := by
  induction xs generalizing s with
  | nil =>
    obtain rfl := Except.ok.inj h
    rfl
  | cons b rest ih =>
    cases hstep : step s b with
    | error e =>
      rw [scan_cons_error hstep] at h
      cases h
    | ok next =>
      obtain ⟨s₁, out⟩ := next
      rw [scan_cons_ok hstep] at h
      rw [List.cons_append, scan_cons_ok hstep, scan_cons_ok hstep, ih h]
      simp only [Scan.after, List.append_assoc]

theorem scan_append_error {s : σ} {xs : List β} {e : ε} (h : (scan step s xs).stop = .error e)
    (ys : List β) : scan step s (xs ++ ys) = scan step s xs := by
  induction xs generalizing s with
  | nil => cases h
  | cons b rest ih =>
    cases hstep : step s b with
    | error e =>
      rw [List.cons_append, scan_cons_error hstep, scan_cons_error hstep]
    | ok next =>
      obtain ⟨s₁, out⟩ := next
      rw [scan_cons_ok hstep] at h
      rw [List.cons_append, scan_cons_ok hstep, scan_cons_ok hstep, ih h]

theorem scan_valid (hkeeps : ∀ s b s' out, Valid s → step s b = .ok (s', out) → Valid s')
    {s s' : σ} {xs : List β} (hs : Valid s) (h : (scan step s xs).stop = .ok s') : Valid s' := by
  induction xs generalizing s with
  | nil =>
    obtain rfl := Except.ok.inj h
    exact hs
  | cons b rest ih =>
    cases hstep : step s b with
    | error e =>
      rw [scan_cons_error hstep] at h
      cases h
    | ok next =>
      obtain ⟨s₁, out⟩ := next
      rw [scan_cons_ok hstep] at h
      exact ih (hkeeps s b s₁ out hs hstep) h

/-- However the stream is cut: the same end, and the same outputs up to those of the chunk that
brings the error. -/
theorem Batches.feed (h : Batches step add Valid) {s : σ} (hs : Valid s) (chunks : List (List β)) :
    (Stream.feed add s chunks).stop = (scan step s chunks.flatten).stop
      ∧ (Stream.feed add s chunks).outs ++ lost step s chunks
        = (scan step s chunks.flatten).outs := by
  induction chunks generalizing s with
  | nil => exact ⟨rfl, rfl⟩
  | cons chunk rest ih =>
    rw [List.flatten_cons, Stream.feed, lost]
    cases hstop : (scan step s chunk).stop with
    | error e =>
      rw [h.add_error s chunk e hs hstop, scan_append_error hstop]
      exact ⟨hstop.symm, rfl⟩
    | ok s' =>
      obtain ⟨hend, houts⟩ := ih (scan_valid h.keeps hs hstop)
      rw [h.add_ok s chunk s' hs hstop, scan_append_ok hstop]
      refine ⟨hend, ?_⟩
      change _ ++ (Stream.feed add s' rest).outs ++ lost step s' rest = _ ++ _
      rw [List.append_assoc, houts]

/-- A stream without an error loses nothing. -/
theorem lost_of_ok {s s' : σ} {chunks : List (List β)}
    (h : (scan step s chunks.flatten).stop = .ok s') : lost step s chunks = [] := by
  induction chunks generalizing s with
  | nil => rfl
  | cons chunk rest ih =>
    rw [List.flatten_cons] at h
    rw [lost]
    cases hstop : (scan step s chunk).stop with
    | error e =>
      rw [scan_append_error hstop, hstop] at h
      cases h
    | ok s₁ =>
      rw [scan_append_ok hstop] at h
      exact ih h

end Sanmill.Stream
