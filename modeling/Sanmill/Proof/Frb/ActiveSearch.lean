import Sanmill.Frb.ActiveSearch

/-!
# What the active search refers to

The slot always refers to the worker that registered last, and only while that worker runs.
It may be empty too early: a worker that ends empties it whenever its request id, or the
lack of one, is that of the registration it finds, and two ordinary workers both have none.
-/

namespace Sanmill.Frb

open Run (Every last)

variable {σ : Type} {w w' : SearchWorld σ} {i : Nat} {id : Option UInt32}

/-- Worker `i`, with this request id, has registered and not ended. -/
def Running (w : SearchWorld σ) (i : Nat) (id : Option UInt32) : Prop :=
  ∃ worker, w.workers[i]? = some worker ∧ worker.ponderRequestId = id ∧ worker.running = true

/-- The request id that `clear_active_search` compares. -/
def ActiveMillSearch.requestId (active : ActiveMillSearch σ) : Option UInt32 :=
  active.ponder.map (·.requestId)

theorem shouldClear_iff {active : ActiveMillSearch σ} :
    shouldClear id active = true ↔ active.requestId = id := by
  unfold shouldClear ActiveMillSearch.requestId
  cases id with
  | none =>
    cases active.ponder with
    | none => exact iff_of_true rfl rfl
    | some ponder => exact iff_of_false Bool.false_ne_true (Option.some_ne_none _)
  | some expected =>
    cases active.ponder with
    | none => exact iff_of_false Bool.false_ne_true (Option.some_ne_none _).symm
    | some ponder => simp

/-! ## Steps that change flags and gates only -/

/-- The slot and the workers are the same, up to abort flags and gates. -/
structure Frame (w w' : SearchWorld σ) : Prop where
  active : w'.active = w.active
  length : w'.workers.length = w.workers.length
  running : ∀ i id, Running w' i id ↔ Running w i id

theorem Frame.refl (w : SearchWorld σ) : Frame w w := ⟨rfl, rfl, fun _ _ => Iff.rfl⟩

theorem Frame.trans {w₁ w₂ w₃ : SearchWorld σ} (h : Frame w₁ w₂) (h' : Frame w₂ w₃) :
    Frame w₁ w₃ :=
  ⟨h'.active.trans h.active, h'.length.trans h.length,
    fun i id => (h'.running i id).trans (h.running i id)⟩

/-- Changing a flag or a gate of one worker. -/
theorem Frame.update {f : SearchWorker → SearchWorker}
    (hid : ∀ x, (f x).ponderRequestId = x.ponderRequestId) (hrun : ∀ x, (f x).running = x.running)
    (w : SearchWorld σ) (i : Nat) : Frame w (w.update i f) := by
  refine ⟨rfl, List.length_modify .., fun j id => ?_⟩
  unfold Running SearchWorld.update
  rw [List.getElem?_modify]
  cases hj : w.workers[j]? with
  | none => simp
  | some x =>
    by_cases hij : i = j
    · simp [hij, hid, hrun]
    · simp [hij]

theorem Frame.stop (w : SearchWorld σ) (i : Nat) : Frame w (w.update i .stop) :=
  .update (f := .stop) (fun _ => rfl) (fun _ => rfl) w i

theorem Frame.requestAbort (w : SearchWorld σ) (i : Nat) :
    Frame w (w.update i .requestAbort) :=
  .update (f := .requestAbort) (fun _ => rfl) (fun _ => rfl) w i

theorem Frame.hit (w : SearchWorld σ) (i : Nat) : Frame w (w.update i .hit) := by
  refine .update (fun x => ?_) (fun x => ?_) w i
  all_goals
    unfold SearchWorker.hit
    split
    · rfl
    · rfl

theorem requestAbortActiveSearch_frame (w : SearchWorld σ) :
    Frame w (requestAbortActiveSearch w).2 := by
  unfold requestAbortActiveSearch
  split
  · exact .refl w
  · split
    · exact .requestAbort w _
    · exact (Frame.stop w _).trans (.requestAbort _ _)

theorem requestStopPonder_frame (requestId : UInt32) (w : SearchWorld σ) :
    Frame w (requestStopPonder requestId w).2 := by
  unfold requestStopPonder
  split
  · exact .refl w
  · exact (Frame.stop w _).trans (.requestAbort _ _)

theorem requestPonderHit_frame [DecidableEq σ] (requestId : UInt32) (current : PonderRoot σ)
    (w : SearchWorld σ) : Frame w (requestPonderHit requestId current w).2 := by
  unfold requestPonderHit
  split
  · exact .refl w
  · split
    · split
      · dsimp only
        split
        · exact ⟨rfl, (Frame.hit w _).length, (Frame.hit w _).running⟩
        · exact .hit w _
      · exact .refl w
    · exact (Frame.stop w _).trans (.requestAbort _ _)

theorem fireTimer_frame (w : SearchWorld σ) (index : Nat) : Frame w (fireTimer w index) := by
  unfold fireTimer
  split
  · exact .refl w
  · rename_i worker _
    have h : Frame w (w.update worker fun x => if x.gate = .hit then x.requestAbort else x) := by
      refine .update (fun x => ?_) (fun x => ?_) w worker
      all_goals
        split
        · rfl
        · rfl
    exact ⟨rfl, h.length, h.running⟩

/-! ## Registering and ending -/

theorem running_lt (h : Running w i id) : i < w.workers.length := by
  obtain ⟨_, hget, -, -⟩ := h
  exact (List.getElem?_eq_some_iff.1 hget).1

/-- What a worker that ends leaves: the others go on, and the slot is emptied by its own id. -/
theorem finishWorker_spec (hrun : Running w i id) :
    (finishWorker w i).active = clearActiveSearch id w.active
      ∧ (finishWorker w i).workers.length = w.workers.length
      ∧ ∀ j id', Running (finishWorker w i) j id' ↔ Running w j id' ∧ j ≠ i := by
  obtain ⟨⟨requestId, aborted, gate, running⟩, hget, rfl, rfl⟩ := hrun
  unfold finishWorker
  rw [hget]
  refine ⟨rfl, List.length_modify .., fun j id' => ?_⟩
  unfold Running SearchWorld.update
  dsimp only
  rw [List.getElem?_modify]
  by_cases hij : i = j
  · subst hij
    simp [hget]
  · have hji : j ≠ i := Ne.symm hij
    simp [hij, hji]

/-- A worker that has not registered, or has ended, does not end again. -/
theorem finishWorker_eq_self (h : ∀ id, ¬ Running w i id) : finishWorker w i = w := by
  unfold finishWorker
  split
  · rename_i requestId aborted gate hget
    exact absurd ⟨_, hget, rfl, rfl⟩ (h requestId)
  · rfl

/-! ## What the slot promises -/

/-- While the worker that registered last runs, the slot refers to it, and an abort request
sets its flag. -/
def Answers (w : SearchWorld σ) : Prop :=
  ∀ i id, Running w i id → i + 1 = w.workers.length →
    (∃ active, w.active = some active ∧ active.abort = i)
      ∧ (requestAbortActiveSearch w).1 = true
      ∧ ∃ worker, (requestAbortActiveSearch w).2.workers[i]? = some worker ∧ worker.abort = true

/-- A worker that ends leaves the registration of another. -/
def KeepsOthers [DecidableEq σ] (w : SearchWorld σ) : SearchEvent σ → Prop
  | .finish i => ∀ active, w.active = some active → active.abort ≠ i →
      (searchStep w (.finish i)).active = some active
  | _ => True

/-- A worker ends while the slot refers to another one with the same request id, or while
both have none. -/
def ClearsAnother (w : SearchWorld σ) : SearchEvent σ → Prop
  | .finish i => ∃ active, w.active = some active ∧ active.abort ≠ i
      ∧ Running w i active.requestId
  | _ => False

/-! ## Abort requests -/

/-- An abort request sets the flag of the worker that the slot refers to. -/
theorem requestAbortActiveSearch_aborts {active : ActiveMillSearch σ}
    (hactive : w.active = some active) (hlt : active.abort < w.workers.length) :
    (requestAbortActiveSearch w).1 = true
      ∧ ∃ worker, (requestAbortActiveSearch w).2.workers[active.abort]? = some worker
        ∧ worker.abort = true := by
  have key : ∀ v : SearchWorld σ, v.workers.length = w.workers.length →
      ∃ worker, (v.update active.abort .requestAbort).workers[active.abort]? = some worker
        ∧ worker.abort = true := by
    intro v hv
    obtain ⟨x, hx⟩ : ∃ x, v.workers[active.abort]? = some x :=
      ⟨_, List.getElem?_eq_getElem (by omega)⟩
    exact ⟨x.requestAbort, by simp [SearchWorld.update, hx], rfl⟩
  unfold requestAbortActiveSearch
  rw [hactive]
  dsimp only
  split
  · exact ⟨rfl, key w rfl⟩
  · exact ⟨rfl, key _ (Frame.stop w _).length⟩

/-- The part of `Answers` about the slot implies the rest. -/
theorem answers_of_slot
    (h : ∀ i id, Running w i id → i + 1 = w.workers.length →
      ∃ active, w.active = some active ∧ active.abort = i) : Answers w := by
  intro i id hrun hlast
  obtain ⟨active, hactive, rfl⟩ := h i id hrun hlast
  exact ⟨⟨active, hactive, rfl⟩, requestAbortActiveSearch_aborts hactive (running_lt hrun)⟩

theorem Answers.init : Answers (.init σ) := by
  rintro i id ⟨worker, hget, -⟩
  cases hget

theorem Answers.frame (h : Answers w) (hframe : Frame w w') : Answers w' := by
  refine answers_of_slot fun i id hrun hlast => ?_
  rw [hframe.running] at hrun
  rw [hframe.length] at hlast
  rw [hframe.active]
  exact (h i id hrun hlast).1

theorem Answers.registerWorker (ponder : Option (PonderSearchSpec σ)) (moveTimeMs : UInt32) :
    Answers (registerWorker w ponder moveTimeMs) := by
  refine answers_of_slot fun i id _ hlast => ⟨_, rfl, ?_⟩
  simp only [Frb.registerWorker, List.length_append, List.length_singleton] at hlast
  exact (Nat.succ_injective hlast).symm

/-- An ending worker that does not clear another's registration leaves the slot as it is,
unless the registration is its own. -/
theorem finishWorker_active (hclears : ¬ ClearsAnother w (.finish i))
    {active : ActiveMillSearch σ} (hactive : w.active = some active) (hne : active.abort ≠ i) :
    (finishWorker w i).active = some active := by
  by_cases hrun : ∃ id, Running w i id
  · obtain ⟨id, hrun⟩ := hrun
    rw [(finishWorker_spec hrun).1, hactive]
    unfold clearActiveSearch
    rw [if_neg]
    rw [Option.any_some, shouldClear_iff]
    rintro rfl
    exact hclears ⟨active, hactive, hne, hrun⟩
  · rw [finishWorker_eq_self fun id hid => hrun ⟨id, hid⟩]
    exact hactive

theorem Answers.finishWorker (h : Answers w)
    (hclears : ¬ ClearsAnother w (.finish i)) : Answers (finishWorker w i) := by
  by_cases hrun : ∃ id, Running w i id
  · obtain ⟨id, hrun⟩ := hrun
    obtain ⟨-, hlength, hothers⟩ := finishWorker_spec hrun
    refine answers_of_slot fun j id' hj hlast => ?_
    rw [hothers] at hj
    rw [hlength] at hlast
    obtain ⟨⟨active, hactive, rfl⟩, -⟩ := h j id' hj.1 hlast
    exact ⟨active, finishWorker_active hclears hactive hj.2, rfl⟩
  · rw [finishWorker_eq_self fun id hid => hrun ⟨id, hid⟩]
    exact h

theorem Answers.step [DecidableEq σ] {e : SearchEvent σ} (h : Answers w)
    (hclears : ¬ ClearsAnother w e) : Answers (searchStep w e) := by
  cases e with
  | register ponder moveTimeMs => exact .registerWorker ponder moveTimeMs
  | finish i => exact h.finishWorker hclears
  | abortActive => exact h.frame (requestAbortActiveSearch_frame w)
  | stopPonder requestId => exact h.frame (requestStopPonder_frame requestId w)
  | ponderHit requestId current => exact h.frame (requestPonderHit_frame requestId current w)
  | timer index => exact h.frame (fireTimer_frame w index)

/-- A worker that clears another's registration leaves the slot empty. -/
theorem clearsAnother_active [DecidableEq σ] {e : SearchEvent σ} (hclears : ClearsAnother w e) :
    (searchStep w e).active = none := by
  cases e with
  | finish i =>
    obtain ⟨active, hactive, -, hrun⟩ := hclears
    have hslot : (finishWorker w i).active = clearActiveSearch active.requestId w.active :=
      (finishWorker_spec hrun).1
    rw [hactive, clearActiveSearch, if_pos] at hslot
    · exact hslot
    · rw [Option.any_some, shouldClear_iff]
  | register | abortActive | stopPonder | ponderHit | timer => exact hclears.elim

theorem keepsOthers_iff [DecidableEq σ] {e : SearchEvent σ} :
    KeepsOthers w e ↔ ¬ ClearsAnother w e := by
  constructor
  · intro hkeeps hclears
    have hnone := clearsAnother_active hclears
    cases e with
    | finish i =>
      obtain ⟨active, hactive, hne, -⟩ := hclears
      rw [hkeeps active hactive hne] at hnone
      cases hnone
    | register | abortActive | stopPonder | ponderHit | timer => exact hclears.elim
  · intro hclears
    cases e with
    | finish i => exact fun active hactive hne => finishWorker_active hclears hactive hne
    | register | abortActive | stopPonder | ponderHit | timer => trivial

/-- The registrations of the workers are kept, and abort requests reach the worker that
registered last, in exactly the runs in which no worker ends while the slot refers to another
with the same request id or, both being ordinary, with none. -/
theorem activeSearch_run [DecidableEq σ] (events : List (SearchEvent σ)) :
    Every searchStep (fun w e => KeepsOthers w e ∧ Answers (searchStep w e)) (.init σ) events
      ↔ Every searchStep (fun w e => ¬ ClearsAnother w e) (.init σ) events := by
  refine Run.every_congr (I := Answers) (fun w e => Answers.step) (fun w e hanswers => ?_) .init
  rw [keepsOthers_iff]
  exact and_iff_left_of_imp hanswers.step

/-- Two ordinary searches overlap: the first one to end takes the registration of the second,
and an abort request finds nothing while the second still runs. -/
theorem activeSearch_run_overlap :
    let w := last searchStep (.init Unit) [.register none 0, .register none 0, .finish 0]
    Running w 1 none ∧ 1 + 1 = w.workers.length ∧ w.active.isNone
      ∧ (requestAbortActiveSearch w).1 = false ∧ ¬ Answers w := by
  have hrun : Running (last searchStep (.init Unit)
      [.register none 0, .register none 0, .finish 0]) 1 none := ⟨_, rfl, rfl, rfl⟩
  refine ⟨hrun, rfl, rfl, rfl, fun hanswers => ?_⟩
  obtain ⟨⟨active, hactive, -⟩, -⟩ := hanswers 1 none hrun rfl
  cases hactive

end Sanmill.Frb
