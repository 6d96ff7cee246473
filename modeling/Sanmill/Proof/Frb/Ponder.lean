import Sanmill.Frb.Ponder

/-!
# The ponder gate

In every state the slot refers to the worker of the current request, or to none, the handles
of a native call belong to that worker, and its gate is open only for a root that is equal to
the predicted one.
-/

namespace Sanmill.Frb

variable {σ : Type} {w : PonderWorld σ} {active : Option (ActiveMillSearch σ)}
  {call : Option (NativeCall σ)} {ponder ponder' : ActiveMillPonder σ}
  {worker worker' : PonderWorker σ} {requestId : UInt32}

/-! ## What holds in every state -/

def PonderWorker.registration (worker : PonderWorker σ) : ActiveMillSearch σ :=
  .register worker.id (some worker.spec) worker.moveTimeMs

/-- The gate of a worker, as far as its state depends on the history. -/
structure PonderWorker.GateOk (worker : PonderWorker σ) : Prop where
  thinking : worker.gate = .thinking → worker.history.stopTookFirst = false
  opened : worker.gate = .hit ∨ worker.phase = .passed →
    worker.history.hitOn = some worker.spec.predicted ∧ worker.history.stopTookFirst = false

structure PonderWorker.Sound (requestId : UInt32) (active : Option (ActiveMillSearch σ))
    (worker : PonderWorker σ) : Prop where
  request : worker.spec.requestId = requestId
  slot : active = if worker.phase.registered then some worker.registration else none
  gate : worker.GateOk

def RunPonder.Sound (requestId : UInt32) (active : Option (ActiveMillSearch σ)) :
    RunPonder σ → Prop
  | .streaming worker => worker.Sound requestId active
  | _ => active = none

/-- The native stream has been asked for and has not ended. -/
def RunPonder.started : RunPonder σ → Bool
  | .requested | .streaming _ => true
  | _ => false

structure ActiveMillPonder.Sound (active : Option (ActiveMillSearch σ))
    (ponder : ActiveMillPonder σ) : Prop where
  run : ponder.run.Sound ponder.requestId active
  started : ponder.run.started = true → ponder.nativeStreamStarted = true

def SoundPonder (active : Option (ActiveMillSearch σ)) : Option (ActiveMillPonder σ) → Prop
  | none => active = none
  | some ponder => ponder.Sound active

/-- The handles of a call belong to the worker of the request it was made for. -/
def CallOk (ponder : Option (ActiveMillPonder σ)) : Option (NativeCall σ) → Prop
  | some (.stop requestId) => ∃ p, ponder = some p ∧ p.requestId = requestId
  | some (.exchanging current _ gate _) =>
    ∃ p worker, ponder = some p ∧ p.run = .streaming worker ∧ worker.id = gate
      ∧ worker.spec.predicted = current
  | some (.stopping _ gate _) | some (.hitting _ gate _) | some (.returnsTrue gate) =>
    ∃ p worker, ponder = some p ∧ p.run = .streaming worker ∧ worker.id = gate
      ∧ worker.gate ≠ .thinking
  | _ => True

structure Inv (w : PonderWorld σ) : Prop where
  ponder : SoundPonder w.active w.ponder
  call : CallOk w.ponder w.call

/-! ## The worker -/

theorem RunPonder.worker?_eq_some {run : RunPonder σ} :
    run.worker? = some worker ↔ run = .streaming worker := by
  cases run with
  | streaming x =>
    constructor
    · intro h
      rw [Option.some.inj h]
    · intro h
      rw [RunPonder.streaming.inj h]
      rfl
  | predicting | requested | refused | ended => exact iff_of_false nofun nofun

theorem PonderWorld.worker?_eq_some :
    w.worker? = some worker ↔ ∃ p, w.ponder = some p ∧ p.run = .streaming worker := by
  unfold PonderWorld.worker?
  rw [Option.bind_eq_some_iff]
  simp only [RunPonder.worker?_eq_some]

/-- What a step of a call or of the worker leaves of the worker. -/
structure Evolves (worker worker' : PonderWorker σ) : Prop where
  id : worker'.id = worker.id
  spec : worker'.spec = worker.spec
  moveTimeMs : worker'.moveTimeMs = worker.moveTimeMs
  gate : worker.gate ≠ .thinking → worker'.gate ≠ .thinking
  gateOk : worker.GateOk → worker'.GateOk

theorem Evolves.registration (h : Evolves worker worker') :
    worker'.registration = worker.registration := by
  unfold PonderWorker.registration
  rw [h.id, h.spec, h.moveTimeMs]

theorem Evolves.sound (h : Evolves worker worker')
    (hphase : worker'.phase.registered = worker.phase.registered)
    (hsound : worker.Sound requestId active) : worker'.Sound requestId active := by
  refine ⟨?_, ?_, h.gateOk hsound.gate⟩
  · rw [h.spec]
    exact hsound.request
  · rw [hphase, h.registration]
    exact hsound.slot

theorem Evolves.stop (worker : PonderWorker σ) : Evolves worker worker.stop := by
  refine ⟨rfl, rfl, rfl, fun _ => nofun, fun h => ⟨nofun, ?_⟩⟩
  rintro (hgate | hphase)
  · cases hgate
  · have hpassed : worker.phase = .passed := hphase
    obtain ⟨hhit, hfirst⟩ := h.opened (.inr hpassed)
    refine ⟨hhit, ?_⟩
    simp only [PonderWorker.stop, hfirst, hpassed, WorkerPhase.leftGate, Bool.not_true,
      Bool.or_false]

theorem Evolves.hit {current : PonderRoot σ} (hthinking : worker.gate = .thinking)
    (hroot : worker.spec.predicted = current) : Evolves worker (worker.hit current) := by
  refine ⟨rfl, rfl, rfl, fun _ => nofun, fun h => ⟨nofun, fun _ => ?_⟩⟩
  exact ⟨congrArg some hroot.symm, h.thinking hthinking⟩

theorem Evolves.wake (worker : PonderWorker σ) : Evolves worker worker.wake := by
  unfold PonderWorker.wake
  split
  · rename_i hasleep
    refine ⟨rfl, rfl, rfl, fun h => h, fun h => ⟨h.thinking, ?_⟩⟩
    rintro (hgate | hphase)
    · exact h.opened (.inl hgate)
    · cases hphase
  · exact ⟨rfl, rfl, rfl, fun h => h, fun h => h⟩

theorem Evolves.requestAbort (worker : PonderWorker σ) : Evolves worker worker.requestAbort :=
  ⟨rfl, rfl, rfl, fun h => h, fun h => ⟨h.thinking, h.opened⟩⟩

theorem Evolves.hitReturned (worker : PonderWorker σ) : Evolves worker worker.hitReturned :=
  ⟨rfl, rfl, rfl, fun h => h, fun h => ⟨h.thinking, h.opened⟩⟩

theorem Evolves.trans {worker'' : PonderWorker σ} (h : Evolves worker worker')
    (h' : Evolves worker' worker'') : Evolves worker worker'' :=
  ⟨h'.id.trans h.id, h'.spec.trans h.spec, h'.moveTimeMs.trans h.moveTimeMs,
    fun hgate => h'.gate (h.gate hgate), fun hok => h'.gateOk (h.gateOk hok)⟩

/-- A step of the worker itself, other than the one through the gate. -/
theorem Evolves.phase {phase : WorkerPhase} (emitted : List PonderEvent)
    (hphase : phase ≠ .passed) (worker : PonderWorker σ) :
    Evolves worker { worker with emitted, phase } := by
  refine ⟨rfl, rfl, rfl, fun h => h, fun h => ⟨h.thinking, ?_⟩⟩
  rintro (hgate | hpassed)
  · exact h.opened (.inl hgate)
  · exact absurd hpassed hphase

theorem Evolves.pass (hgate : worker.gate = .hit) :
    Evolves worker { worker with phase := .passed } :=
  ⟨rfl, rfl, rfl, fun h => h, fun h => ⟨h.thinking, fun _ => h.opened (.inl hgate)⟩⟩

theorem WorkerPhase.not_registered {phase : WorkerPhase} (h : ¬ phase.registered = true) :
    phase = .starting ∨ phase = .ended := by
  cases phase with
  | starting => exact .inl rfl
  | ended => exact .inr rfl
  | announcing | failing | searching | checking | checked | asleep | released | passed | clearing =>
    exact absurd rfl h

theorem PonderWorker.wake_phase (worker : PonderWorker σ) :
    worker.wake.phase.registered = worker.phase.registered := by
  unfold PonderWorker.wake
  split
  · rename_i hasleep
    rw [hasleep]
    rfl
  · rfl

/-! ## Changing the worker in its place -/

theorem ActiveMillPonder.Sound.replace (h : ponder.Sound active)
    (hrun : ponder.run = .streaming worker) (hev : Evolves worker worker')
    (hphase : worker'.phase.registered = worker.phase.registered) :
    ({ ponder with run := .streaming worker' } : ActiveMillPonder σ).Sound active := by
  have hsound := h.run
  have hstarted := h.started
  rw [hrun] at hsound hstarted
  exact ⟨hev.sound hphase hsound, hstarted⟩

theorem CallOk.replace (h : CallOk (some ponder) call) (hrun : ponder.run = .streaming worker)
    (hev : Evolves worker worker') :
    CallOk (some { ponder with run := .streaming worker' }) call := by
  have hworker : ∀ {x}, ponder.run = .streaming x → x = worker := fun hx =>
    RunPonder.streaming.inj (hx.symm.trans hrun)
  cases call with
  | none => trivial
  | some c =>
    cases c with
    | abortActive | hit | aborting | returnsFalse => trivial
    | stop requestId =>
      obtain ⟨p, hp, hid⟩ := h
      obtain rfl := Option.some.inj hp
      exact ⟨_, rfl, hid⟩
    | exchanging current moveTimeMs gate abort =>
      obtain ⟨p, x, hp, hx, hid, hroot⟩ := h
      obtain rfl := Option.some.inj hp
      obtain rfl := hworker hx
      exact ⟨_, _, rfl, rfl, hev.id.trans hid, (congrArg _ hev.spec).trans hroot⟩
    | stopping _ gate _ | hitting _ gate _ | returnsTrue gate =>
      obtain ⟨p, x, hp, hx, hid, hgate⟩ := h
      obtain rfl := Option.some.inj hp
      obtain rfl := hworker hx
      exact ⟨_, _, rfl, rfl, hev.id.trans hid, hev.gate hgate⟩

/-- A change behind a handle leaves the request alone, or changes its worker. -/
theorem PonderWorld.updateWorker_cases (w : PonderWorld σ) (id : Nat)
    (f : PonderWorker σ → PonderWorker σ) :
    (w.updateWorker id f).ponder = w.ponder
      ∨ ∃ ponder worker, w.ponder = some ponder ∧ ponder.run = .streaming worker ∧ worker.id = id
        ∧ (w.updateWorker id f).ponder = some { ponder with run := .streaming (f worker) } := by
  unfold PonderWorld.updateWorker
  cases hponder : w.ponder with
  | none => exact .inl rfl
  | some ponder =>
    have hsame : ponder.run.update id f = ponder.run →
        Option.map (fun p => { p with run := p.run.update id f }) (some ponder) = some ponder := by
      intro h
      rw [Option.map_some, h]
    cases hrun : ponder.run with
    | predicting | requested | refused | ended =>
      refine .inl (hsame ?_)
      rw [hrun]
      rfl
    | streaming worker =>
      by_cases hid : worker.id = id
      · refine .inr ⟨ponder, worker, rfl, hrun, hid, ?_⟩
        rw [Option.map_some, hrun, RunPonder.update, if_pos hid]
      · refine .inl (hsame ?_)
        rw [hrun, RunPonder.update, if_neg hid]

/-- The worker that the handle of a call refers to. -/
theorem PonderWorld.updateWorker_streaming {f : PonderWorker σ → PonderWorker σ}
    (hponder : w.ponder = some ponder) (hrun : ponder.run = .streaming worker) :
    (w.updateWorker worker.id f).ponder = some { ponder with run := .streaming (f worker) } := by
  unfold PonderWorld.updateWorker
  rw [hponder, Option.map_some, hrun, RunPonder.update, if_pos rfl]

theorem PonderWorld.updateWorker_updateWorker {id : Nat} {f g : PonderWorker σ → PonderWorker σ}
    (hid : ∀ worker, (f worker).id = worker.id) :
    (w.updateWorker id f).updateWorker id g = w.updateWorker id fun worker => g (f worker) := by
  unfold PonderWorld.updateWorker
  cases w.ponder with
  | none => rfl
  | some ponder =>
    cases hrun : ponder.run with
    | predicting | requested | refused | ended => simp [hrun, RunPonder.update]
    | streaming worker =>
      by_cases h : worker.id = id
      · simp [hrun, RunPonder.update, h, hid]
      · simp [hrun, RunPonder.update, h]

/-! ## What the slot holds -/

/-- The slot refers to the worker of the request, under the request's id. -/
theorem SoundPonder.slot {found : ActiveMillSearch σ} (h : SoundPonder w.active w.ponder)
    (hfound : w.active = some found) :
    ∃ ponder worker, w.ponder = some ponder ∧ ponder.run = .streaming worker
      ∧ found = worker.registration := by
  unfold SoundPonder at h
  split at h
  · rw [hfound] at h
    cases h
  · rename_i ponder hponder
    have hsound := h.run
    cases hrun : ponder.run with
    | predicting | requested | refused | ended =>
      rw [hrun] at hsound
      cases hfound.symm.trans hsound
    | streaming worker =>
      rw [hrun] at hsound
      have hslot := hsound.slot
      rw [hfound] at hslot
      split at hslot
      · exact ⟨ponder, worker, hponder, hrun, Option.some.inj hslot⟩
      · cases hslot

theorem PonderWorker.registration_ponder (worker : PonderWorker σ) :
    worker.registration.ponder
      = some ⟨worker.spec.requestId, worker.moveTimeMs, worker.spec.predicted, worker.id⟩ := rfl

theorem matchingPonder_eq_some {found : ActiveMillSearch σ} {search : ActivePonderSearch σ}
    (h : matchingPonder active requestId = some (found, search)) :
    active = some found ∧ found.ponder = some search ∧ search.requestId = requestId := by
  unfold matchingPonder at h
  split at h
  · cases h
  · split at h
    · cases h
    · rename_i hponder
      split at h
      · rename_i hid
        obtain ⟨rfl, rfl⟩ := Prod.mk.inj (Option.some.inj h)
        exact ⟨rfl, hponder, hid⟩
      · cases h

/-- A stop or a hit that finds a registration finds that of the current worker. -/
theorem SoundPonder.matching {found : ActiveMillSearch σ} {search : ActivePonderSearch σ}
    (h : SoundPonder w.active w.ponder)
    (hfound : matchingPonder w.active requestId = some (found, search)) :
    ∃ ponder worker, w.ponder = some ponder ∧ ponder.run = .streaming worker
      ∧ search.gate = worker.id ∧ search.predicted = worker.spec.predicted := by
  obtain ⟨hactive, hsearch, -⟩ := matchingPonder_eq_some hfound
  obtain ⟨ponder, worker, hponder, hrun, rfl⟩ := SoundPonder.slot h hactive
  rw [worker.registration_ponder] at hsearch
  obtain rfl := Option.some.inj hsearch
  exact ⟨ponder, worker, hponder, hrun, rfl, rfl⟩

/-- A stop that finds nothing, for a worker that has started, finds it at its end. -/
theorem PonderWorker.Sound.ended (h : worker.Sound requestId active)
    (hnone : matchingPonder active requestId = none) (hstarted : worker.phase ≠ .starting) :
    worker.phase = .ended := by
  have hslot := h.slot
  split at hslot
  · rw [hslot] at hnone
    unfold matchingPonder at hnone
    simp [worker.registration_ponder, h.request] at hnone
  · rename_i hphase
    exact (WorkerPhase.not_registered hphase).resolve_left hstarted

/-! ## Every step keeps the invariant -/

theorem Inv.init : Inv (.init σ) := ⟨rfl, trivial⟩

theorem Inv.sound (h : Inv w) (hponder : w.ponder = some ponder) : ponder.Sound w.active := by
  have hsound := h.ponder
  rw [hponder] at hsound
  exact hsound

theorem SoundPonder.update {f : PonderWorker σ → PonderWorker σ}
    (h : SoundPonder w.active w.ponder) (id : Nat) (hev : ∀ worker, Evolves worker (f worker))
    (hphase : ∀ worker, (f worker).phase.registered = worker.phase.registered) :
    SoundPonder w.active (w.updateWorker id f).ponder := by
  rcases w.updateWorker_cases id f with heq | ⟨ponder, worker, hponder, hrun, -, heq⟩
  · rw [heq]
    exact h
  · rw [heq]
    rw [hponder] at h
    exact ActiveMillPonder.Sound.replace h hrun (hev worker) (hphase worker)

theorem Inv.requestPonderCancellation (hcall : w.call = none) (h : ponder.Sound w.active) :
    Inv (w.requestPonderCancellation ponder) := by
  unfold PonderWorld.requestPonderCancellation
  split
  · refine ⟨h, ?_⟩
    rw [show (w.setPonder ponder).call = none from hcall]
    trivial
  · refine ⟨⟨h.run, h.started⟩, ?_⟩
    dsimp only
    split
    · exact ⟨_, rfl, rfl⟩
    · trivial

theorem Inv.setPonder (hcall : w.call = none) (h : ponder.Sound w.active) :
    Inv (w.setPonder ponder) := by
  refine ⟨h, ?_⟩
  rw [show (w.setPonder ponder).call = none from hcall]
  trivial

/-- The run ends when no registration of its worker is left. -/
theorem Inv.endRun (hcall : w.call = none) (hactive : w.active = none) : Inv (w.endRun ponder) := by
  refine ⟨?_, ?_⟩
  · unfold PonderWorld.endRun
    dsimp only
    split
    · exact hactive
    · exact ⟨hactive, nofun⟩
  · rw [show (w.endRun ponder).call = none from hcall]
    trivial

theorem Inv.startPonder (h : Inv w) (hcall : w.call = none) (opponentSeat : PlayerSeat)
    (prediction : List Text) : Inv (w.startPonder opponentSeat prediction) := by
  unfold PonderWorld.startPonder
  split
  · exact h
  · split
    · rename_i previous hponder
      exact .requestPonderCancellation hcall (h.sound hponder)
    · rename_i hponder
      have hactive := h.ponder
      rw [hponder] at hactive
      refine ⟨?_, ?_⟩
      · dsimp only
        split
        · exact ⟨hactive, nofun⟩
        · exact ⟨hactive, fun _ => rfl⟩
      · dsimp only
        rw [hcall]
        trivial

theorem Inv.predicted (h : Inv w) (hcall : w.call = none) (prediction : List Text) :
    Inv (w.predicted prediction) := by
  unfold PonderWorld.predicted
  split
  · exact h
  · rename_i ponder hponder
    split
    · rename_i hrun
      have hactive := (h.sound hponder).run
      rw [hrun] at hactive
      split
      · exact .endRun hcall hactive
      · exact .setPonder hcall ⟨hactive, fun _ => rfl⟩
    · exact h

theorem Inv.observeAppliedAction (h : Inv w) (hcall : w.call = none) (move : Option Text)
    (mover nextSeat : PlayerSeat) (nextTerminal : Bool) (root : PonderRoot σ) :
    Inv (w.observeAppliedAction move mover nextSeat nextTerminal root) := by
  unfold PonderWorld.observeAppliedAction
  split
  · exact h
  · rename_i ponder hponder
    have hsound := h.sound hponder
    have hmatched : ({ ponder with matchedActions := ponder.matchedActions + 1 } :
        ActiveMillPonder σ).Sound w.active := ⟨hsound.run, hsound.started⟩
    split
    · exact h
    · split
      · split
        · dsimp only
          split
          · split
            · exact .requestPonderCancellation hcall hmatched
            · exact .setPonder hcall hmatched
          · split
            · exact .requestPonderCancellation hcall hmatched
            · exact ⟨hmatched, trivial⟩
        · exact .requestPonderCancellation hcall hsound
      · exact .requestPonderCancellation hcall hsound

theorem Inv.cancelPonder (h : Inv w) (hcall : w.call = none) : Inv w.cancelPonder := by
  unfold PonderWorld.cancelPonder
  split
  · exact h
  · rename_i ponder hponder
    have hsound := h.sound hponder
    exact .requestPonderCancellation hcall ⟨hsound.run, hsound.started⟩

theorem Inv.takePonderedAction (h : Inv w) (hcall : w.call = none) :
    Inv w.takePonderedAction := by
  unfold PonderWorld.takePonderedAction
  split
  · exact h
  · rename_i ponder hponder
    have hsound := h.sound hponder
    split
    · exact h.cancelPonder hcall
    · exact .setPonder hcall ⟨hsound.run, hsound.started⟩

theorem Inv.resume (h : Inv w) (hcall : w.call = none) : Inv w.resume := by
  unfold PonderWorld.resume
  split
  · exact h
  · rename_i ponder hponder
    split
    · rename_i hrun
      have hactive := (h.sound hponder).run
      rw [hrun] at hactive
      split
      · refine ⟨hactive, ?_⟩
        dsimp only
        rw [hcall]
        trivial
      · exact h
    · exact h

theorem Inv.receive (hcall : w.call = none) (h : ponder.Sound w.active) (event : PonderEvent) :
    Inv (w.receive ponder event) := by
  unfold PonderWorld.receive
  split
  · exact .setPonder hcall h
  · split
    · split
      · exact .requestPonderCancellation hcall h
      · exact .setPonder hcall ⟨h.run, h.started⟩
    · exact .setPonder hcall ⟨h.run, h.started⟩
    · exact .setPonder hcall h

theorem Inv.deliver (h : Inv w) (hcall : w.call = none) : Inv w.deliver := by
  unfold PonderWorld.deliver
  split
  · exact h
  · rename_i ponder hponder
    have hsound := h.sound hponder
    split
    · rename_i worker hrun
      split
      · rename_i event rest _
        have hev : Evolves worker { worker with emitted := rest } :=
          ⟨rfl, rfl, rfl, fun hgate => hgate, fun hok => ⟨hok.thinking, hok.opened⟩⟩
        exact .receive hcall (hsound.replace hrun hev rfl) event
      · split
        · rename_i hended
          have hactive := hsound.run
          rw [hrun] at hactive
          have hslot := hactive.slot
          rw [hended] at hslot
          exact .endRun hcall hslot
        · exact h
    · rename_i hrun
      have hactive := hsound.run
      rw [hrun] at hactive
      exact .endRun hcall hactive
    · exact h

theorem Inv.spawn (h : Inv w) (root : Option (List Text × PonderRoot σ)) (moveTimeMs : UInt32)
    (best : Text) : Inv (w.spawn root moveTimeMs best) := by
  unfold PonderWorld.spawn
  split
  · exact h
  · rename_i ponder hponder
    have hsound := h.sound hponder
    split
    · rename_i hrun
      have hactive := hsound.run
      have hstarted := hsound.started
      rw [hrun] at hactive hstarted
      -- no call has a handle while there is no worker
      have hcall : ∀ run, CallOk (some { ponder with run }) w.call := by
        intro run
        have hcall := h.call
        rw [hponder] at hcall
        cases hc : w.call with
        | none => trivial
        | some c =>
          rw [hc] at hcall
          cases c with
          | abortActive | hit | aborting | returnsFalse => trivial
          | stop requestId =>
            obtain ⟨p, hp, hid⟩ := hcall
            obtain rfl := Option.some.inj hp
            exact ⟨_, rfl, hid⟩
          | exchanging | stopping | hitting | returnsTrue =>
            obtain ⟨p, worker, hp, hworker, -⟩ := hcall
            obtain rfl := Option.some.inj hp
            rw [hrun] at hworker
            cases hworker
      split
      · exact ⟨⟨hactive, nofun⟩, hcall _⟩
      · refine ⟨⟨⟨rfl, hactive, ⟨fun _ => rfl, ?_⟩⟩, fun _ => hstarted rfl⟩, hcall _⟩
        rintro (hgate | hphase)
        · cases hgate
        · cases hphase
    · exact h

/-- The store of a stop, by whatever call it is made. -/
theorem Inv.stopping (h : Inv w) (hponder : w.ponder = some ponder)
    (hrun : ponder.run = .streaming worker) {gate : Nat} (hgate : gate = worker.id) (ofHit : Bool)
    (abort : Nat) :
    Inv { w.updateWorker gate .stop with call := some (.stopping ofHit gate abort) } := by
  subst hgate
  refine ⟨SoundPonder.update h.ponder _ Evolves.stop fun _ => rfl, ?_⟩
  exact ⟨_, _, PonderWorld.updateWorker_streaming hponder hrun, rfl, rfl, nofun⟩

/-- The worker a call refers to, after a change that keeps its gate open. -/
theorem Inv.callGate {c : NativeCall σ} (h : Inv w) (hcall : w.call = some c) {gate : Nat}
    (hc : (∃ ofHit abort, c = .stopping ofHit gate abort)
      ∨ (∃ moveTimeMs abort, c = .hitting moveTimeMs gate abort) ∨ c = .returnsTrue gate) :
    ∃ ponder worker, w.ponder = some ponder ∧ ponder.run = .streaming worker ∧ worker.id = gate
      ∧ worker.gate ≠ .thinking := by
  have hok := h.call
  rw [hcall] at hok
  rcases hc with ⟨_, _, rfl⟩ | ⟨_, _, rfl⟩ | rfl
  · exact hok
  · exact hok
  · exact hok

theorem Inv.native [DecidableEq σ] (h : Inv w) : Inv w.native := by
  unfold PonderWorld.native
  split
  · exact h
  · -- stop
    split
    · exact ⟨h.ponder, trivial⟩
    · rename_i found search hfound
      obtain ⟨ponder, worker, hponder, hrun, hgate, -⟩ := SoundPonder.matching h.ponder hfound
      exact h.stopping hponder hrun hgate false found.abort
  · -- abortActive
    split
    · exact ⟨h.ponder, trivial⟩
    · rename_i found hfound
      split
      · exact ⟨h.ponder, trivial⟩
      · rename_i search hsearch
        obtain ⟨ponder, worker, hponder, hrun, rfl⟩ := SoundPonder.slot h.ponder hfound
        rw [worker.registration_ponder] at hsearch
        obtain rfl := Option.some.inj hsearch
        exact h.stopping hponder hrun rfl false _
  · -- hit
    split
    · exact ⟨h.ponder, trivial⟩
    · rename_i found search hfound
      obtain ⟨ponder, worker, hponder, hrun, hgate, hpredicted⟩ :=
        SoundPonder.matching h.ponder hfound
      split
      · rename_i hroot
        exact ⟨h.ponder, _, _, hponder, hrun, hgate.symm, hpredicted.symm.trans hroot⟩
      · exact h.stopping hponder hrun hgate true found.abort
  · -- stopping
    exact ⟨SoundPonder.update h.ponder _ Evolves.wake PonderWorker.wake_phase, trivial⟩
  · -- aborting
    refine ⟨SoundPonder.update h.ponder _ Evolves.requestAbort fun _ => rfl, ?_⟩
    dsimp only
    split
    · trivial
    · trivial
  · -- exchanging
    rename_i current moveTimeMs gate abort hcall
    split
    · rename_i worker hworker
      obtain ⟨ponder, hponder, hrun⟩ := PonderWorld.worker?_eq_some.1 hworker
      have hok := h.call
      rw [hcall] at hok
      obtain ⟨p, x, hp, hx, hid, hroot⟩ := hok
      obtain rfl := Option.some.inj (hponder.symm.trans hp)
      obtain rfl := RunPonder.streaming.inj (hrun.symm.trans hx)
      split
      · rename_i hthinking
        subst hid
        have hupdate := PonderWorld.updateWorker_streaming (f := .hit current) hponder hrun
        refine ⟨?_, _, _, hupdate, rfl, rfl, nofun⟩
        dsimp only
        rw [hupdate]
        exact (h.sound hponder).replace hrun (.hit hthinking.2 hroot) rfl
      · exact ⟨h.ponder, trivial⟩
    · exact ⟨h.ponder, trivial⟩
  · -- hitting
    rename_i moveTimeMs gate abort hcall
    obtain ⟨ponder, worker, hponder, hrun, rfl, hgate⟩ := h.callGate hcall (.inr (.inl ⟨_, _, rfl⟩))
    refine ⟨SoundPonder.update h.ponder _ Evolves.wake PonderWorker.wake_phase, ?_⟩
    exact ⟨_, _, PonderWorld.updateWorker_streaming hponder hrun, rfl, (Evolves.wake worker).id,
      (Evolves.wake worker).gate hgate⟩
  · -- returnsTrue
    rename_i gate hcall
    have hsound := SoundPonder.update h.ponder gate Evolves.hitReturned fun _ => rfl
    refine ⟨?_, trivial⟩
    dsimp only
    cases hponder : (w.updateWorker gate .hitReturned).ponder with
    | none =>
      rw [hponder] at hsound
      exact hsound
    | some ponder =>
      rw [hponder] at hsound
      exact ⟨hsound.run, hsound.started⟩
  · -- returnsFalse
    split
    · exact ⟨h.ponder, trivial⟩
    · rename_i ponder hponder
      exact .requestPonderCancellation rfl (h.sound hponder)

/-! ### The worker's own steps -/

/-- A step of the worker that neither registers nor clears. -/
theorem Inv.go (h : Inv w) (hponder : w.ponder = some ponder)
    (hrun : ponder.run = .streaming worker) (hev : Evolves worker worker')
    (hphase : worker'.phase.registered = worker.phase.registered) :
    Inv (w.setPonder { ponder with run := .streaming worker' }) := by
  have hcall := h.call
  rw [hponder] at hcall
  exact ⟨(h.sound hponder).replace hrun hev hphase, hcall.replace hrun hev⟩

/-- What `request_abort_active_search` leaves of the worker that calls it. -/
def PonderWorker.failed (worker : PonderWorker σ) : PonderWorker σ :=
  { worker.stop.wake.requestAbort with phase := .clearing }

theorem Evolves.failed (worker : PonderWorker σ) : Evolves worker worker.failed :=
  (((Evolves.stop worker).trans (.wake _)).trans (.requestAbort _)).trans
    (.phase _ (by nofun) _)

/-- A worker whose sink failed stops itself: the slot refers to it. -/
theorem Inv.failing (h : Inv w) (hponder : w.ponder = some ponder)
    (hrun : ponder.run = .streaming worker) (hphase : worker.phase = .failing) :
    (w.abortActive.updateWorker worker.id ({ · with phase := .clearing })).ponder
      = some { ponder with run := .streaming worker.failed } := by
  have hsound := (h.sound hponder).run
  rw [hrun] at hsound
  have hactive : w.active = some worker.registration := by
    rw [hsound.slot, hphase]
    rfl
  have hupdate : w.abortActive.updateWorker worker.id ({ · with phase := .clearing })
      = w.updateWorker worker.id PonderWorker.failed := by
    unfold PonderWorld.abortActive
    rw [hactive]
    change (((w.updateWorker worker.id .stop).updateWorker worker.id .wake).updateWorker worker.id
      .requestAbort).updateWorker worker.id ({ · with phase := .clearing }) = _
    rw [PonderWorld.updateWorker_updateWorker (f := .stop) fun _ => rfl,
      PonderWorld.updateWorker_updateWorker fun x => (Evolves.wake x.stop).id,
      PonderWorld.updateWorker_updateWorker (f := fun x => x.stop.wake.requestAbort)
        fun x => (Evolves.wake x.stop).id]
    rfl
  rw [hupdate]
  exact PonderWorld.updateWorker_streaming hponder hrun

theorem abortActive_frame (w : PonderWorld σ) :
    w.abortActive.active = w.active ∧ w.abortActive.call = w.call := by
  unfold PonderWorld.abortActive
  split
  · exact ⟨rfl, rfl⟩
  · split
    · exact ⟨rfl, rfl⟩
    · exact ⟨rfl, rfl⟩

/-- The registration of a worker is cleared by its own id. -/
theorem clearActiveSearch_registration (worker : PonderWorker σ) :
    clearActiveSearch (some worker.spec.requestId) (some worker.registration) = none := by
  unfold clearActiveSearch
  rw [if_pos]
  simp [shouldClear, worker.registration_ponder]

theorem Inv.workerStep (h : Inv w) (hponder : w.ponder = some ponder)
    (hrun : ponder.run = .streaming worker) (ok : Bool) : Inv (w.workerStep ponder worker ok) := by
  have hsound := (h.sound hponder).run
  have hstarted := (h.sound hponder).started
  rw [hrun] at hsound hstarted
  have hcall := h.call
  rw [hponder] at hcall
  unfold PonderWorld.workerStep
  dsimp only
  -- one case for each phase; most steps only move the phase on
  cases hphase : worker.phase with
  | starting =>
    dsimp only
    split
    · split
      · exact h
      · have hev : Evolves worker { worker with phase := .announcing } := .phase _ (by nofun) _
        exact ⟨⟨⟨hsound.request, rfl, hev.gateOk hsound.gate⟩, hstarted⟩, hcall.replace hrun hev⟩
    · exact h.go hponder hrun (.phase _ (by nofun) _) (by rw [hphase]; rfl)
  | announcing =>
    dsimp only
    split
    · exact h.go hponder hrun (.phase _ (by nofun) _) (by rw [hphase]; rfl)
    · exact h.go hponder hrun (.phase _ (by nofun) _) (by rw [hphase]; rfl)
  -- a failing worker aborts whatever holds the slot, which is its own registration
  | failing =>
    dsimp only
    split
    · exact h
    · have heq := h.failing hponder hrun hphase
      obtain ⟨hactive, hcall'⟩ := abortActive_frame w
      refine ⟨?_, ?_⟩
      · rw [heq, show (w.abortActive.updateWorker worker.id ({ · with phase := .clearing })).active
          = w.active from hactive]
        exact (h.sound hponder).replace hrun (.failed worker) (by rw [hphase]; rfl)
      · rw [heq, show (w.abortActive.updateWorker worker.id ({ · with phase := .clearing })).call
          = w.call from hcall']
        exact hcall.replace hrun (.failed worker)
  | searching => exact h.go hponder hrun (.phase _ (by nofun) _) (by rw [hphase]; rfl)
  | checking =>
    dsimp only
    split
    · exact h.go hponder hrun (.phase _ (by nofun) _) (by rw [hphase]; rfl)
    · exact h.go hponder hrun (.phase _ (by nofun) _) (by rw [hphase]; rfl)
  | checked => exact h.go hponder hrun (.phase _ (by nofun) _) (by rw [hphase]; rfl)
  | asleep => exact h.go hponder hrun (.phase _ (by nofun) _) (by rw [hphase]; rfl)
  | released =>
    dsimp only
    split
    · rename_i hgate
      exact h.go hponder hrun (.pass hgate) (by rw [hphase]; rfl)
    · exact h.go hponder hrun (.phase _ (by nofun) _) (by rw [hphase]; rfl)
  | passed => exact h.go hponder hrun (.phase _ (by nofun) _) (by rw [hphase]; rfl)
  | clearing =>
    dsimp only
    split
    · exact h
    · have hev : Evolves worker { worker with phase := .ended } := .phase _ (by nofun) _
      -- the slot is still the worker's own when it clears it
      have hactive : w.active = some worker.registration := by
        rw [hsound.slot, hphase]
        rfl
      refine ⟨⟨⟨hsound.request, ?_, hev.gateOk hsound.gate⟩, hstarted⟩, hcall.replace hrun hev⟩
      rw [hactive]
      exact clearActiveSearch_registration worker
  | ended => exact h

theorem Inv.timer (h : Inv w) (index : Nat) : Inv (w.timer index) := by
  unfold PonderWorld.timer
  split
  · exact h
  · rename_i id _
    have hev : ∀ worker : PonderWorker σ,
        Evolves worker (if worker.gate = .hit then worker.requestAbort else worker) := by
      intro worker
      split
      · exact .requestAbort worker
      · exact ⟨rfl, rfl, rfl, fun hgate => hgate, fun hok => hok⟩
    have hphase : ∀ worker : PonderWorker σ,
        (if worker.gate = .hit then worker.requestAbort else worker).phase.registered
          = worker.phase.registered := by
      intro worker
      split
      · rfl
      · rfl
    refine ⟨SoundPonder.update h.ponder id hev hphase, ?_⟩
    dsimp only
    rcases w.updateWorker_cases id _ with heq | ⟨ponder, worker, hponder, hrun, -, heq⟩
    · rw [heq]
      exact h.call
    · have hcall := h.call
      rw [hponder] at hcall
      rw [heq]
      exact hcall.replace hrun (hev worker)

/-- The session takes its own steps between its calls. -/
theorem of_idle {P : PonderWorld σ → Prop} {w' : PonderWorld σ} (h : P w)
    (hstep : w.call = none → P w') : P (if w.call.isNone then w' else w) := by
  split
  · rename_i hcall
    exact hstep (Option.isNone_iff_eq_none.1 hcall)
  · exact h

theorem Inv.step [DecidableEq σ] (h : Inv w) (e : PonderStep σ) : Inv (ponderStep w e) := by
  cases e with
  | startPonder opponentSeat prediction =>
    exact of_idle h fun hcall => h.startPonder hcall opponentSeat prediction
  | predicted prediction => exact of_idle h fun hcall => h.predicted hcall prediction
  | applied move mover nextSeat nextTerminal root =>
    exact of_idle h fun hcall => h.observeAppliedAction hcall move mover nextSeat nextTerminal root
  | cancelPonder => exact of_idle h h.cancelPonder
  | takePonderedAction => exact of_idle h h.takePonderedAction
  | resume => exact of_idle h h.resume
  | deliver => exact of_idle h h.deliver
  | spawn root moveTimeMs best => exact h.spawn root moveTimeMs best
  | native => exact h.native
  | worker ok =>
    dsimp only [ponderStep]
    split
    · exact h
    · rename_i ponder hponder
      split
      · rename_i worker hrun
        exact h.workerStep hponder hrun ok
      · exact h
  | timer index => exact h.timer index

end Sanmill.Frb
