import Sanmill.Proof.Frb.Ponder

/-!
# What the ponder protocol guarantees

A best move comes only from a gate that a hit on an equal root opened and that no stop
changed before the worker left it. A request that was hit or cancelled has a worker that gets
past its gate, as long as a stop finds its worker registered and a notification does not fall
between the worker's last look at the gate and its wait: nothing in the source ensures either.
-/

namespace Sanmill.Frb

open Run (Every last)

variable {σ : Type} {w : PonderWorld σ} {active : Option (ActiveMillSearch σ)}
  {call : Option (NativeCall σ)} {ponder : ActiveMillPonder σ} {worker worker' : PonderWorker σ}

/-- The gate is open, or the worker is past it. -/
def RunPonder.Freed : RunPonder σ → Prop
  | .requested => False
  | .streaming worker => worker.gate ≠ .thinking ∨ worker.phase = .ended
  | _ => True

/-- The call is about to wake the worker with this handle. -/
def NativeCall.notifies (id : Nat) : NativeCall σ → Prop
  | .stopping _ gate _ | .hitting _ gate _ => gate = id
  | _ => False

structure ActiveMillPonder.Freed (call : Option (NativeCall σ)) (ponder : ActiveMillPonder σ) :
    Prop where
  woken : ∀ worker, ponder.run = .streaming worker → worker.gate ≠ .thinking →
    worker.phase = .asleep ∨ worker.phase = .checked → ∃ c ∈ call, c.notifies worker.id
  cancelled : ponder.cancelled = true → call = some (.stop ponder.requestId) ∨ ponder.run.Freed
  hit : ponder.hit = true → ponder.run.Freed ∧ ponder.run ≠ .predicting

structure Freed (w : PonderWorld σ) : Prop where
  ponder : ∀ ponder, w.ponder = some ponder → ponder.Freed w.call

/-- A stop that looks for its worker finds it registered, or at its end. -/
def StopFindsWorker (w : PonderWorld σ) : PonderStep σ → Prop
  | .native => ∀ requestId, w.call = some (.stop requestId) →
      ∀ ponder, w.ponder = some ponder → match ponder.run with
        | .requested => False
        | .streaming worker => worker.phase ≠ .starting
        | _ => True
  | _ => True

/-- A notification does not fall between the last look at the gate and the wait. -/
def NotifyFindsWaiter (w : PonderWorld σ) : PonderStep σ → Prop
  | .native => ∀ c ∈ w.call, ∀ worker, w.worker? = some worker → c.notifies worker.id →
      worker.phase ≠ .checked
  | _ => True

/-! ## A worker that was hit or cancelled gets past its gate -/

theorem Freed.init : Freed (.init σ) := by
  constructor
  intro ponder hponder
  cases hponder

/-- Between two calls nothing is left to do for such a worker. -/
theorem ActiveMillPonder.Freed.weaken (h : ponder.Freed none) (call : Option (NativeCall σ)) :
    ponder.Freed call := by
  refine ⟨fun worker hrun hgate hphase => ?_, fun hcancelled => ?_, h.hit⟩
  · obtain ⟨c, hc, -⟩ := h.woken worker hrun hgate hphase
    cases hc
  · exact .inr ((h.cancelled hcancelled).resolve_left (Option.some_ne_none _).symm)

/-- The same during a call that neither looks for the worker nor is about to wake it. -/
theorem ActiveMillPonder.Freed.quiet {c : NativeCall σ} (h : ponder.Freed (some c))
    (hstop : ∀ requestId, c ≠ .stop requestId) (hwake : ∀ id, ¬ c.notifies id) :
    ponder.Freed none := by
  refine ⟨fun worker hrun hgate hphase => ?_, fun hcancelled => ?_, h.hit⟩
  · obtain ⟨c', hc, hnotifies⟩ := h.woken worker hrun hgate hphase
    obtain rfl := Option.some.inj hc
    exact absurd hnotifies (hwake _)
  · exact .inr ((h.cancelled hcancelled).resolve_left fun heq => hstop _ (Option.some.inj heq))

theorem RunPonder.freed_of_not_started {run : RunPonder σ} (h : ¬ run.started = true) :
    run.Freed := by
  cases run with
  | requested | streaming => exact absurd rfl h
  | predicting | refused | ended => trivial

/-- A request without a worker. -/
theorem ActiveMillPonder.Freed.of_worker? (hworker : ponder.run.worker? = none)
    (hcancelled : ponder.cancelled = true → call = some (.stop ponder.requestId) ∨ ponder.run.Freed)
    (hhit : ponder.hit = true → ponder.run.Freed ∧ ponder.run ≠ .predicting) :
    ponder.Freed call := by
  refine ⟨fun worker hrun => ?_, hcancelled, hhit⟩
  rw [hrun] at hworker
  cases hworker

/-- A request that nothing has happened to, before or after its stream is asked for. -/
theorem ActiveMillPonder.Freed.fresh (hworker : ponder.run.worker? = none)
    (hcancelled : ponder.cancelled = false) (hhit : ponder.hit = false) (prediction : List Text) :
    (if prediction.isEmpty then ponder else PonderWorld.startStream ponder).Freed call := by
  have hc : ¬ ponder.cancelled = true := by
    rw [hcancelled]
    exact Bool.false_ne_true
  have hh : ¬ ponder.hit = true := by
    rw [hhit]
    exact Bool.false_ne_true
  split
  · exact .of_worker? hworker (fun h => absurd h hc) fun h => absurd h hh
  · exact .of_worker? rfl (fun h => absurd h hc) fun h => absurd h hh

theorem Freed.of_ponder (h : ponder.Freed call) (hponder : w.ponder = some ponder)
    (hcall : w.call = call) : Freed w := by
  constructor
  intro p hp
  obtain rfl := Option.some.inj (hponder.symm.trans hp)
  rw [hcall]
  exact h

theorem Freed.idle (h : Freed w) (hcall : w.call = none) (hponder : w.ponder = some ponder) :
    ponder.Freed none := by
  rw [← hcall]
  exact h.ponder ponder hponder

theorem Freed.setPonder (hcall : w.call = none) (h : ponder.Freed none) :
    Freed (w.setPonder ponder) :=
  .of_ponder h rfl hcall

theorem Freed.requestPonderCancellation (hcall : w.call = none) (hsound : ponder.Sound active)
    (h : ponder.Freed none) : Freed (w.requestPonderCancellation ponder) := by
  unfold PonderWorld.requestPonderCancellation
  split
  · exact .setPonder hcall h
  · have hfreed : ({ ponder with cancelled := true } : ActiveMillPonder σ).Freed
        (some (if ponder.nativeStreamStarted then .stop ponder.requestId else .abortActive)) := by
      refine ⟨(h.weaken _).woken, fun _ => ?_, h.hit⟩
      split
      · exact .inl rfl
      · rename_i hstarted
        exact .inr (RunPonder.freed_of_not_started fun hrun => hstarted (hsound.started hrun))
    exact .of_ponder hfreed rfl rfl

theorem Freed.endRun (w : PonderWorld σ) (ponder : ActiveMillPonder σ) :
    Freed (w.endRun ponder) := by
  constructor
  intro p hp
  unfold PonderWorld.endRun at hp
  dsimp only at hp
  split at hp
  · cases hp
  · obtain rfl := Option.some.inj hp
    exact .of_worker? rfl (fun _ => .inr trivial) fun _ => ⟨trivial, by nofun⟩

theorem Freed.startPonder (h : Freed w) (hinv : Inv w) (hcall : w.call = none)
    (opponentSeat : PlayerSeat) (prediction : List Text) :
    Freed (w.startPonder opponentSeat prediction) := by
  unfold PonderWorld.startPonder
  split
  · exact h
  · split
    · rename_i previous hponder
      exact .requestPonderCancellation hcall (hinv.sound hponder) (h.idle hcall hponder)
    · exact .of_ponder (ActiveMillPonder.Freed.fresh rfl rfl rfl prediction) rfl hcall

theorem Freed.predicted (h : Freed w) (hcall : w.call = none) (prediction : List Text) :
    Freed (w.predicted prediction) := by
  unfold PonderWorld.predicted
  split
  · exact h
  · rename_i ponder hponder
    split
    · rename_i hrun
      split
      · exact .endRun w ponder
      · rename_i hgoes
        have hcancelled : ¬ ponder.cancelled = true := by
          intro hcancelled
          simp [hcancelled] at hgoes
        refine .setPonder hcall (.of_worker? rfl (fun hc => absurd hc hcancelled) fun hhit => ?_)
        exact absurd hrun ((h.idle hcall hponder).hit hhit).2
    · exact h

theorem Freed.observeAppliedAction (h : Freed w) (hinv : Inv w) (hcall : w.call = none)
    (move : Option Text) (mover nextSeat : PlayerSeat) (nextTerminal : Bool)
    (root : PonderRoot σ) :
    Freed (w.observeAppliedAction move mover nextSeat nextTerminal root) := by
  unfold PonderWorld.observeAppliedAction
  split
  · exact h
  · rename_i ponder hponder
    have hsound := hinv.sound hponder
    have hfreed := h.idle hcall hponder
    have hmatchedSound : ({ ponder with matchedActions := ponder.matchedActions + 1 } :
        ActiveMillPonder σ).Sound w.active := ⟨hsound.run, hsound.started⟩
    have hmatched : ({ ponder with matchedActions := ponder.matchedActions + 1 } :
        ActiveMillPonder σ).Freed none := ⟨hfreed.woken, hfreed.cancelled, hfreed.hit⟩
    split
    · exact h
    · split
      · split
        · dsimp only
          split
          · split
            · exact .requestPonderCancellation hcall hmatchedSound hmatched
            · exact .setPonder hcall hmatched
          · split
            · exact .requestPonderCancellation hcall hmatchedSound hmatched
            · exact .of_ponder (hmatched.weaken _) rfl rfl
        · exact .requestPonderCancellation hcall hsound hfreed
      · exact .requestPonderCancellation hcall hsound hfreed

theorem Freed.cancelPonder (h : Freed w) (hinv : Inv w) (hcall : w.call = none) :
    Freed w.cancelPonder := by
  unfold PonderWorld.cancelPonder
  split
  · exact h
  · rename_i ponder hponder
    have hsound := hinv.sound hponder
    have hfreed := h.idle hcall hponder
    have hwaits : ({ ponder with awaiting := ponder.awaiting + 1 } :
        ActiveMillPonder σ).Sound w.active := ⟨hsound.run, hsound.started⟩
    exact .requestPonderCancellation hcall hwaits ⟨hfreed.woken, hfreed.cancelled, hfreed.hit⟩

theorem Freed.takePonderedAction (h : Freed w) (hinv : Inv w) (hcall : w.call = none) :
    Freed w.takePonderedAction := by
  unfold PonderWorld.takePonderedAction
  split
  · exact h
  · rename_i ponder hponder
    have hfreed := h.idle hcall hponder
    split
    · exact h.cancelPonder hinv hcall
    · exact .setPonder hcall ⟨hfreed.woken, hfreed.cancelled, hfreed.hit⟩

theorem Freed.resume (h : Freed w) : Freed w.resume := by
  unfold PonderWorld.resume
  split
  · exact h
  · split
    · split
      · constructor
        intro ponder hponder
        cases hponder
      · exact h
    · exact h

/-- A step of the worker that does not go to sleep at an open gate. -/
theorem ActiveMillPonder.Freed.replace (h : ponder.Freed call)
    (hrun : ponder.run = .streaming worker) (hev : Evolves worker worker')
    (hended : worker.phase = .ended → worker'.phase = .ended)
    (hwait : worker'.gate ≠ .thinking → worker'.phase = .asleep ∨ worker'.phase = .checked →
      worker.gate ≠ .thinking ∧ (worker.phase = .asleep ∨ worker.phase = .checked)) :
    ({ ponder with run := .streaming worker' } : ActiveMillPonder σ).Freed call := by
  have hfreed : ponder.run.Freed → worker'.gate ≠ .thinking ∨ worker'.phase = .ended := by
    intro hfreed
    rw [hrun] at hfreed
    exact hfreed.imp hev.gate hended
  refine ⟨fun x hx hgate hphase => ?_, fun hcancelled => (h.cancelled hcancelled).imp id hfreed,
    fun hhit => ⟨hfreed (h.hit hhit).1, by nofun⟩⟩
  obtain rfl := RunPonder.streaming.inj hx
  obtain ⟨hgate', hphase'⟩ := hwait hgate hphase
  obtain ⟨c, hc, hnotifies⟩ := h.woken worker hrun hgate' hphase'
  rw [← hev.id] at hnotifies
  exact ⟨c, hc, hnotifies⟩

theorem Freed.receive (hcall : w.call = none) (hsound : ponder.Sound active)
    (h : ponder.Freed none) (event : PonderEvent) : Freed (w.receive ponder event) := by
  unfold PonderWorld.receive
  split
  · exact .setPonder hcall h
  · split
    · split
      · exact .requestPonderCancellation hcall hsound h
      · exact .setPonder hcall ⟨h.woken, h.cancelled, h.hit⟩
    · exact .setPonder hcall ⟨h.woken, h.cancelled, h.hit⟩
    · exact .setPonder hcall h

theorem Freed.deliver (h : Freed w) (hinv : Inv w) (hcall : w.call = none) : Freed w.deliver := by
  unfold PonderWorld.deliver
  split
  · exact h
  · rename_i ponder hponder
    split
    · rename_i worker hrun
      split
      · rename_i event rest _
        have hev : Evolves worker { worker with emitted := rest } :=
          ⟨rfl, rfl, rfl, fun hgate => hgate, fun hok => ⟨hok.thinking, hok.opened⟩⟩
        exact .receive hcall ((hinv.sound hponder).replace hrun hev rfl)
          ((h.idle hcall hponder).replace hrun hev (fun hended => hended)
            fun hgate hphase => ⟨hgate, hphase⟩) event
      · split
        · exact .endRun w ponder
        · exact h
    · exact .endRun w ponder
    · exact h

theorem Freed.spawn (h : Freed w) (root : Option (List Text × PonderRoot σ))
    (moveTimeMs : UInt32) (best : Text) : Freed (w.spawn root moveTimeMs best) := by
  unfold PonderWorld.spawn
  split
  · exact h
  · rename_i ponder hponder
    split
    · rename_i hrun
      have hfreed := h.ponder ponder hponder
      -- a request that has not spawned was neither hit nor, unless its stop is under way, cancelled
      have hhit : ¬ ponder.hit = true := by
        intro hhit
        have hrunFreed := (hfreed.hit hhit).1
        rw [hrun] at hrunFreed
        exact hrunFreed
      have hcancelled : ponder.cancelled = true → w.call = some (.stop ponder.requestId) := by
        intro hcancelled
        refine (hfreed.cancelled hcancelled).resolve_right fun hrunFreed => ?_
        rw [hrun] at hrunFreed
        exact hrunFreed
      split
      · have hrefused : ({ ponder with run := .refused } : ActiveMillPonder σ).Freed w.call :=
          .of_worker? rfl (fun _ => .inr trivial) fun hh => absurd hh hhit
        exact .of_ponder hrefused rfl rfl
      · rename_i expectedActions predicted
        have hspawned : ({ ponder with
            run := .streaming (.spawn w.spawned ⟨ponder.requestId, expectedActions, predicted⟩
              moveTimeMs best) } : ActiveMillPonder σ).Freed w.call := by
          -- the new worker waits at its gate, and nobody has passed it
          refine ⟨fun x hx hgate => ?_, fun hc => .inl (hcancelled hc), fun hh => absurd hh hhit⟩
          obtain rfl := RunPonder.streaming.inj hx
          exact absurd rfl hgate
        exact .of_ponder hspawned rfl rfl
    · exact h

/-! ### The steps of a call -/

theorem Freed.quiet {c : NativeCall σ} (h : Freed w) (hcall : w.call = some c)
    (hstop : ∀ requestId, c ≠ .stop requestId) (hwake : ∀ id, ¬ c.notifies id)
    (next : Option (NativeCall σ)) : Freed { w with call := next } := by
  constructor
  intro ponder hponder
  have hfreed := h.ponder ponder hponder
  rw [hcall] at hfreed
  exact (hfreed.quiet hstop hwake).weaken next

/-- A stop opens the gate, and is about to wake the worker. -/
theorem Freed.stopping (hponder : w.ponder = some ponder) (hrun : ponder.run = .streaming worker)
    {gate : Nat} (hgate : gate = worker.id) (ofHit : Bool) (abort : Nat) :
    Freed { w.updateWorker gate .stop with call := some (.stopping ofHit gate abort) } := by
  subst hgate
  have hstopped : ({ ponder with run := .streaming worker.stop } : ActiveMillPonder σ).Freed
      (some (.stopping ofHit worker.id abort)) := by
    refine ⟨fun x hx _ _ => ?_, fun _ => .inr (.inl (by nofun)), fun _ => ⟨.inl (by nofun),
      by nofun⟩⟩
    obtain rfl := RunPonder.streaming.inj hx
    exact ⟨_, rfl, rfl⟩
  exact .of_ponder hstopped (PonderWorld.updateWorker_streaming hponder hrun) rfl

/-- So is a hit. -/
theorem Freed.hitting (hponder : w.ponder = some ponder) (hrun : ponder.run = .streaming worker)
    (current : PonderRoot σ) (moveTimeMs : UInt32) (abort : Nat) :
    Freed { w.updateWorker worker.id (.hit current) with
      call := some (.hitting moveTimeMs worker.id abort) } := by
  have hopened : ({ ponder with run := .streaming (worker.hit current) } :
      ActiveMillPonder σ).Freed (some (.hitting moveTimeMs worker.id abort)) := by
    refine ⟨fun x hx _ _ => ?_, fun _ => .inr (.inl (by nofun)), fun _ => ⟨.inl (by nofun),
      by nofun⟩⟩
    obtain rfl := RunPonder.streaming.inj hx
    exact ⟨_, rfl, rfl⟩
  exact .of_ponder hopened (PonderWorld.updateWorker_streaming hponder hrun) rfl

/-- A notification wakes a worker that sleeps. -/
theorem PonderWorker.wake_awake (hchecked : worker.phase ≠ .checked) :
    ¬ (worker.wake.phase = .asleep ∨ worker.wake.phase = .checked) := by
  unfold PonderWorker.wake
  split
  · rintro (h | h)
    · cases h
    · cases h
  · rename_i hasleep
    rintro (h | h)
    · exact hasleep h
    · exact hchecked h

/-- The notification of a call, unless it falls between a look at the gate and the wait. -/
theorem Freed.woken (hponder : w.ponder = some ponder) (hrun : ponder.run = .streaming worker)
    (hgate : worker.gate ≠ .thinking) (hchecked : worker.phase ≠ .checked) :
    ∃ woken, (w.updateWorker worker.id .wake).ponder = some woken ∧ woken.Freed none := by
  refine ⟨_, PonderWorld.updateWorker_streaming hponder hrun, fun x hx _ hphase => ?_,
    fun _ => .inr (.inl ((Evolves.wake worker).gate hgate)),
    fun _ => ⟨.inl ((Evolves.wake worker).gate hgate), by nofun⟩⟩
  obtain rfl := RunPonder.streaming.inj hx
  exact absurd hphase (PonderWorker.wake_awake hchecked)

theorem Freed.updateWorker {f : PonderWorker σ → PonderWorker σ} (h : Freed w) (id : Nat)
    (hev : ∀ worker, Evolves worker (f worker))
    (hphase : ∀ worker, (f worker).phase = worker.phase)
    (hgate : ∀ worker, (f worker).gate = worker.gate) : Freed (w.updateWorker id f) := by
  rcases w.updateWorker_cases id f with heq | ⟨ponder, worker, hponder, hrun, -, heq⟩
  · constructor
    intro ponder hponder
    exact h.ponder ponder (heq.symm.trans hponder)
  · refine .of_ponder ((h.ponder ponder hponder).replace hrun (hev worker) (fun hended => ?_)
      fun hopen hwaits => ?_) heq rfl
    · rw [hphase]
      exact hended
    · rw [hgate] at hopen
      rw [hphase] at hwaits
      exact ⟨hopen, hwaits⟩

/-- A stop that finds nothing has nothing to do. -/
theorem Freed.stop_none {requestId : UInt32} (h : Freed w) (hinv : Inv w)
    (hcall : w.call = some (.stop requestId)) (hfinds : StopFindsWorker w .native)
    (hnone : matchingPonder w.active requestId = none) : Freed { w with call := none } := by
  constructor
  intro ponder hponder
  have hfreed := h.ponder ponder hponder
  rw [hcall] at hfreed
  have hrunFreed : ponder.run.Freed := by
    have hfinds := hfinds requestId hcall ponder hponder
    have hsound := (hinv.sound hponder).run
    have hok := hinv.call
    rw [hcall] at hok
    obtain ⟨p, hp, rfl⟩ := hok
    obtain rfl := Option.some.inj (hponder.symm.trans hp)
    cases hrun : ponder.run with
    | predicting | refused | ended => trivial
    | requested =>
      rw [hrun] at hfinds
      exact hfinds.elim
    | streaming worker =>
      rw [hrun] at hfinds hsound
      exact .inr (hsound.ended hnone hfinds)
  refine ⟨fun worker hrun hgate hphase => ?_, fun _ => .inr hrunFreed, hfreed.hit⟩
  obtain ⟨c, hc, hnotifies⟩ := hfreed.woken worker hrun hgate hphase
  obtain rfl := Option.some.inj hc
  exact hnotifies.elim

theorem Freed.native [DecidableEq σ] (h : Freed w) (hinv : Inv w)
    (hfinds : StopFindsWorker w .native) (hnotify : NotifyFindsWaiter w .native) :
    Freed w.native := by
  have hquiet : ∀ {c}, w.call = some c → (∀ requestId, c ≠ .stop requestId) →
      (∀ id, ¬ c.notifies id) → ∀ next, Freed { w with call := next } := fun hc => h.quiet hc
  unfold PonderWorld.native
  split
  · exact h
  · -- stop
    rename_i requestId hcall
    split
    · rename_i hnone
      exact h.stop_none hinv hcall hfinds hnone
    · rename_i found search hfound
      obtain ⟨ponder, worker, hponder, hrun, hgate, -⟩ := SoundPonder.matching hinv.ponder hfound
      exact .stopping hponder hrun hgate false found.abort
  · -- abortActive
    rename_i hcall
    split
    · exact hquiet hcall (fun _ => by nofun) (fun _ => id) _
    · rename_i found hfound
      split
      · exact hquiet hcall (fun _ => by nofun) (fun _ => id) _
      · rename_i search hsearch
        obtain ⟨ponder, worker, hponder, hrun, rfl⟩ := SoundPonder.slot hinv.ponder hfound
        rw [worker.registration_ponder] at hsearch
        obtain rfl := Option.some.inj hsearch
        exact .stopping hponder hrun rfl false _
  · -- hit
    rename_i requestId current hcall
    split
    · exact hquiet hcall (fun _ => by nofun) (fun _ => id) _
    · rename_i found search hfound
      obtain ⟨ponder, worker, hponder, hrun, hgate, -⟩ := SoundPonder.matching hinv.ponder hfound
      split
      · exact hquiet hcall (fun _ => by nofun) (fun _ => id) _
      · exact .stopping hponder hrun hgate true found.abort
  · -- stopping
    rename_i ofHit gate abort hcall
    obtain ⟨ponder, worker, hponder, hrun, rfl, hgate⟩ :=
      hinv.callGate hcall (.inl ⟨_, _, rfl⟩)
    have hchecked := hnotify _ hcall worker
      (PonderWorld.worker?_eq_some.2 ⟨ponder, hponder, hrun⟩) rfl
    obtain ⟨woken, hwoken, hfreed⟩ := Freed.woken hponder hrun hgate hchecked
    exact .of_ponder (hfreed.weaken _) hwoken rfl
  · -- aborting
    rename_i ofHit abort hcall
    have hidle := hquiet hcall (fun _ => by nofun) (fun _ => id)
      (if ofHit then some .returnsFalse else none)
    exact hidle.updateWorker abort Evolves.requestAbort (fun _ => rfl) fun _ => rfl
  · -- exchanging
    rename_i current moveTimeMs gate abort hcall
    split
    · rename_i worker hworker
      obtain ⟨ponder, hponder, hrun⟩ := PonderWorld.worker?_eq_some.1 hworker
      split
      · rename_i hthinking
        obtain ⟨rfl, -⟩ := hthinking
        exact .hitting hponder hrun current moveTimeMs abort
      · exact hquiet hcall (fun _ => by nofun) (fun _ => id) _
    · exact hquiet hcall (fun _ => by nofun) (fun _ => id) _
  · -- hitting
    rename_i moveTimeMs gate abort hcall
    obtain ⟨ponder, worker, hponder, hrun, rfl, hgate⟩ :=
      hinv.callGate hcall (.inr (.inl ⟨_, _, rfl⟩))
    have hchecked := hnotify _ hcall worker
      (PonderWorld.worker?_eq_some.2 ⟨ponder, hponder, hrun⟩) rfl
    obtain ⟨woken, hwoken, hfreed⟩ := Freed.woken hponder hrun hgate hchecked
    exact .of_ponder (hfreed.weaken _) hwoken rfl
  · -- returnsTrue
    rename_i gate hcall
    obtain ⟨ponder, worker, hponder, hrun, rfl, hgate⟩ := hinv.callGate hcall (.inr (.inr rfl))
    have hidle := (hquiet hcall (fun _ => by nofun) (fun _ => id) none).ponder ponder hponder
    have hreturned := hidle.replace hrun (.hitReturned worker) (fun hended => hended)
      fun hopen hphase => ⟨hopen, hphase⟩
    have hhit : ({ ponder with run := .streaming worker.hitReturned, hit := true } :
        ActiveMillPonder σ).Freed none :=
      ⟨hreturned.woken, hreturned.cancelled, fun _ => ⟨.inl hgate, by nofun⟩⟩
    refine .of_ponder hhit ?_ rfl
    dsimp only
    rw [PonderWorld.updateWorker_streaming hponder hrun]
    rfl
  · -- returnsFalse
    rename_i hcall
    have hidle := hquiet hcall (fun _ => by nofun) (fun _ => id) none
    split
    · exact hidle
    · rename_i ponder hponder
      exact .requestPonderCancellation rfl (hinv.sound hponder) (hidle.ponder ponder hponder)

/-! ### The steps of the worker -/

/-- A step of the worker that does not go to sleep. -/
theorem Freed.go {w' : PonderWorld σ} (h : Freed w) (hponder : w.ponder = some ponder)
    (hrun : ponder.run = .streaming worker) (hev : Evolves worker worker')
    (hended : worker.phase ≠ .ended)
    (hawake : ¬ (worker'.phase = .asleep ∨ worker'.phase = .checked))
    (hponder' : w'.ponder = some { ponder with run := .streaming worker' })
    (hcall : w'.call = w.call) : Freed w' :=
  .of_ponder ((h.ponder ponder hponder).replace hrun hev (fun h => absurd h hended)
    fun _ hphase => absurd hphase hawake) hponder' hcall

theorem Freed.workerStep (h : Freed w) (hinv : Inv w) (hponder : w.ponder = some ponder)
    (hrun : ponder.run = .streaming worker) (ok : Bool) :
    Freed (w.workerStep ponder worker ok) := by
  have hfreed := h.ponder ponder hponder
  unfold PonderWorld.workerStep
  dsimp only
  cases hphase : worker.phase with
  | starting =>
    have hended : worker.phase ≠ .ended := by simp [hphase]
    dsimp only
    split
    · split
      · exact h
      · exact h.go hponder hrun (.phase worker.emitted (by nofun) worker) hended (by nofun) rfl rfl
    · exact h.go hponder hrun (.phase _ (by nofun) worker) hended (by nofun) rfl rfl
  | announcing =>
    have hended : worker.phase ≠ .ended := by simp [hphase]
    dsimp only
    split
    · exact h.go hponder hrun (.phase _ (by nofun) worker) hended (by nofun) rfl rfl
    · exact h.go hponder hrun (.phase worker.emitted (by nofun) worker) hended (by nofun) rfl rfl
  | failing =>
    dsimp only
    split
    · exact h
    · exact h.go hponder hrun (.failed worker) (by simp [hphase]) (by nofun)
        (hinv.failing hponder hrun hphase) (abortActive_frame w).2
  | searching =>
    exact h.go hponder hrun (.phase worker.emitted (by nofun) worker) (by simp [hphase]) (by nofun)
      rfl rfl
  | checking =>
    dsimp only
    split
    · -- the gate is closed, so there is nothing to wake the worker for yet
      rename_i hthinking
      have hev : Evolves worker { worker with phase := .checked } := .phase _ (by nofun) _
      refine .of_ponder (hfreed.replace hrun hev (fun hended => ?_)
        fun hopen _ => absurd hthinking hopen) rfl rfl
      rw [hphase] at hended
      cases hended
    · exact h.go hponder hrun (.phase worker.emitted (by nofun) worker) (by simp [hphase])
        (by nofun) rfl rfl
  | checked =>
    have hev : Evolves worker { worker with phase := .asleep } := .phase _ (by nofun) _
    refine .of_ponder (hfreed.replace hrun hev (fun hended => ?_)
      fun hopen _ => ⟨hopen, .inr hphase⟩) rfl rfl
    rw [hphase] at hended
    cases hended
  | asleep =>
    exact h.go hponder hrun (.phase worker.emitted (by nofun) worker) (by simp [hphase]) (by nofun)
      rfl rfl
  | released =>
    have hended : worker.phase ≠ .ended := by simp [hphase]
    dsimp only
    split
    · rename_i hgate
      exact h.go hponder hrun (.pass hgate) hended (by nofun) rfl rfl
    · exact h.go hponder hrun (.phase _ (by nofun) worker) hended (by nofun) rfl rfl
  | passed =>
    exact h.go hponder hrun (.phase _ (by nofun) worker) (by simp [hphase]) (by nofun) rfl rfl
  | clearing =>
    dsimp only
    split
    · exact h
    · exact h.go hponder hrun (.phase worker.emitted (by nofun) worker) (by simp [hphase])
        (by nofun) rfl rfl
  | ended => exact h

theorem Freed.timer (h : Freed w) (index : Nat) : Freed (w.timer index) := by
  unfold PonderWorld.timer
  split
  · exact h
  · rename_i id _
    have hkeeps : ∀ worker : PonderWorker σ,
        Evolves worker (if worker.gate = .hit then worker.requestAbort else worker)
          ∧ (if worker.gate = .hit then worker.requestAbort else worker).phase = worker.phase
          ∧ (if worker.gate = .hit then worker.requestAbort else worker).gate = worker.gate := by
      intro worker
      split
      · exact ⟨.requestAbort worker, rfl, rfl⟩
      · exact ⟨⟨rfl, rfl, rfl, fun hgate => hgate, fun hok => hok⟩, rfl, rfl⟩
    have hupdate := h.updateWorker id (fun x => (hkeeps x).1) (fun x => (hkeeps x).2.1)
      fun x => (hkeeps x).2.2
    exact ⟨hupdate.ponder⟩

theorem Freed.step [DecidableEq σ] {e : PonderStep σ} (h : Freed w) (hinv : Inv w)
    (hfinds : StopFindsWorker w e) (hnotify : NotifyFindsWaiter w e) : Freed (ponderStep w e) := by
  cases e with
  | startPonder opponentSeat prediction =>
    exact of_idle h fun hcall => h.startPonder hinv hcall opponentSeat prediction
  | predicted prediction => exact of_idle h fun hcall => h.predicted hcall prediction
  | applied move mover nextSeat nextTerminal root =>
    exact of_idle h fun hcall =>
      h.observeAppliedAction hinv hcall move mover nextSeat nextTerminal root
  | cancelPonder => exact of_idle h (h.cancelPonder hinv)
  | takePonderedAction => exact of_idle h (h.takePonderedAction hinv)
  | resume => exact of_idle h fun _ => h.resume
  | deliver => exact of_idle h (h.deliver hinv)
  | spawn root moveTimeMs best => exact h.spawn root moveTimeMs best
  | native => exact h.native hinv hfinds hnotify
  | worker ok =>
    dsimp only [ponderStep]
    split
    · exact h
    · rename_i ponder hponder
      split
      · rename_i worker hrun
        exact h.workerStep hinv hponder hrun ok
      · exact h
  | timer index => exact h.timer index

/-! ## Whole runs -/

/-- A worker that sleeps at the gate, or will, with nobody about to wake it. -/
def RunPonder.Unreleased : RunPonder σ → Prop
  | .requested => True
  | .streaming worker =>
    worker.phase = .asleep ∨ worker.phase = .checked
      ∨ worker.gate = .thinking ∧ (worker.phase = .starting ∨ worker.phase = .announcing
        ∨ worker.phase = .searching ∨ worker.phase = .checking)
  | _ => False

/-- No native call runs, and the worker of a request that was hit or cancelled is not
released. -/
def Stuck (w : PonderWorld σ) : Prop :=
  w.call = none ∧ ∃ ponder, w.ponder = some ponder ∧ (ponder.cancelled = true ∨ ponder.hit = true)
    ∧ ponder.run.Unreleased

/-- The step emits a best move, and the worker that emits it meets `P`. -/
def Emits (P : PonderWorker σ → Prop) (w : PonderWorld σ) : PonderStep σ → Prop
  | .worker _ => ∀ worker, w.worker? = some worker → worker.phase = .passed → P worker
  | _ => True

/-- `request_ponder_hit` returned true on an equal root, and no stop took effect. -/
def HitReturned (worker : PonderWorker σ) : Prop :=
  worker.history.hitReturned = true ∧ worker.history.hitOn = some worker.spec.predicted
    ∧ worker.history.stopTook = false

/-- A hit on an equal root changed the gate, and no stop did before the worker left it. -/
def HitTook (worker : PonderWorker σ) : Prop :=
  worker.history.hitOn = some worker.spec.predicted ∧ worker.history.stopTookFirst = false

theorem Inv.emits (h : Inv w) (e : PonderStep σ) : Emits HitTook w e := by
  cases e with
  | worker ok =>
    intro worker hworker hpassed
    obtain ⟨ponder, hponder, hrun⟩ := PonderWorld.worker?_eq_some.1 hworker
    have hsound := (h.sound hponder).run
    rw [hrun] at hsound
    exact hsound.gate.opened (.inr hpassed)
  | startPonder | predicted | applied | cancelPonder | takePonderedAction | resume | deliver
  | spawn | native | timer => trivial

theorem Freed.not_stuck (h : Freed w) : ¬ Stuck w := by
  rintro ⟨hcall, ponder, hponder, hdone, hunreleased⟩
  have hfreed := h.idle hcall hponder
  have hrunFreed : ponder.run.Freed := by
    rcases hdone with hcancelled | hhit
    · exact (hfreed.cancelled hcancelled).resolve_left (Option.some_ne_none _).symm
    · exact (hfreed.hit hhit).1
  cases hrun : ponder.run with
  | predicting | refused | ended =>
    rw [hrun] at hunreleased
    exact hunreleased
  | requested =>
    rw [hrun] at hrunFreed
    exact hrunFreed
  | streaming worker =>
    rw [hrun] at hrunFreed hunreleased
    rcases hrunFreed with hgate | hended
    · have hawake : ¬ (worker.phase = .asleep ∨ worker.phase = .checked) := by
        intro hphase
        obtain ⟨c, hc, -⟩ := hfreed.woken worker hrun hgate hphase
        cases hc
      rcases hunreleased with hasleep | hchecked | ⟨hthinking, -⟩
      · exact hawake (.inl hasleep)
      · exact hawake (.inr hchecked)
      · exact hgate hthinking
    · simp [RunPonder.Unreleased, hended] at hunreleased

/-- In every run a best move is emitted only through a gate that a hit on an equal root opened
and no stop changed first. Where stops find their workers registered and notifications find
them waiting, or not about to wait, no run leads to a request whose worker is never released. -/
theorem ponder_run [DecidableEq σ] (events : List (PonderStep σ)) :
    Every ponderStep (Emits HitTook) (.init σ) events
      ∧ (Every ponderStep (fun w e => StopFindsWorker w e ∧ NotifyFindsWaiter w e)
          (.init σ) events →
        ¬ Stuck (last ponderStep (.init σ) events)) := by
  constructor
  · have hall : Every ponderStep (fun w e => Inv w ∧ True) (.init σ) events :=
      Run.Every.withInvariant (fun w e hinv _ => hinv.step e) .init
        (Run.every_of_forall (fun _ _ => trivial) _ _)
    exact hall.mono fun w e h => h.1.emits e
  · intro hcalm
    have hboth : Inv (last ponderStep (.init σ) events)
        ∧ Freed (last ponderStep (.init σ) events) := by
      refine Run.invariant (I := fun w => Inv w ∧ Freed w) ?_ ⟨.init, .init⟩ hcalm
      rintro w e ⟨hinv, hfreed⟩ ⟨hfinds, hnotify⟩
      exact ⟨hinv.step e, hfreed.step hinv hfinds hnotify⟩
    exact hboth.2.not_stuck

/-- A cancellation that finds its worker searching stops it. -/
theorem ponder_run_cancelled :
    ¬ Stuck (last ponderStep (.init Unit)
      [.startPonder .first [['a']], .spawn (some ([['a']], ⟨(), [], false⟩)) 0 ['b'], .worker true,
        .worker true, .cancelPonder, .native, .native, .native]) := by
  refine (ponder_run _).2 ?_
  simp only [Every, StopFindsWorker, NotifyFindsWaiter, true_and, and_true]
  refine ⟨⟨fun _ _ p hp => ?_, fun c hc worker hworker _ => ?_⟩,
    ⟨fun _ hc => ?_, fun c _ worker hworker _ => ?_⟩, fun _ hc => ?_,
    fun c hc worker hworker _ => ?_⟩
  · obtain rfl := Option.some.inj hp
    exact fun h => WorkerPhase.noConfusion h
  · obtain rfl := Option.some.inj hworker
    exact fun h => WorkerPhase.noConfusion h
  · cases Option.some.inj hc
  · obtain rfl := Option.some.inj hworker
    exact fun h => WorkerPhase.noConfusion h
  · cases Option.some.inj hc
  · obtain rfl := Option.some.inj hworker
    exact fun h => WorkerPhase.noConfusion h

/-- A cancellation before the worker registers, and a hit while the worker is about to wait,
leave a worker asleep. A best move may come before the hit call has returned, and after a stop
that found the worker past its gate. -/
theorem ponder_run_fails :
    Stuck (last ponderStep (.init Unit)
        [.startPonder .first [['a']], .cancelPonder, .native,
          .spawn (some ([['a']], ⟨(), [], false⟩)) 0 ['b'], .worker true, .worker true,
          .worker true,
          .worker true, .worker true])
      ∧ Stuck (last ponderStep (.init Unit)
        [.startPonder .first [['a']], .spawn (some ([['a']], ⟨(), [], false⟩)) 0 ['b'],
          .worker true,
          .worker true, .worker true, .worker true, .deliver, .deliver,
          .applied (some ['a']) .first .second false ⟨(), [], false⟩, .native, .native, .native,
          .native, .worker true])
      ∧ ¬ Every ponderStep (Emits HitReturned) (.init Unit)
        [.startPonder .first [['a']], .spawn (some ([['a']], ⟨(), [], false⟩)) 0 ['b'],
          .worker true,
          .worker true, .worker true, .deliver, .deliver,
          .applied (some ['a']) .first .second false ⟨(), [], false⟩, .native, .native,
          .worker true,
          .worker true, .worker true]
      ∧ ¬ Every ponderStep (Emits HitReturned) (.init Unit)
        [.startPonder .first [['a']], .spawn (some ([['a']], ⟨(), [], false⟩)) 0 ['b'],
          .worker true,
          .worker true, .worker true, .deliver, .deliver,
          .applied (some ['a']) .first .second false ⟨(), [], false⟩, .native, .native, .native,
          .native, .worker true, .worker true, .cancelPonder, .native, .worker true] := by
  refine ⟨⟨rfl, _, rfl, .inl rfl, .inl rfl⟩, ⟨rfl, _, rfl, .inr rfl, .inl rfl⟩, ?_, ?_⟩
  · intro h
    simp only [Every] at h
    have hemits := h.2.2.2.2.2.2.2.2.2.2.2.2.1 _ rfl rfl
    exact absurd hemits.1 Bool.false_ne_true
  · intro h
    simp only [Every] at h
    have hemits := h.2.2.2.2.2.2.2.2.2.2.2.2.2.2.2.2.1 _ rfl rfl
    exact absurd hemits.2.2.symm Bool.false_ne_true

end Sanmill.Frb
