import Sanmill.Frb.ActiveSearch

/-!
# Pondering

The session starts a request, watches the opponent's actions, and cancels or promotes the
request. The native worker of the request registers, searches, waits at its gate, and emits a
best move or nothing. The session runs on one thread and its native calls are synchronous, so
between the steps of a call only the worker runs; between two calls both do.

A step of a call or of a worker is one access to what they share: the slot under its mutex,
the state of the gate, the condition variable. What a step finds blocked, it leaves as it is.
-/

namespace Sanmill.Frb

/-- Who plays, `none` where nobody does. -/
inductive PlayerSeat where
  | first
  | second
  | none
deriving DecidableEq, Repr

/-- The engine events that the protocol depends on. -/
inductive PonderEvent where
  | ready
  | ponderStarted (requestId : UInt32) (expected : List Text)
  | bestMove (move : Text)
  | stopped
  | error
deriving DecidableEq, Repr

/-! ## The worker -/

/-- How far the thread of a pondering worker has come. -/
inductive WorkerPhase where
  /-- Spawned, not yet registered. -/
  | starting
  | announcing
  /-- The sink refused an event. -/
  | failing
  | searching
  /-- In `wait_for_release`, before the gate is read. -/
  | checking
  /-- The gate said `PONDER_THINKING`; about to wait. -/
  | checked
  | asleep
  /-- The loop is left; about to read the gate again. -/
  | released
  /-- The gate said `PONDER_HIT`; about to emit the best move. -/
  | passed
  /-- About to call `clear_active_search`. -/
  | clearing
  | ended
deriving DecidableEq, Repr

/-- Between the registration and `clear_active_search`. -/
def WorkerPhase.registered : WorkerPhase → Bool
  | .starting | .ended => false
  | _ => true

/-- The gate is not read any more. -/
def WorkerPhase.leftGate : WorkerPhase → Bool
  | .passed | .clearing | .ended => true
  | _ => false

/-- What happened to a request so far. No step depends on it. -/
structure PonderHistory (σ : Type) where
  /-- The root of the hit call that changed the gate. -/
  hitOn : Option (PonderRoot σ)
  /-- `request_ponder_hit` returned true. -/
  hitReturned : Bool
  /-- A stop changed the gate. -/
  stopTook : Bool
  /-- A stop changed the gate before the worker left it. -/
  stopTookFirst : Bool

/-- A worker thread, with what it has sent and what happened to its gate. -/
structure PonderWorker (σ : Type) where
  /-- The handle of its flag and its gate. -/
  id : Nat
  spec : PonderSearchSpec σ
  moveTimeMs : UInt32
  /-- What its search will find. -/
  best : Text
  phase : WorkerPhase
  gate : GateState
  abort : Bool
  /-- What it emitted and the session has not received yet. -/
  emitted : List PonderEvent
  history : PonderHistory σ

variable {σ : Type}

namespace PonderWorker

/-- A worker as it is spawned. -/
def spawn (id : Nat) (spec : PonderSearchSpec σ) (moveTimeMs : UInt32) (best : Text) :
    PonderWorker σ where
  id
  spec
  moveTimeMs
  best
  phase := .starting
  gate := .thinking
  abort := false
  emitted := []
  history := ⟨none, false, false, false⟩

/-- Events are sent and the thread goes on. -/
def emit (worker : PonderWorker σ) (events : List PonderEvent) (phase : WorkerPhase) :
    PonderWorker σ :=
  { worker with emitted := worker.emitted ++ events, phase }

/-- The store of `PonderGate::stop`. -/
def stop (worker : PonderWorker σ) : PonderWorker σ :=
  { worker with
    gate := .stopped
    history :=
      { worker.history with
        stopTook := true
        stopTookFirst := worker.history.stopTookFirst || !worker.phase.leftGate } }

/-- The successful exchange of `PonderGate::hit`. -/
def hit (current : PonderRoot σ) (worker : PonderWorker σ) : PonderWorker σ :=
  { worker with gate := .hit, history := { worker.history with hitOn := some current } }

/-- `notify_all` reaches a worker only while it waits. -/
def wake (worker : PonderWorker σ) : PonderWorker σ :=
  if worker.phase = .asleep then { worker with phase := .checking } else worker

/-- The abort flag is set. -/
def requestAbort (worker : PonderWorker σ) : PonderWorker σ := { worker with abort := true }

/-- A hit was answered with success. -/
def hitReturned (worker : PonderWorker σ) : PonderWorker σ :=
  { worker with history := { worker.history with hitReturned := true } }

end PonderWorker

/-! ## The session -/

/-- How far `_runPonder` is. -/
inductive RunPonder (σ : Type) where
  /-- It waits for the prediction pass. -/
  | predicting
  /-- It has asked for the stream, and no worker has been spawned. -/
  | requested
  | streaming (worker : PonderWorker σ)
  /-- The stream brings an error only. -/
  | refused
  | ended

/-- The worker whose stream is being read. -/
def RunPonder.worker? : RunPonder σ → Option (PonderWorker σ)
  | .streaming worker => some worker
  | _ => none

/-- The worker with this handle is changed, if its stream is the one being read. -/
def RunPonder.update (id : Nat) (f : PonderWorker σ → PonderWorker σ) : RunPonder σ → RunPonder σ
  | .streaming worker => .streaming (if worker.id = id then f worker else worker)
  | run => run

/-- `_ActiveMillPonder`, with the local state of the call that serves it. -/
structure ActiveMillPonder (σ : Type) where
  requestId : UInt32
  opponentSeat : PlayerSeat
  expectedActions : Option (List Text)
  matchedActions : Nat
  nativeStreamStarted : Bool
  hit : Bool
  cancelled : Bool
  /-- The local variable of `_runPonder`. -/
  bestMove : Option Text
  run : RunPonder σ
  result : Option (Option Text)
  /-- The calls that wait for the end of the run. -/
  awaiting : Nat

/-- A native call of the session, by the step it takes next. -/
inductive NativeCall (σ : Type) where
  | stop (requestId : UInt32)
  | abortActive
  | hit (requestId : UInt32) (current : PonderRoot σ)
  /-- Under the mutex of the slot, after the store and before the notification. -/
  | stopping (ofHit : Bool) (gate abort : Nat)
  /-- Under the mutex of the slot, after the notification. -/
  | aborting (ofHit : Bool) (abort : Nat)
  /-- A hit that found an equal root, without the mutex, before the exchange. -/
  | exchanging (current : PonderRoot σ) (moveTimeMs : UInt32) (gate abort : Nat)
  /-- After the exchange and before the notification. -/
  | hitting (moveTimeMs : UInt32) (gate abort : Nat)
  | returnsTrue (gate : Nat)
  | returnsFalse

/-- The call holds the lock of the slot. -/
def NativeCall.holdsSlot : NativeCall σ → Bool
  | .stopping _ _ _ | .aborting _ _ => true
  | _ => false

/-- The session and the native side. -/
structure PonderWorld (σ : Type) where
  nextRequestId : UInt32
  /-- `_activePonder` of the session. -/
  ponder : Option (ActiveMillPonder σ)
  call : Option (NativeCall σ)
  active : Option (ActiveMillSearch σ)
  /-- The workers spawned so far. -/
  spawned : Nat
  timers : List Nat

namespace PonderWorld

/-- Before the first request. -/
def init (σ : Type) : PonderWorld σ := ⟨0, none, none, none, 0, []⟩

/-- The mutex of the slot is held by a call. -/
def slotHeld (w : PonderWorld σ) : Bool := w.call.any (·.holdsSlot)

/-- The request of the session is replaced. -/
def setPonder (w : PonderWorld σ) (ponder : ActiveMillPonder σ) : PonderWorld σ :=
  { w with ponder := some ponder }

/-- The worker of the current request; the workers of earlier ones have ended. -/
def worker? (w : PonderWorld σ) : Option (PonderWorker σ) := w.ponder.bind (·.run.worker?)

/-- Changes the worker behind a handle. -/
def updateWorker (w : PonderWorld σ) (id : Nat) (f : PonderWorker σ → PonderWorker σ) :
    PonderWorld σ :=
  { w with ponder := w.ponder.map fun ponder => { ponder with run := ponder.run.update id f } }

/-- `_requestPonderCancellation`; a request is cancelled once. -/
def requestPonderCancellation (w : PonderWorld σ) (ponder : ActiveMillPonder σ) :
    PonderWorld σ :=
  if ponder.cancelled then w.setPonder ponder
  else
    { w with
      ponder := some { ponder with cancelled := true }
      call := some (if ponder.nativeStreamStarted then .stop ponder.requestId else .abortActive) }

/-- `_runPonder` from the place where the prediction is known. -/
def startStream (ponder : ActiveMillPonder σ) : ActiveMillPonder σ :=
  { ponder with nativeStreamStarted := true, run := .requested }

/-- The `finally` clause of `_runPonder`. -/
def endRun (w : PonderWorld σ) (ponder : ActiveMillPonder σ) : PonderWorld σ :=
  let completed :=
    { ponder with
      run := .ended
      result := some (if ponder.hit && !ponder.cancelled then ponder.bestMove else none) }
  { w with ponder := if ponder.cancelled || !ponder.hit then none else some completed }

/-- `startPonder`: a request that is there is cancelled first, and the id 0 is passed over. -/
def startPonder (w : PonderWorld σ) (opponentSeat : PlayerSeat) (prediction : List Text) :
    PonderWorld σ :=
  if opponentSeat = .none then w
  else
    match w.ponder with
    | some previous => w.requestPonderCancellation previous
    | none =>
      let requestId := if w.nextRequestId + 1 = 0 then 1 else w.nextRequestId + 1
      let ponder : ActiveMillPonder σ :=
        { requestId
          opponentSeat
          expectedActions := none
          matchedActions := 0
          nativeStreamStarted := false
          hit := false
          cancelled := false
          bestMove := none
          run := .predicting
          result := none
          awaiting := 0 }
      { w with
        nextRequestId := requestId
        ponder := some (if prediction.isEmpty then ponder else startStream ponder) }

/-- The prediction pass is over. -/
def predicted (w : PonderWorld σ) (prediction : List Text) : PonderWorld σ :=
  match w.ponder with
  | none => w
  | some ponder =>
    match ponder.run with
    | .predicting =>
      if ponder.cancelled || prediction.isEmpty then w.endRun ponder
      else w.setPonder (startStream ponder)
    | _ => w

/-- `_observeAppliedActionForPonder`; `root` is what the live kernel has reached. -/
def observeAppliedAction (w : PonderWorld σ) (move : Option Text) (mover : PlayerSeat)
    (nextSeat : PlayerSeat) (nextTerminal : Bool) (root : PonderRoot σ) : PonderWorld σ :=
  match w.ponder with
  | none => w
  | some ponder =>
    if ponder.cancelled || ponder.hit then w
    else
      match ponder.expectedActions, move with
      | some expected, some move =>
        if mover = ponder.opponentSeat ∧ expected[ponder.matchedActions]? = some move then
          let ponder := { ponder with matchedActions := ponder.matchedActions + 1 }
          if nextSeat = ponder.opponentSeat && !nextTerminal then
            if ponder.matchedActions ≥ expected.length then w.requestPonderCancellation ponder
            else w.setPonder ponder
          else if nextTerminal || ponder.matchedActions ≠ expected.length then
            w.requestPonderCancellation ponder
          else { w.setPonder ponder with call := some (.hit ponder.requestId root) }
        else w.requestPonderCancellation ponder
      | _, _ => w.requestPonderCancellation ponder

/-- `cancelPonder` waits for the end of the request. -/
def cancelPonder (w : PonderWorld σ) : PonderWorld σ :=
  match w.ponder with
  | none => w
  | some ponder => w.requestPonderCancellation { ponder with awaiting := ponder.awaiting + 1 }

/-- `takePonderedAction` waits for the answer of a hit, and cancels anything else. -/
def takePonderedAction (w : PonderWorld σ) : PonderWorld σ :=
  match w.ponder with
  | none => w
  | some ponder =>
    if !ponder.hit || ponder.cancelled then w.cancelPonder
    else w.setPonder { ponder with awaiting := ponder.awaiting + 1 }

/-- A call that waited for the end of the run goes on. -/
def resume (w : PonderWorld σ) : PonderWorld σ :=
  match w.ponder with
  | none => w
  | some ponder =>
    match ponder.run with
    | .ended => if ponder.awaiting > 0 then { w with ponder := none } else w
    | _ => w

/-- The session handles the next event of the stream. -/
def receive (w : PonderWorld σ) (ponder : ActiveMillPonder σ) (event : PonderEvent) :
    PonderWorld σ :=
  if ponder.cancelled then w.setPonder ponder
  else
    match event with
    | .ponderStarted requestId expected =>
      if requestId ≠ ponder.requestId || expected.isEmpty then w.requestPonderCancellation ponder
      else w.setPonder { ponder with expectedActions := some expected }
    | .bestMove move => w.setPonder { ponder with bestMove := some move }
    | _ => w.setPonder ponder

/-- The next event of the stream, or its end. -/
def deliver (w : PonderWorld σ) : PonderWorld σ :=
  match w.ponder with
  | none => w
  | some ponder =>
    match ponder.run with
    | .streaming worker =>
      match worker.emitted with
      | event :: rest =>
        w.receive { ponder with run := .streaming { worker with emitted := rest } } event
      | [] => if worker.phase = .ended then w.endRun ponder else w
    | .refused => w.endRun ponder
    | _ => w

/-! ## Native steps -/

/-- The native side of `millPonderEvents` spawns a worker, or refuses the prediction. -/
def spawn (w : PonderWorld σ) (root : Option (List Text × PonderRoot σ)) (moveTimeMs : UInt32)
    (best : Text) : PonderWorld σ :=
  match w.ponder with
  | none => w
  | some ponder =>
    match ponder.run with
    | .requested =>
      match root with
      | none => w.setPonder { ponder with run := .refused }
      | some (expectedActions, predicted) =>
        let worker :=
          PonderWorker.spawn w.spawned ⟨ponder.requestId, expectedActions, predicted⟩
            moveTimeMs best
        { w.setPonder { ponder with run := .streaming worker } with spawned := w.spawned + 1 }
    | _ => w

/-- The next step of the native call that the session is in. -/
def native [DecidableEq σ] (w : PonderWorld σ) : PonderWorld σ :=
  match w.call with
  | none => w
  | some (.stop requestId) =>
    match matchingPonder w.active requestId with
    | none => { w with call := none }
    | some (active, ponder) =>
      { w.updateWorker ponder.gate .stop with
        call := some (.stopping false ponder.gate active.abort) }
  | some .abortActive =>
    match w.active with
    | none => { w with call := none }
    | some active =>
      match active.ponder with
      | none => { w with call := some (.aborting false active.abort) }
      | some ponder =>
        { w.updateWorker ponder.gate .stop with
          call := some (.stopping false ponder.gate active.abort) }
  | some (.hit requestId current) =>
    match matchingPonder w.active requestId with
    | none => { w with call := some .returnsFalse }
    | some (active, ponder) =>
      if ponder.predicted = current then
        { w with call := some (.exchanging current ponder.moveTimeMs ponder.gate active.abort) }
      else
        { w.updateWorker ponder.gate .stop with
          call := some (.stopping true ponder.gate active.abort) }
  | some (.stopping ofHit gate abort) =>
    { w.updateWorker gate .wake with call := some (.aborting ofHit abort) }
  | some (.aborting ofHit abort) =>
    { w.updateWorker abort .requestAbort with call := if ofHit then some .returnsFalse else none }
  | some (.exchanging current moveTimeMs gate abort) =>
    match w.worker? with
    | some worker =>
      if worker.id = gate ∧ worker.gate = .thinking then
        { w.updateWorker gate (.hit current) with call := some (.hitting moveTimeMs gate abort) }
      else { w with call := some .returnsFalse }
    | none => { w with call := some .returnsFalse }
  | some (.hitting moveTimeMs gate abort) =>
    { w.updateWorker gate .wake with
      call := some (.returnsTrue gate)
      timers := if moveTimeMs > 0 then w.timers ++ [abort] else w.timers }
  | some (.returnsTrue gate) =>
    let returned := w.updateWorker gate .hitReturned
    { returned with
      ponder := returned.ponder.map fun ponder => { ponder with hit := true }
      call := none }
  | some .returnsFalse =>
    match w.ponder with
    | none => { w with call := none }
    | some ponder => { w with call := none }.requestPonderCancellation ponder

/-- `request_abort_active_search`, called by a worker; nobody waits at the gate meanwhile. -/
def abortActive (w : PonderWorld σ) : PonderWorld σ :=
  match w.active with
  | none => w
  | some active =>
    match active.ponder with
    | none => w.updateWorker active.abort .requestAbort
    | some ponder =>
      ((w.updateWorker ponder.gate .stop).updateWorker ponder.gate .wake).updateWorker active.abort
        .requestAbort

/-- The next step of a worker. `ok` is false when its configuration is refused, or its sink. -/
def workerStep (w : PonderWorld σ) (ponder : ActiveMillPonder σ) (worker : PonderWorker σ)
    (ok : Bool) : PonderWorld σ :=
  let go (worker : PonderWorker σ) := w.setPonder { ponder with run := .streaming worker }
  match worker.phase with
  | .starting =>
    if ok then
      if w.slotHeld then w
      else
        { go { worker with phase := .announcing } with
          active := some (.register worker.id (some worker.spec) worker.moveTimeMs) }
    else go (worker.emit [.error, .stopped] .ended)
  | .announcing =>
    if ok then
      go (worker.emit [.ready, .ponderStarted worker.spec.requestId worker.spec.expectedActions]
        .searching)
    else go { worker with phase := .failing }
  | .failing =>
    if w.slotHeld then w
    else w.abortActive.updateWorker worker.id ({ · with phase := .clearing })
  | .searching => go { worker with phase := .checking }
  | .checking =>
    if worker.gate = .thinking then go { worker with phase := .checked }
    else go { worker with phase := .released }
  | .checked => go { worker with phase := .asleep }
  -- a wait may end without a notification
  | .asleep => go { worker with phase := .checking }
  | .released =>
    if worker.gate = .hit then go { worker with phase := .passed }
    else go (worker.emit [.stopped] .clearing)
  | .passed => go (worker.emit [.bestMove worker.best, .stopped] .clearing)
  | .clearing =>
    if w.slotHeld then w
    else
      { go { worker with phase := .ended } with
        active := clearActiveSearch (some worker.spec.requestId) w.active }
  | .ended => w

/-- The move time of a hit is over. -/
def timer (w : PonderWorld σ) (index : Nat) : PonderWorld σ :=
  match w.timers[index]? with
  | none => w
  | some id =>
    { w.updateWorker id fun worker =>
        if worker.gate = .hit then worker.requestAbort else worker with
      timers := w.timers.eraseIdx index }

end PonderWorld

/-- What the session, the native calls and the worker thread do, one at a time. -/
inductive PonderStep (σ : Type) where
  | startPonder (opponentSeat : PlayerSeat) (prediction : List Text)
  | predicted (prediction : List Text)
  | applied (move : Option Text) (mover nextSeat : PlayerSeat) (nextTerminal : Bool)
      (root : PonderRoot σ)
  | cancelPonder
  | takePonderedAction
  | resume
  | deliver
  | spawn (root : Option (List Text × PonderRoot σ)) (moveTimeMs : UInt32) (best : Text)
  | native
  | worker (ok : Bool)
  | timer (index : Nat)

/-- The session takes its own steps only while it is in no native call. -/
def ponderStep [DecidableEq σ] (w : PonderWorld σ) : PonderStep σ → PonderWorld σ
  | .startPonder opponentSeat prediction =>
    if w.call.isNone then w.startPonder opponentSeat prediction else w
  | .predicted prediction => if w.call.isNone then w.predicted prediction else w
  | .applied move mover nextSeat nextTerminal root =>
    if w.call.isNone then w.observeAppliedAction move mover nextSeat nextTerminal root else w
  | .cancelPonder => if w.call.isNone then w.cancelPonder else w
  | .takePonderedAction => if w.call.isNone then w.takePonderedAction else w
  | .resume => if w.call.isNone then w.resume else w
  | .deliver => if w.call.isNone then w.deliver else w
  | .spawn root moveTimeMs best => w.spawn root moveTimeMs best
  | .native => w.native
  | .worker ok =>
    match w.ponder with
    | none => w
    | some ponder =>
      match ponder.run with
      | .streaming worker => w.workerStep ponder worker ok
      | _ => w
  | .timer index => w.timer index

end Sanmill.Frb
