import Sanmill.Lib.Run
import Sanmill.Lib.Text

/-!
# The active search

One slot, `ACTIVE_SEARCH`, refers to the search worker that registered last. The stop and
ponder-hit entry points find a worker through it, and a worker that ends empties it. Each of
them holds the mutex of the slot while it reads and writes the slot and the abort flags; a hit
lets go of it before it changes the gate, which no access to the slot depends on.
-/

namespace Sanmill.Frb

/-- `PONDER_THINKING`, `PONDER_HIT` and `PONDER_STOPPED`. -/
inductive GateState where
  | thinking
  | hit
  | stopped
deriving DecidableEq, Repr

/-- The root of a search: a snapshot and what its repetitions depend on. -/
structure PonderRoot (σ : Type) where
  snapshot : σ
  repetitionHistory : List UInt64
  rootResetsRepetition : Bool
deriving DecidableEq

/-- What a pondering search is started with. -/
structure PonderSearchSpec (σ : Type) where
  requestId : UInt32
  /-- In UCI notation, as `ponder_started` announces them. -/
  expectedActions : List Text
  predicted : PonderRoot σ

/-! A handle to the abort flag or to the gate of a worker is the place of the worker in the
order in which the workers registered. -/

structure ActivePonderSearch (σ : Type) where
  requestId : UInt32
  moveTimeMs : UInt32
  predicted : PonderRoot σ
  gate : Nat

/-- The occupied slot: the abort flag of a worker, and what it ponders on. -/
structure ActiveMillSearch (σ : Type) where
  abort : Nat
  ponder : Option (ActivePonderSearch σ)

/-- What a worker shares with its registration, and whether it has ended. -/
structure SearchWorker where
  ponderRequestId : Option UInt32
  abort : Bool
  gate : GateState
  running : Bool

/-- The slot, every worker that has registered, and the timers that run. -/
structure SearchWorld (σ : Type) where
  active : Option (ActiveMillSearch σ)
  workers : List SearchWorker
  /-- The threads that wait out the move time of a hit. -/
  timers : List Nat

/-- Before the first search. -/
def SearchWorld.init (σ : Type) : SearchWorld σ := ⟨none, [], []⟩

variable {σ : Type}

/-! ## The gate and the abort flag -/

/-- `Thinking` becomes `Hit`; a gate that was left before stays as it is. -/
def SearchWorker.hit (w : SearchWorker) : SearchWorker :=
  if w.gate = .thinking then { w with gate := .hit } else w

/-- The gate is `Stopped`, whatever it was. -/
def SearchWorker.stop (w : SearchWorker) : SearchWorker := { w with gate := .stopped }

/-- The abort flag is set. -/
def SearchWorker.requestAbort (w : SearchWorker) : SearchWorker := { w with abort := true }

/-- One worker is changed. -/
def SearchWorld.update (w : SearchWorld σ) (i : Nat) (f : SearchWorker → SearchWorker) :
    SearchWorld σ :=
  { w with workers := w.workers.modify i f }

/-! ## The slot -/

/-- The slot as a worker that registers fills it. -/
def ActiveMillSearch.register (worker : Nat) (ponder : Option (PonderSearchSpec σ))
    (ordinaryMoveTimeMs : UInt32) : ActiveMillSearch σ where
  abort := worker
  ponder := ponder.map fun spec =>
    { requestId := spec.requestId
      moveTimeMs := ordinaryMoveTimeMs
      predicted := spec.predicted
      gate := worker }

/-- A pondering worker is told by its request id; ordinary ones are not told apart. -/
def shouldClear (ponderRequestId : Option UInt32) (current : ActiveMillSearch σ) : Bool :=
  match ponderRequestId, current.ponder with
  | some expected, some ponder => ponder.requestId = expected
  | none, none => true
  | _, _ => false

/-- `clear_active_search`: the slot is emptied if the ended worker may clear it. -/
def clearActiveSearch (ponderRequestId : Option UInt32) (active : Option (ActiveMillSearch σ)) :
    Option (ActiveMillSearch σ) :=
  if active.any (shouldClear ponderRequestId) then none else active

/-- The ponder registration that the stop and hit entry points act on. -/
def matchingPonder (active : Option (ActiveMillSearch σ)) (requestId : UInt32) :
    Option (ActiveMillSearch σ × ActivePonderSearch σ) :=
  match active with
  | none => none
  | some current =>
    match current.ponder with
    | none => none
    | some ponder => if ponder.requestId = requestId then some (current, ponder) else none

/-- `request_abort_active_search`: whether a search was there to be aborted. -/
def requestAbortActiveSearch (w : SearchWorld σ) : Bool × SearchWorld σ :=
  match w.active with
  | none => (false, w)
  | some active =>
    match active.ponder with
    | none => (true, w.update active.abort .requestAbort)
    | some ponder => (true, (w.update ponder.gate .stop).update active.abort .requestAbort)

/-- `request_stop_ponder`: the gate is closed before the search is aborted. -/
def requestStopPonder (requestId : UInt32) (w : SearchWorld σ) : Bool × SearchWorld σ :=
  match matchingPonder w.active requestId with
  | none => (false, w)
  | some (active, ponder) =>
    (true, (w.update ponder.gate .stop).update active.abort .requestAbort)

/-- `request_ponder_hit`: the gate opens on the predicted root, and closes on any other. -/
def requestPonderHit [DecidableEq σ] (requestId : UInt32) (current : PonderRoot σ)
    (w : SearchWorld σ) : Bool × SearchWorld σ :=
  match matchingPonder w.active requestId with
  | none => (false, w)
  | some (active, ponder) =>
    if ponder.predicted = current then
      match w.workers[ponder.gate]? with
      | some ⟨_, _, .thinking, _⟩ =>
        let promoted := w.update ponder.gate .hit
        if ponder.moveTimeMs > 0 then
          (true, { promoted with timers := promoted.timers ++ [active.abort] })
        else (true, promoted)
      | _ => (false, w)
    else (false, (w.update ponder.gate .stop).update active.abort .requestAbort)

/-! ## Workers -/

/-- What the callers and the worker threads do, one at a time. -/
inductive SearchEvent (σ : Type) where
  /-- A worker, ordinary or pondering, registers. -/
  | register (ponder : Option (PonderSearchSpec σ)) (ordinaryMoveTimeMs : UInt32)
  /-- A worker calls `clear_active_search` and ends. -/
  | finish (worker : Nat)
  | abortActive
  | stopPonder (requestId : UInt32)
  | ponderHit (requestId : UInt32) (current : PonderRoot σ)
  /-- The move time of a hit is over. -/
  | timer (index : Nat)

/-- A worker takes the slot, whoever held it. -/
def registerWorker (w : SearchWorld σ) (ponder : Option (PonderSearchSpec σ))
    (ordinaryMoveTimeMs : UInt32) : SearchWorld σ :=
  { w with
    active := some (.register w.workers.length ponder ordinaryMoveTimeMs)
    workers := w.workers ++ [⟨ponder.map (·.requestId), false, .thinking, true⟩] }

/-- A worker that still runs clears the slot for its kind and ends. -/
def finishWorker (w : SearchWorld σ) (worker : Nat) : SearchWorld σ :=
  match w.workers[worker]? with
  | some ⟨ponderRequestId, _, _, true⟩ =>
    { w.update worker ({ · with running := false }) with
      active := clearActiveSearch ponderRequestId w.active }
  | _ => w

/-- The search of a hit is aborted once its move time is over. -/
def fireTimer (w : SearchWorld σ) (index : Nat) : SearchWorld σ :=
  match w.timers[index]? with
  | none => w
  | some worker =>
    { w.update worker fun x => if x.gate = .hit then x.requestAbort else x with
      timers := w.timers.eraseIdx index }

/-- One event. -/
def searchStep [DecidableEq σ] (w : SearchWorld σ) : SearchEvent σ → SearchWorld σ
  | .register ponder ordinaryMoveTimeMs => registerWorker w ponder ordinaryMoveTimeMs
  | .finish worker => finishWorker w worker
  | .abortActive => (requestAbortActiveSearch w).2
  | .stopPonder requestId => (requestStopPonder requestId w).2
  | .ponderHit requestId current => (requestPonderHit requestId current w).2
  | .timer index => fireTimer w index

end Sanmill.Frb
