import Sanmill.Lib.Numerals

/-!
# Actions and snapshots

The two plain records every game of the framework shares (`tgf-core`): the
12-byte `Action`, and the immutable `GameStateSnapshot` whose payload only the
concrete game can read.

Node ids travel as `i16` with `-1` for "no node", so they are integers here and
not board nodes; the concrete game turns them into nodes after its own bounds
check.
-/

namespace Sanmill

/-- Game-neutral action encoding. -/
structure Action where
  /-- Per-game kind; `-1` = none. -/
  kindTag : Int
  /-- Origin node (`-1` for "place from hand"). -/
  fromNode : Int
  /-- Destination node. -/
  toNode : Int
  /-- Per-game auxiliary integer. -/
  aux : Int
  /-- Per-game compact bitfield. -/
  payloadBits : Nat
deriving DecidableEq, Repr

/-- Capacity of the action list of the rules; pushing past it panics. -/
def actionListCapacity : Nat := 256

/-- `SEARCH_ACTION_CAPACITY`, the capacity of the action list of the search. -/
def searchActionCapacity : Nat := 72

namespace ActionList

/-- `ArrayVec::push`; `none` where a full list panics. -/
def push (capacity : Nat) (out : List Action) (action : Action) : Option (List Action) :=
  if out.length < capacity then some (out ++ [action]) else none

/-- What a generator that pushes `actions` one by one makes of the list it is handed. -/
def pushAll (capacity : Nat) : List Action → List Action → Option (List Action)
  | out, [] => some out
  | out, action :: rest => (push capacity out action).bind fun out => pushAll capacity out rest

theorem pushAll_eq {capacity : Nat} {out : List Action} (hout : out.length ≤ capacity)
    (actions : List Action) :
    pushAll capacity out actions
      = if out.length + actions.length ≤ capacity then some (out ++ actions) else none := by
  induction actions generalizing out with
  | nil => simp [pushAll, hout]
  | cons action rest ih =>
    unfold pushAll push
    by_cases hroom : out.length < capacity
    · have hlonger : (out ++ [action]).length ≤ capacity := by
        rw [List.length_append, List.length_singleton]
        omega
      rw [if_pos hroom, Option.bind_some, ih hlonger]
      simp only [List.length_append, List.length_cons, List.length_nil, List.append_assoc,
        List.singleton_append, Nat.add_assoc, Nat.zero_add, Nat.add_comm 1]
    · rw [if_neg hroom, if_neg (by rw [List.length_cons]; omega)]
      rfl

/-- A fresh list takes what fits. -/
theorem pushAll_nil (capacity : Nat) (actions : List Action) :
    pushAll capacity [] actions = if actions.length ≤ capacity then some actions else none := by
  rw [pushAll_eq (Nat.zero_le _), List.length_nil, Nat.zero_add, List.nil_append]

end ActionList

/-- Size of the opaque per-game payload. -/
abbrev opaquePayloadLen : Nat := 320

/-- The opaque per-game payload: `[u8; 320]`. -/
abbrev Payload : Type := Fin opaquePayloadLen → BitVec 8

/-- Immutable, game-neutral state snapshot. -/
structure GameStateSnapshot where
  /-- 0 = first player, 1 = second, -1 = none (game over). -/
  sideToMove : Int
  /-- Per-game phase tag. -/
  phaseTag : Int
  /-- Plies played from the initial position (`i16`). -/
  moveNumber : BitVec 16
  /-- Zobrist key; 0 when the game does not use a transposition table. -/
  zobristKey : BitVec 64
  /-- Game-defined snapshot data. -/
  opaquePayload : Payload

/-- Coarse game outcome, as far as a two-player game emits it. -/
inductive OutcomeKind where
  | ongoing
  | win (player : Int)
  | draw
deriving DecidableEq, Repr

/-- An outcome and the stable token of its reason. -/
structure Outcome where
  kind : OutcomeKind
  reason : String
deriving DecidableEq, Repr

end Sanmill
