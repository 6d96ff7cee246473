import Sanmill.Lib.Json

/-!
# The record of an online room

A room of the online service is one record: who holds the seats, the actions that were
played and the position they lead to, the tickets with which a seat may open a socket,
the commands that were answered lately, and the request of one player that the other
has not answered. Times are milliseconds.
-/

namespace Sanmill.Online

/-- The numbers of the protocol. -/
def PROTOCOL_VERSION : Nat := 1
def ROOM_LIFETIME_MS : Nat := 24 * 60 * 60 * 1000
def TICKET_LIFETIME_MS : Nat := 60 * 1000
def CONTROL_REQUEST_LIFETIME_MS : Nat := 30 * 1000
def MAX_RECENT_COMMANDS : Nat := 64

/-- One of the two players. -/
inductive Seat where
  | first
  | second
deriving DecidableEq, Repr

/-- What the creator of a room asks for. -/
inductive SidePreference where
  | seat (seat : Seat)
  | random
deriving DecidableEq, Repr

/-- How far a room has come. -/
inductive RoomStatus where
  | waiting
  | active
  | ended
deriving DecidableEq, Repr

/-- Why a match ended. -/
inductive EndReason where
  | outcome
  | resign
  | left
deriving DecidableEq, Repr

/-- What a player can ask the other for. -/
inductive ControlKind where
  | takeBack
  | restart
  | boardTransform
deriving DecidableEq, Repr

/-- How a position stands. -/
inductive OutcomeKind where
  | ongoing
  | win
  | winTeam
  | draw
  | abandoned
deriving DecidableEq, Repr

/-- How a position stands, and why. -/
structure RuleOutcome where
  kind : OutcomeKind
  winner : Option Int
  reason : Text
deriving DecidableEq, Repr

/-- A position, as the rules report it. -/
structure RulePosition where
  snapshot : Text
  fen : Text
  sideToMove : Int
  outcome : RuleOutcome
deriving DecidableEq, Repr

/-- What the rule engine answers; a failure has no position. -/
structure RuleResult where
  ok : Bool
  error : Option Text
  snapshot : Option Text
  fen : Option Text
  sideToMove : Option Int
  outcome : Option RuleOutcome
deriving DecidableEq, Repr

/-- The symmetries that keep the rings. -/
inductive SpatialTransformation where
  | identity
  | rotate90
  | rotate180
  | rotate270
  | mirrorVertical
  | mirrorHorizontal
  | mirrorBackslash
  | mirrorSlash
deriving DecidableEq, Repr

/-- `TransformationDefinition`: one of the sixteen transformations. -/
structure BoardTransformation where
  spatial : SpatialTransformation
  swapRings : Bool
deriving DecidableEq, Repr

/-- A rating that `validEloRating` accepts. -/
structure EloRating where
  value : Int
  valid : 100 ≤ value ∧ value ≤ 4000
deriving DecidableEq

/-- A request that waits for the answer of the other player. -/
structure PendingControl where
  kind : ControlKind
  requestId : Text
  requester : Seat
  expiresAt : Nat
  steps : Option Nat
  transformation : Option BoardTransformation
deriving DecidableEq, Repr

/-- A ticket that opens a socket once, by its hash. -/
structure TicketRecord where
  hash : Text
  seat : Seat
  expiresAt : Nat
  used : Bool
deriving DecidableEq, Repr

/-- A command that was answered. -/
structure RecentCommand where
  id : Text
  seat : Seat
  error : Option Text
deriving DecidableEq, Repr

/-- The record of a room. -/
structure RoomState where
  roomId : Text
  protocolVersion : Nat
  appId : Text
  gameId : Text
  rulesetId : Text
  ruleOptions : Json.Members
  creatorSeat : Seat
  creatorEloRating : EloRating
  joinerEloRating : Option EloRating
  creatorTokenHash : Text
  joinerTokenHash : Option Text
  inviteTokenHash : Text
  inviteUsed : Bool
  status : RoomStatus
  createdAt : Nat
  expiresAt : Nat
  seq : Nat
  initialFen : Text
  position : RulePosition
  actions : List Text
  tickets : List TicketRecord
  recentCommands : List RecentCommand
  pendingControl : Option PendingControl
  hadTakeBack : Bool
  endReason : Option EndReason
  winnerSeat : Option Seat

/-- What a command asks for. -/
inductive CommandType where
  | action
  | takeBackRequest
  | takeBackResponse
  | restartRequest
  | restartResponse
  | boardTransformRequest
  | boardTransformResponse
  | resign
  | leave
deriving DecidableEq, Repr

/-- A command of a player, as its message has it. -/
structure ClientCommand where
  protocolVersion : ℚ
  commandId : Text
  expectedSeq : Nat
  type : CommandType
  payload : Json.Members

/-- The seat of the other player. -/
def opposite : Seat → Seat
  | .first => .second
  | .second => .first

/-- The seat that plays a side. -/
def seatForSide (side : Int) : Option Seat :=
  if side = 0 then some .first else if side = 1 then some .second else none

/-- `completeRuleResult` and `toPosition`: the position of a result that has all of it. -/
def completeRuleResult (result : RuleResult) : Option RulePosition :=
  if result.ok then do
    let snapshot ← result.snapshot
    let fen ← result.fen
    let sideToMove ← result.sideToMove
    let outcome ← result.outcome
    some { snapshot, fen, sideToMove, outcome }
  else none

end Sanmill.Online
