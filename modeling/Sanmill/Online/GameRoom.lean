import Sanmill.Online.RuleEngine

/-!
# The handlers of a room

A room is a durable object: its record is in storage, each handler loads the record,
checks a request against it, and stores the record again. A socket message and an alarm
are handled without a pause. The other requests wait for a request body or a digest
between loading and storing, and other handlers may run in the meantime; such a handler
is modelled by the points where it waits, with the record it has loaded.
-/

namespace Sanmill.Online

/-! ## Requests -/

/-- The characters of base64url. -/
def isTokenChar (c : Char) : Bool :=
  ('A' ≤ c ∧ c ≤ 'Z') ∨ ('a' ≤ c ∧ c ≤ 'z') ∨ ('0' ≤ c ∧ c ≤ '9') ∨ c = '_' ∨ c = '-'

/-- The characters of a name. -/
def isNameChar (c : Char) : Bool :=
  ('a' ≤ c ∧ c ≤ 'z') ∨ ('0' ≤ c ∧ c ≤ '9') ∨ c = '.' ∨ c = '_' ∨ c = '-'

/-- Twenty-two characters of base64url. -/
def validRoomId (value : Text) : Bool := value.length = 22 && value.all isTokenChar

/-- Forty-three characters of base64url. -/
def validSecretToken (value : Text) : Bool := value.length = 43 && value.all isTokenChar

/-- `validEloRating`; the record holds valid ratings only, so loading it repairs nothing. -/
def validEloRating (value : Json) : Option EloRating :=
  value.asInteger.bind fun n => if h : 100 ≤ n ∧ n ≤ 4000 then some ⟨n, h⟩ else none

/-- The rating of who has none. -/
def defaultEloRating : EloRating := ⟨1400, by decide⟩

/-- An optional rating: absent, or a member that is valid. -/
def optionalRating (value : Option Json) : Option (Option EloRating) :=
  match value with
  | none => some none
  | some value => (validEloRating value).map some

/-- The token of a header `Bearer ..`. -/
def bearerToken (authorization : Text) : Option Text :=
  let scheme := "Bearer ".toList
  let token := authorization.drop scheme.length
  if scheme.isPrefixOf authorization ∧ validSecretToken token then some token else none

/-- Compares every code unit, so that the time does not tell where two hashes differ. -/
def equalTokenHash (left right : Text) : Bool := left = right

/-- An answer that is an error. -/
structure HttpError where
  status : Nat
  code : String
deriving DecidableEq, Repr

/-- The answer to a request. -/
inductive Response where
  | protocolError (error : HttpError)
  | joined (seat : Seat) (seatToken : Text)
  | ticket (ticket : Text) (expiresAt : Nat)
  | socket (seat : Seat)
  | canceled
deriving DecidableEq, Repr

/-! ## Creating a room -/

/-- What a room is created from. -/
structure CreateRoomBody where
  appId : Text
  gameId : Text
  rulesetId : Text
  ruleOptions : Json.Members
  sidePreference : SidePreference
  eloRating : Option EloRating

/-- The side that the creator asks for. -/
def parseSidePreference (value : Text) : Option SidePreference :=
  if value = "first".toList then some (.seat .first)
  else if value = "second".toList then some (.seat .second)
  else if value = "random".toList then some .random
  else none

/-- `validCreateBody`, and the members it leaves. -/
def validCreateBody (body : Json.Members) : Option CreateRoomBody := do
  let appId ← (body.get "appId").bind Json.asString
  let gameId ← (body.get "gameId").bind Json.asString
  let rulesetId ← (body.get "rulesetId").bind Json.asString
  let ruleOptions ← (body.get "ruleOptions").bind Json.asObject
  let sidePreference ← ((body.get "sidePreference").bind Json.asString).bind parseSidePreference
  let eloRating ← optionalRating (body.get "eloRating")
  let named (text : Text) (limit : Nat) (p : Char → Bool) : Bool :=
    1 ≤ text.length && text.length ≤ limit && text.all p
  if named appId 48 isNameChar ∧ named gameId 48 isNameChar
      ∧ named rulesetId 64 (fun c => isNameChar c || c = ':') then
    some { appId, gameId, rulesetId, ruleOptions, sidePreference, eloRating }
  else none

/-- The version in a body: 400 when it is no number, 409 when it is another one. -/
def checkVersion (body : Json.Members) (code : String) : Except HttpError Unit :=
  match (body.get "protocolVersion").bind Json.asNumber with
  | none => .error ⟨400, code⟩
  | some version =>
    if version = PROTOCOL_VERSION then .ok () else .error ⟨409, "version_mismatch"⟩

/-- What the platform draws for a new room. -/
structure CreateSupply where
  now : Nat
  roomId : Text
  creatorToken : Text
  inviteToken : Text
  randomSeat : Seat

/-- `create`, from a body that was read while there was no room. -/
def create (mill : OnlineRuleAdapter) (tokenHash : Text → Text) (supply : CreateSupply)
    (body : Json.Members) : Except HttpError RoomState := do
  checkVersion body "invalid_request"
  let some body := validCreateBody body | .error ⟨400, "invalid_request"⟩
  let some adapter := ruleAdapterFor mill body.gameId body.rulesetId
    | .error ⟨409, "invalid_ruleset"⟩
  let some result := adapter.create body.ruleOptions
    | .error ⟨500, "service_unavailable"⟩
  let some position := completeRuleResult result | .error ⟨400, "invalid_ruleset"⟩
  if validRoomId supply.roomId = false then .error ⟨400, "invalid_request"⟩
  else .ok {
    roomId := supply.roomId
    protocolVersion := PROTOCOL_VERSION
    appId := body.appId
    gameId := body.gameId
    rulesetId := body.rulesetId
    ruleOptions := body.ruleOptions
    creatorSeat := match body.sidePreference with
      | .seat seat => seat
      | .random => supply.randomSeat
    creatorEloRating := body.eloRating.getD defaultEloRating
    joinerEloRating := none
    creatorTokenHash := tokenHash supply.creatorToken
    joinerTokenHash := none
    inviteTokenHash := tokenHash supply.inviteToken
    inviteUsed := false
    status := .waiting
    createdAt := supply.now
    expiresAt := supply.now + ROOM_LIFETIME_MS
    seq := 0
    initialFen := position.fen
    position
    actions := []
    tickets := []
    recentCommands := []
    pendingControl := none
    hadTakeBack := false
    endReason := none
    winnerSeat := none }

/-! ## Socket messages -/

/-- What a room sends; the events carry the record that is left. -/
inductive ServerEvent where
  | error (error : String) (commandId : Option Text)
  | state (commandId : Option Text)
  | controlRequest (request : PendingControl)
  | controlResult (kind : ControlKind) (requestId : Text) (accepted : Bool)
  | opponentResigned
  | opponentLeft
deriving DecidableEq, Repr

/-- What a handler sends. -/
inductive Outgoing where
  | send (event : ServerEvent)
  | broadcast (event : ServerEvent) (excludedSeat : Option Seat)
  | close (code : Nat)
deriving DecidableEq, Repr

/-- What became of a message. -/
inductive Verdict where
  | accepted
  | repeated
  | refused
  | failed
deriving DecidableEq, Repr

/-- The record a handler leaves in storage, what it sends, and its verdict. -/
structure Handled where
  room : Option RoomState
  sent : List Outgoing
  verdict : Verdict

/-- A message as the socket delivers it; `decoded` is what the JSON parser makes of it. -/
inductive Frame where
  | binary
  | text (length : Nat) (decoded : Option Json)

/-- The commands by name. -/
def parseCommandType (value : Text) : Option CommandType :=
  let types : List (String × CommandType) :=
    [("action", .action), ("takeBackRequest", .takeBackRequest),
      ("takeBackResponse", .takeBackResponse), ("restartRequest", .restartRequest),
      ("restartResponse", .restartResponse), ("boardTransformRequest", .boardTransformRequest),
      ("boardTransformResponse", .boardTransformResponse), ("resign", .resign), ("leave", .leave)]
  (types.find? fun entry => entry.1.toList = value).map Prod.snd

/-- A command with all its members. -/
def parseCommand (decoded : Json) : Option ClientCommand := do
  let value ← decoded.asObject
  let protocolVersion ← (value.get "protocolVersion").bind Json.asNumber
  let commandId ← (value.get "commandId").bind Json.asString
  let expectedSeq ← (value.get "expectedSeq").bind Json.asInteger
  let type ← ((value.get "type").bind Json.asString).bind parseCommandType
  let payload ← (value.get "payload").bind Json.asObject
  if (8 ≤ commandId.length ∧ commandId.length ≤ 128 ∧ commandId.all isTokenChar)
      ∧ 0 ≤ expectedSeq then
    some { protocolVersion, commandId, expectedSeq := expectedSeq.toNat, type, payload }
  else none

/-- The id of a command is kept, and the oldest forgotten. -/
def remember (state : RoomState) (seat : Seat) (id : Text) (error : Option Text) : RoomState :=
  let recent := state.recentCommands ++ [⟨id, seat, error⟩]
  { state with recentCommands := recent.drop (recent.length - MAX_RECENT_COMMANDS) }

/-- A command is refused, and remembered as refused. -/
def rejectCommand (state : RoomState) (seat : Seat) (command : ClientCommand) (error : String) :
    Handled :=
  { room := some (remember state seat command.commandId (some error.toList))
    sent := [.send (.error error (some command.commandId))]
    verdict := .refused }

/-- A handler that throws stores nothing. -/
def failCommand (state : RoomState) (command : ClientCommand) : Handled :=
  { room := some state
    sent := [.send (.error "service_unavailable" (some command.commandId))]
    verdict := .failed }

/-- `applyAction` of the room. -/
def applyAction (mill : OnlineRuleAdapter) (state : RoomState) (seat : Seat)
    (command : ClientCommand) : Handled :=
  let action := (command.payload.get "action").bind Json.asString
  if state.status ≠ .active ∨ action = none ∨ action = some []
      ∨ seatForSide state.position.sideToMove ≠ some seat ∨ state.pendingControl.isSome then
    rejectCommand state seat command "action_rejected"
  else
    let action := action.getD []
    match ruleAdapterFor mill state.gameId state.rulesetId with
    | none => failCommand state command
    | some adapter =>
      match adapter.apply state.ruleOptions state.position.snapshot action with
      | none => failCommand state command
      | some result =>
        match completeRuleResult result with
        | none => rejectCommand state seat command "action_rejected"
        | some position =>
          let state := { state with
            position, actions := state.actions ++ [action], seq := state.seq + 1 }
          let state := remember state seat command.commandId none
          let state :=
            if position.outcome.kind ≠ .ongoing then
              { state with
                status := .ended
                endReason := some .outcome
                winnerSeat := seatForSide (position.outcome.winner.getD (-1)) }
            else state
          { room := some state
            sent := [.broadcast (.state (some command.commandId)) none]
            verdict := .accepted }

/-- The number of actions a take-back names, when it is positive. -/
def requestedSteps (command : ClientCommand) : Option Nat :=
  ((command.payload.get "steps").bind Json.asInteger).bind fun n =>
    if 0 < n then some n.toNat else none

/-- A player asks for something that the other has to agree to. -/
def requestControl (now : Nat) (state : RoomState) (seat : Seat) (command : ClientCommand)
    (kind : ControlKind) : Handled :=
  let steps := if kind = .takeBack then requestedSteps command else none
  let transformation :=
    if kind = .boardTransform then isBoardTransformation (command.payload.get "transformation")
    else none
  if state.status ≠ .active ∨ state.pendingControl.isSome
      ∨ (kind = .takeBack ∧ (steps = none ∨ state.actions.length < steps.getD 0))
      ∨ (kind = .boardTransform ∧ transformation = none) then
    rejectCommand state seat command "action_rejected"
  else
    let expiresAt := min (now + CONTROL_REQUEST_LIFETIME_MS) state.expiresAt
    let request : PendingControl :=
      { kind, requestId := command.commandId, requester := seat, expiresAt, steps, transformation }
    let state := { state with pendingControl := some request, seq := state.seq + 1 }
    { room := some (remember state seat command.commandId none)
      sent := [.send (.state (some command.commandId)),
        .broadcast (.controlRequest request) (some seat)]
      verdict := .accepted }

/-- `splice`: `deleteCount` items less from `start` on, a negative `start` counted from the end. -/
def splice {α : Type*} (items : List α) (start : Int) (deleteCount : Nat) : List α :=
  let first := (if start < 0 then items.length + start else start).toNat
  items.take first ++ items.drop (first + deleteCount)

/-- The request a response answers: one of its kind, by the other player, under its name. -/
def answeredControl (state : RoomState) (seat : Seat) (command : ClientCommand)
    (kind : ControlKind) : Option PendingControl :=
  state.pendingControl.filter fun pending =>
    pending.kind = kind ∧ pending.requester ≠ seat
      ∧ (command.payload.get "requestId").bind Json.asString = some pending.requestId
      ∧ (kind = .boardTransform →
        isBoardTransformation (command.payload.get "transformation") = pending.transformation)

/-- What an accepted request makes of the game; `none` where the source throws. -/
def grantControl (mill : OnlineRuleAdapter) (state : RoomState) (pending : PendingControl) :
    Option RoomState :=
  match pending.kind with
  | .takeBack => do
    let steps := pending.steps.getD 0
    let state := { state with
      actions := splice state.actions (state.actions.length - steps) steps }
    let position ← replayActions mill state
    some { state with position, status := .active, hadTakeBack := true }
  | .restart => do
    let state := { state with actions := [] }
    let position ← replayActions mill state
    some { state with position, status := .active, hadTakeBack := false }
  | .boardTransform => do
    let transformation ← pending.transformation
    let state := { state with
      actions := state.actions.map fun action => transformMillAction action transformation }
    let position ← replayActions mill state
    some { state with position, status := .active }

/-- The other player answers; the status of the room is not asked for. -/
def respondControl (mill : OnlineRuleAdapter) (state : RoomState) (seat : Seat)
    (command : ClientCommand) (kind : ControlKind) : Handled :=
  let accepted := (command.payload.get "accepted").bind Json.asBool
  match answeredControl state seat command kind, accepted with
  | some pending, some accepted =>
    match if accepted then grantControl mill state pending else some state with
    | none => failCommand state command
    | some state =>
      let state := { state with pendingControl := none, seq := state.seq + 1 }
      { room := some (remember state seat command.commandId none)
        sent := [.broadcast (.controlResult kind pending.requestId accepted) none]
        verdict := .accepted }
  | _, _ => rejectCommand state seat command "action_rejected"

/-- `resign` and `leave` end an active game. -/
def endGame (state : RoomState) (seat : Seat) (command : ClientCommand) (reason : EndReason)
    (winnerSeat : Option Seat) (sent : List Outgoing) : Handled :=
  if state.status ≠ .active then rejectCommand state seat command "action_rejected"
  else
    let state := remember state seat command.commandId none
    { room := some { state with
        status := .ended, endReason := some reason, winnerSeat, seq := state.seq + 1 }
      sent
      verdict := .accepted }

/-- A command of a player: checked, answered and remembered. -/
def handleCommand (mill : OnlineRuleAdapter) (now : Nat) (state : RoomState) (seat : Seat)
    (command : ClientCommand) : Handled :=
  match command.type with
  | .action => applyAction mill state seat command
  | .takeBackRequest => requestControl now state seat command .takeBack
  | .restartRequest => requestControl now state seat command .restart
  | .boardTransformRequest => requestControl now state seat command .boardTransform
  | .takeBackResponse => respondControl mill state seat command .takeBack
  | .restartResponse => respondControl mill state seat command .restart
  | .boardTransformResponse => respondControl mill state seat command .boardTransform
  | .resign =>
    endGame state seat command .resign (some (opposite seat))
      [.send (.state (some command.commandId)), .broadcast .opponentResigned (some seat)]
  | .leave =>
    endGame state seat command .left none
      [.broadcast .opponentLeft (some seat), .send (.state (some command.commandId)), .close 1000]

/-- The first half of `webSocketMessage`: the command to handle, or the message's end. -/
def admitCommand (now : Nat) (room : Option RoomState) (attachment : Option Seat)
    (frame : Frame) : Except Handled (RoomState × Seat × ClientCommand) :=
  match attachment, frame with
  | some seat, .text length decoded =>
    if 64 * 1024 < length then
      .error ⟨room, [.send (.error "protocol_error" none)], .refused⟩
    else match room with
      | none => .error ⟨none, [.send (.error "room_unavailable" none), .close 4004], .refused⟩
      | some state =>
        if state.expiresAt ≤ now then
          .error ⟨room, [.send (.error "room_unavailable" none), .close 4004], .refused⟩
        else match decoded.bind parseCommand with
          | none => .error ⟨room, [.send (.error "protocol_error" none)], .refused⟩
          | some command =>
            if command.protocolVersion ≠ PROTOCOL_VERSION then
              .error (rejectCommand state seat command "version_mismatch")
            else match state.recentCommands.find? fun item => item.id = command.commandId with
              | some item =>
                .error ⟨room,
                  [.send (if item.seat ≠ seat then .error "protocol_error" (some command.commandId)
                    else match item.error with
                      | some error => .error (String.ofList error) (some command.commandId)
                      | none => .state (some command.commandId))], .repeated⟩
              | none =>
                if command.expectedSeq ≠ state.seq then
                  .error (rejectCommand state seat command "stale_revision")
                else .ok (state, seat, command)
  | _, _ => .error ⟨room, [.send (.error "protocol_error" none)], .refused⟩

/-- A message that arrives at the room. -/
def webSocketMessage (mill : OnlineRuleAdapter) (now : Nat) (room : Option RoomState)
    (attachment : Option Seat) (frame : Frame) : Handled :=
  match admitCommand now room attachment frame with
  | .error handled => handled
  | .ok (state, seat, command) => handleCommand mill now state seat command

/-- `alarm`: a request that was not answered in time is dropped, an expired room deleted. -/
def alarm (room : Option RoomState) : Option RoomState :=
  match room with
  | none => none
  | some state =>
    match state.pendingControl with
    | some pending =>
      if pending.expiresAt < state.expiresAt then
        some { state with pendingControl := none, seq := state.seq + 1 }
      else none
    | none => none

/-! ## Requests that wait -/

/-- A request that waits on its way. -/
inductive Request where
  | join
  | issueTicket (authorization : Text)
  | acceptSocket (upgrade : Bool) (ticket : Text)
  | cancel (authorization : Text)

/-- A handler that waits, with the record it has loaded. -/
inductive Flight where
  /-- `join` waits for its body. -/
  | joinBody (loaded : RoomState)
  /-- `join` waits for the digest of the invitation. -/
  | joinInvite (loaded : RoomState) (inviteToken : Text) (eloRating : Option EloRating)
  /-- `join` waits for the digest of the seat token it drew. -/
  | joinSeat (loaded : RoomState) (eloRating : Option EloRating) (seatToken : Text)
  /-- `issueTicket` waits for the digest of the seat token. -/
  | ticketAuth (loaded : RoomState) (token : Text)
  /-- `issueTicket` waits for the digest of the ticket it drew at the time `now`. -/
  | ticketHash (loaded : RoomState) (seat : Seat) (now : Nat) (ticket : Text)
  /-- `acceptSocket` waits for the digest of the ticket. -/
  | socketHash (loaded : RoomState) (ticket : Text)
  /-- `cancel` waits for the digest of the seat token. -/
  | cancelAuth (loaded : RoomState) (token : Text)

/-- The record that a waiting handler holds. -/
def Flight.loaded : Flight → RoomState
  | .joinBody loaded => loaded
  | .joinInvite loaded _ _ => loaded
  | .joinSeat loaded _ _ => loaded
  | .ticketAuth loaded _ => loaded
  | .ticketHash loaded _ _ _ => loaded
  | .socketHash loaded _ => loaded
  | .cancelAuth loaded _ => loaded

/-- A handler either waits again or has responded. -/
inductive Progress where
  | waits (flight : Flight)
  | responds (response : Response)

/-- What a waiting handler finds when it goes on: the time, a fresh random token, the body. -/
structure Supply where
  now : Nat
  token : Text
  body : Except HttpError Json.Members

/-- The checks of `join` on its body. -/
def checkJoinBody (state : RoomState) (body : Json.Members) :
    Except HttpError (Text × Option EloRating) := do
  let invalid : Except HttpError (Text × Option EloRating) :=
    .error ⟨400, "invalid_invite"⟩
  let mismatch : Except HttpError (Text × Option EloRating) :=
    .error ⟨409, "version_mismatch"⟩
  let some version := (body.get "protocolVersion").bind Json.asNumber | invalid
  let some appId := (body.get "appId").bind Json.asString | invalid
  let some inviteToken := (body.get "inviteToken").bind Json.asString | invalid
  let some games := (body.get "supportedGames").bind Json.asArray | invalid
  let some rulesets := (body.get "supportedRulesets").bind Json.asArray | invalid
  let some eloRating := optionalRating (body.get "eloRating") | invalid
  if validSecretToken inviteToken = false then invalid
  else if version ≠ PROTOCOL_VERSION then mismatch
  else if appId ≠ state.appId then mismatch
  else if Json.listsString games state.gameId = false then mismatch
  else if rulesets ≠ [] ∧ Json.listsString rulesets state.rulesetId = false then mismatch
  else .ok (inviteToken, eloRating)

/-- The checks of `join` once the invitation is hashed. -/
def checkInvite (state : RoomState) (hash : Text) : Except HttpError Unit :=
  if equalTokenHash hash state.inviteTokenHash = false then
    .error ⟨404, "invalid_invite"⟩
  else if state.status = .ended then .error ⟨410, "room_unavailable"⟩
  else if state.inviteUsed then .error ⟨409, "invite_already_used"⟩
  else if state.status ≠ .waiting ∨ state.joinerTokenHash.isSome then
    .error ⟨409, "room_full"⟩
  else .ok ()

/-- The record `join` stores. -/
def joinRoom (state : RoomState) (seatTokenHash : Text) (eloRating : Option EloRating) :
    RoomState :=
  { state with
    joinerTokenHash := some seatTokenHash
    joinerEloRating := some (eloRating.getD defaultEloRating)
    inviteUsed := true
    status := .active
    seq := state.seq + 1 }

/-- `authorizedSeat`, once the token is hashed. -/
def authorizedSeat (state : RoomState) (hash : Text) : Option Seat :=
  if equalTokenHash hash state.creatorTokenHash then some state.creatorSeat
  else if state.joinerTokenHash.any (equalTokenHash hash) then some (opposite state.creatorSeat)
  else none

/-- The record `issueTicket` stores. -/
def addTicket (state : RoomState) (seat : Seat) (now : Nat) (hash : Text) : RoomState :=
  { state with
    tickets := (state.tickets.filter fun ticket =>
        ticket.seat ≠ seat ∧ ticket.used = false ∧ now < ticket.expiresAt)
      ++ [⟨hash, seat, now + TICKET_LIFETIME_MS, false⟩] }

/-- A ticket that opens a socket. -/
def TicketRecord.admits (hash : Text) (now : Nat) (ticket : TicketRecord) : Bool :=
  equalTokenHash ticket.hash hash && !ticket.used && now < ticket.expiresAt

/-- The first ticket that admits the holder of `hash`, and the list with that one used. -/
def useTicket (hash : Text) (now : Nat) :
    List TicketRecord → Option (TicketRecord × List TicketRecord)
  | [] => none
  | ticket :: rest =>
    if ticket.admits hash now then some (ticket, { ticket with used := true } :: rest)
    else (useTicket hash now rest).map fun (record, rest) => (record, ticket :: rest)

/-- The answer to a wrong secret. -/
def unauthorized : Progress := .responds (.protocolError ⟨401, "unauthorized"⟩)

/-- `fetch`, up to the point where the handler waits or responds. -/
def beginRequest (now : Nat) (room : Option RoomState) (request : Request) :
    Option RoomState × Progress :=
  let unavailable : Progress := .responds (.protocolError ⟨410, "room_unavailable"⟩)
  match room with
  | none =>
    match request with
    | .acceptSocket false _ => (none, .responds (.protocolError ⟨426, "websocket_required"⟩))
    | _ => (none, unavailable)
  | some state =>
    if state.expiresAt ≤ now then
      match request with
      | .join => (none, .responds (.protocolError ⟨410, "invite_expired"⟩))
      | _ => (none, unavailable)
    else
      (room,
        match request with
        | .join => .waits (.joinBody state)
        | .issueTicket authorization =>
          match bearerToken authorization with
          | none => unauthorized
          | some token => .waits (.ticketAuth state token)
        | .acceptSocket upgrade ticket =>
          if upgrade = false then .responds (.protocolError ⟨426, "websocket_required"⟩)
          else if validSecretToken ticket = false then unauthorized
          else .waits (.socketHash state ticket)
        | .cancel authorization =>
          match bearerToken authorization with
          | none => unauthorized
          | some token => .waits (.cancelAuth state token))

/-- A waiting handler goes on: it leaves the record as it is, stores its own, or deletes it. -/
def resumeFlight (tokenHash : Text → Text) (room : Option RoomState) (flight : Flight)
    (supply : Supply) : Option RoomState × Progress :=
  match flight with
  | .joinBody state =>
    match supply.body.bind (checkJoinBody state) with
    | .error error => (room, .responds (.protocolError error))
    | .ok (inviteToken, eloRating) => (room, .waits (.joinInvite state inviteToken eloRating))
  | .joinInvite state inviteToken eloRating =>
    match checkInvite state (tokenHash inviteToken) with
    | .error error => (room, .responds (.protocolError error))
    | .ok () => (room, .waits (.joinSeat state eloRating supply.token))
  | .joinSeat state eloRating seatToken =>
    (some (joinRoom state (tokenHash seatToken) eloRating),
      .responds (.joined (opposite state.creatorSeat) seatToken))
  | .ticketAuth state token =>
    match authorizedSeat state (tokenHash token) with
    | none => (room, unauthorized)
    | some seat => (room, .waits (.ticketHash state seat supply.now supply.token))
  | .ticketHash state seat now ticket =>
    (some (addTicket state seat now (tokenHash ticket)),
      .responds (.ticket ticket (now + TICKET_LIFETIME_MS)))
  | .socketHash state ticket =>
    match useTicket (tokenHash ticket) supply.now state.tickets with
    | none => (room, unauthorized)
    | some (record, tickets) => (some { state with tickets }, .responds (.socket record.seat))
  | .cancelAuth state token =>
    match authorizedSeat state (tokenHash token) with
    | none => (room, unauthorized)
    | some seat =>
      if seat ≠ state.creatorSeat ∨ state.status ≠ .waiting then
        (room, .responds (.protocolError ⟨409, "room_unavailable"⟩))
      else (none, .responds .canceled)

/-- A request whose handler is not interrupted. -/
def serve (tokenHash : Text → Text) : List Supply → Option RoomState × Progress → Option RoomState
  | supply :: rest, (room, .waits flight) =>
    serve tokenHash rest (resumeFlight tokenHash room flight supply)
  | _, (room, _) => room

/-! ## One handler at a time -/

/-- What happens to a room, one handler at a time. -/
inductive RoomEvent where
  | message (now : Nat) (attachment : Option Seat) (frame : Frame)
  | alarm
  | request (now : Nat) (request : Request) (supplies : List Supply)
  /-- `webSocketClose` and `webSocketError` tell the other seat and store nothing. -/
  | close

/-- The record after an uninterrupted handler. -/
def roomStep (mill : OnlineRuleAdapter) (tokenHash : Text → Text) (room : Option RoomState) :
    RoomEvent → Option RoomState
  | .message now attachment frame => (webSocketMessage mill now room attachment frame).room
  | .alarm => alarm room
  | .request now request supplies => serve tokenHash supplies (beginRequest now room request)
  | .close => room

/-!
## Interleaved handlers

The handlers of one room run until they wait for a request body or a digest; then any
other handler may run. A step of the room begins a request, lets a waiting handler go
on, or handles a socket message or an alarm. What was promised to the callers is kept
in a list, oldest first.
-/

/-- A promise to a caller: a join that succeeded, a ticket, a socket, a deleted room. -/
inductive Done where
  | joined
  | issued (hash : Text)
  | opened (hash : Text)
  | canceled
deriving DecidableEq, Repr

/-- The record in storage, the handlers that wait, and what was promised. -/
structure World where
  room : Option RoomState
  flights : List Flight
  done : List Done

/-- What happens next. -/
inductive WorldEvent where
  | begin (now : Nat) (request : Request)
  | resume (index : Nat) (supply : Supply)
  | message (now : Nat) (attachment : Option Seat) (frame : Frame)
  | alarm

/-- What a response promises, for the handler that gives it. -/
def promised (tokenHash : Text → Text) : Flight → Response → List Done
  | .joinSeat _ _ _, .joined _ _ => [.joined]
  | .ticketHash _ _ _ ticket, .ticket _ _ => [.issued (tokenHash ticket)]
  | .socketHash _ ticket, .socket _ => [.opened (tokenHash ticket)]
  | .cancelAuth _ _, .canceled => [.canceled]
  | _, _ => []

/-- One event. -/
def worldStep (mill : OnlineRuleAdapter) (tokenHash : Text → Text) (w : World) :
    WorldEvent → World
  | .begin now request =>
    match beginRequest now w.room request with
    | (room, .waits flight) => { w with room, flights := w.flights ++ [flight] }
    | (room, .responds _) => { w with room }
  | .resume index supply =>
    match w.flights[index]? with
    | none => w
    | some flight =>
      match resumeFlight tokenHash w.room flight supply with
      | (room, .waits next) => { w with room, flights := w.flights.set index next }
      | (room, .responds response) =>
        { room
          flights := w.flights.eraseIdx index
          done := w.done ++ promised tokenHash flight response }
  | .message now attachment frame =>
    { w with room := (webSocketMessage mill now w.room attachment frame).room }
  | .alarm => { w with room := alarm w.room }

end Sanmill.Online
