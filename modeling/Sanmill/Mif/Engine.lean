import Sanmill.Mif.Manifest

/-!
# The interoperability engine

The engine replays a list of events from an origin. After a place, a move or a removal
it stabilizes the state: it looks for a full board, for a player with too little
material, for a player who cannot move and for a repetition, and derives the draws that
may be claimed. Draw offers, claims, resignation and adjudication are events of their
own.
-/

namespace Sanmill.Mif

/-- How many events a record may have. -/
def MAX_EVENTS : Nat := 100000
/-- How many positions a state may remember. -/
def MAX_REPETITION_ENTRIES : Nat := 100000

/-- A draw offer that nobody has answered. -/
structure OpenOffer where
  source : String
  actor : Char
  eventSeq : Nat
deriving DecidableEq

/-- `Engine`: a state under a manifest, with all that was recorded on the way. -/
structure Engine where
  manifest : Manifest
  state : State
  events : List Json
  repetitionHistory : List Json
  claims : List Json
  preOriginClaims : List Json
  openOffer : Option OpenOffer
  claimRights : Option Json
  trace : List Json
  origin : Text
  originGeneratedObligation : Bool

/-- A string of one character. -/
def ofChar (c : Char) : Json := .str [c]

/-- A number. -/
def ofNat (n : Nat) : Json := .int n

namespace Engine

/-! ## Observations and snapshots -/

/-- `semantic_state`: the extensions of the form `key=value`. -/
def semanticState (state : State) : Json :=
  .obj (state.extensions.foldl (fun made extension =>
    match Text.splitOnce '=' extension with
    | some (key, value) => Json.Members.insert key (.str value) made
    | none => made) [])

/-- The hands, white first. -/
def handsJson (state : State) : Json := .arr [ofNat (state.hands 0), ofNat (state.hands 1)]

/-- What counts as the same position. -/
def observation (e : Engine) : Json :=
  .ofMembers [("profile", .ofString "repetition-observation-v1"),
    ("stateProfile", .ofString "mill24-state-v1"),
    ("semanticDigest", .str e.manifest.semanticDigest),
    ("board", .str e.state.boardField), ("side", ofChar e.state.side),
    ("phase", ofChar e.state.phase),
    ("action", ofChar e.state.action), ("hands", handsJson e.state),
    ("semantic", semanticState e.state)]

/-- An observation as the repetition history keeps it. -/
def observationEntry (e : Engine) (eventSeq : Option Nat) (sourceKind : String) : Json :=
  let entry := Json.ofMembers
    [("source", .ofString (if eventSeq.isSome then "event" else sourceKind)),
      ("key", e.observation)]
  match eventSeq with
  | some seq => entry.set "eventSeq" (ofNat seq)
  | none => entry

/-- The greater of the two limits. -/
def noProgressLimit (e : Engine) : Nat :=
  max e.manifest.noProgressNormal e.manifest.noProgressEndgame

/-- An open offer with the answers to it; none once the game is decided. -/
def decisionOffer (e : Engine) : Option Json :=
  if e.state.outcome ≠ dash then none
  else e.openOffer.map fun offer =>
    let item (actor : Char) (action : String) : Json :=
      .ofMembers [("actor", ofChar actor), ("action", .ofString action)]
    let available :=
      if offer.actor = 'w' then [item 'w' "withdraw", item 'b' "accept", item 'b' "decline"]
      else [item (opponent offer.actor) "accept", item (opponent offer.actor) "decline",
        item 'b' "withdraw"]
    .ofMembers [("offerer", ofChar offer.actor), ("available", .arr available)]

/-- What the next decision depends on, as an object. -/
def decisionState (identity : Identity) (e : Engine) : Result Json := do
  let summary ←
    if e.manifest.repetitionEnabled then do
      let root ← identity.repetitionRoot e.repetitionHistory e.manifest.repetitionCount
      .ok (Json.ofMembers [("profile", .ofString "reset-count-smt-v1"), ("root", .str root)])
    else .ok .null
  .ok (.ofMembers [("profile", .ofString "decision-state-v1"),
    ("stateProfile", .ofString "mill24-state-v1"),
    ("semanticDigest", .str e.manifest.semanticDigest),
    ("board", .str e.state.boardField), ("side", ofChar e.state.side),
    ("phase", ofChar e.state.phase),
    ("action", ofChar e.state.action), ("hands", handsJson e.state),
    ("obligations", .str e.state.obligations),
    ("noProgress", if e.noProgressLimit = 0 then .null
      else ofNat (min e.state.noProgress e.noProgressLimit)),
    ("outcome", .str e.state.outcome), ("semantic", semanticState e.state),
    ("repetitionSummary", summary), ("openOffer", .ofOption e.decisionOffer),
    ("claimRights", .ofOption e.claimRights)])

/-- `snapshot`: the state at a boundary of the record. -/
def snapshot (identity : Identity) (e : Engine) (boundary : String) (eventSeq : Option Nat) :
    Result Json := do
  let decision ← e.decisionState identity
  .ok (.ofMembers [("boundary", .ofString boundary), ("eventSeq", .ofOption (eventSeq.map ofNat)),
    ("current", .str e.state.canonical), ("repetitionHistory", .arr e.repetitionHistory),
    ("claims", .arr e.claims), ("claimRights", .ofOption e.claimRights),
    ("decisionState", decision),
    ("decisionDigest", .str (identity.digestJson decision))])

/-! ## Stabilizing -/

/-- `sync_phase`: a player without pieces in hand is in the moving phase. -/
def syncPhase (e : Engine) : Engine :=
  if e.state.outcome ≠ dash ∨ e.state.obligations ≠ dash then e
  else
    let phase :=
      if (e.state.hands 0 = 0 ∧ e.state.hands 1 = 0) ∨ e.state.hands (playerIndex e.state.side) = 0
      then 'm' else 'p'
    { e with state := { e.state with phase, action := phase } }

/-- Moving to any empty point, with few pieces left. -/
def flying (e : Engine) (player : Char) : Bool :=
  e.state.phase = 'm'
    ∧ (e.manifest.value.pointer ["flying", "enabled"]).bind Json.asBool = some true
    ∧ e.state.liveCount player
      ≤ ((e.manifest.value.pointer ["flying", "maximumLive"]).bind Json.asU64).getD 0

/-- A point of the board is empty. -/
def hasEmptyPoint (e : Engine) : Bool :=
  (List.finRange 24).any fun point => e.state.board point = '.'

/-- Some piece of the side to move can go somewhere. -/
def legalMoveExists (e : Engine) (player : Char) : Bool :=
  e.hasEmptyPoint && (List.finRange 24).any fun source =>
    e.state.board source = player.toUpper
      && (e.flying player || (ADJACENCY source).any fun target => e.state.board target = '.')

/-- The side to move can place or move. -/
def legalPrimaryExists (e : Engine) : Bool :=
  let player := e.state.side
  if e.state.phase = 'p' then
    (0 < e.state.hands (playerIndex player) && e.hasEmptyPoint)
      || (e.manifest.movementAllowed && e.legalMoveExists player)
  else e.legalMoveExists player

/-- The same record with another state. -/
def setState (e : Engine) (state : State) : Engine := { e with state }

/-- The game ends with a result and its reason. -/
def terminal (e : Engine) (result : Char) (reason : String) : Engine :=
  e.setState (e.state.terminal result reason.toList)

/-- `check_material`: both sides short of pieces is a draw. -/
def checkMaterial (e : Engine) : Engine :=
  let low (player : Char) : Bool :=
    u64Add (e.state.liveCount player) (e.state.hands (playerIndex player)) < e.manifest.minimumLive
  match low 'w', low 'b' with
  | true, true => e.terminal 'd' "fewer-than-minimum"
  | true, false => e.terminal 'b' "fewer-than-minimum"
  | false, true => e.terminal 'w' "fewer-than-minimum"
  | false, false => e

/-- Whether the manifest wants this position observed. -/
def shouldObserve (e : Engine) : Bool :=
  e.manifest.repetitionEnabled && e.state.stable
    && if e.manifest.repetitionObservation = "stable-moving-v1".toList then e.state.phase = 'm'
      else if e.manifest.repetitionObservation = "stable-primary-decision-v1".toList then
        e.state.phase = 'p' ∨ e.state.phase = 'm'
      else false

/-- How often the position now on the board is in the history. -/
def repetitions (e : Engine) : Nat :=
  e.repetitionHistory.countP fun entry => entry.get "key" = some e.observation

/-- Enough repetitions end the game where the manifest makes that automatic. -/
def applyRepetitionResult (e : Engine) : Engine :=
  if e.repetitions < e.manifest.repetitionCount then e
  else if e.manifest.repetitionMode = "automatic".toList then e.terminal 'd' "repetition"
  else e

/-- `derive_claim_rights`: what the side to move may claim in a stable state. -/
def deriveClaimRights (e : Engine) : Engine :=
  if e.state.stable = false then { e with claimRights := none }
  else
    let noProgress : List Json :=
      if 0 < e.noProgressLimit ∧ e.noProgressLimit ≤ e.state.noProgress then
        [.ofString "no-progress"] else []
    let repetition : List Json :=
      if (e.manifest.repetitionMode = "claim".toList ∧ e.shouldObserve = true)
          ∧ e.manifest.repetitionCount ≤ e.repetitions then [.ofString "repetition"] else []
    let reasons := noProgress ++ repetition
    { e with
      claimRights :=
        if reasons.isEmpty then none
        else some (.ofMembers [("actor", ofChar e.state.side), ("reasons", .arr reasons)]) }

/-- The answer to a board-full action that is not implemented. -/
def boardFullDiagnostic (action : Text) : Diagnostic :=
  { category := "unsupported", code := "board-full-action-unsupported"
    message := "board-full action `" ++ String.ofList action ++ "` is not implemented" }

/-- The obligations of a full board; the second removal gets its targets later. -/
def owe (e : Engine) (side : Char) (obligations : Text) : Engine :=
  e.setState { e.state with side, action := 'r', obligations }

/-- A full board: `none` when its action is disabled, or the state it leads to. -/
def resolveFullBoard (e : Engine) : Result (Option Engine) :=
  let action := e.manifest.boardFull
  if action = "disabled".toList then .ok none
  else if action = "white-loses".toList then .ok (some (e.terminal 'b' "board-full"))
  else if action = "draw".toList then .ok (some (e.terminal 'd' "board-full"))
  else if action = "white-then-black-remove".toList then
    .ok (some (e.owe 'w' ("w:board-full:b:b:1:".toList ++ hex6 (removalTargets e.state.board 'b')
      ++ ":q;b:board-full:b:w:1:~:w".toList)))
  else if action = "black-then-white-remove".toList then
    .ok (some (e.owe 'b' ("b:board-full:b:w:1:".toList ++ hex6 (removalTargets e.state.board 'w')
      ++ ":q;w:board-full:b:b:1:~:b".toList)))
  else .error (boardFullDiagnostic action)

/-- `check_full_board`; `none` where a point is empty. -/
def checkFullBoard (e : Engine) : Result (Option Engine) :=
  if e.hasEmptyPoint then .ok none else e.resolveFullBoard

/-- A player who has no action; a manifest that was accepted names one of the policies. -/
def resolveNoLegal (e : Engine) : Result Engine :=
  if e.state.phase = 'p' then
    if e.manifest.placingNoLegal = "loss".toList then
      .ok (e.terminal (opponent e.state.side) "no-legal-primary-action")
    else if e.manifest.placingNoLegal = "draw".toList then
      .ok (e.terminal 'd' "no-legal-primary-action")
    else
      .error {
        category := "unreachable"
        code := "board-full-trigger-unreachable"
        message := "apply-board-full was selected outside its full-board trigger" }
  else if e.manifest.stalemateAction = "loss".toList then
    .ok (e.terminal (opponent e.state.side) "no-legal-move")
  else .ok (e.terminal 'd' "no-legal-move")

/-- The position is recorded and compared with the earlier ones. -/
def observe (e : Engine) (eventSeq : Option Nat) (sourceKind : String) : Result Engine :=
  if e.shouldObserve then do
    enforceResourceLimit "repetition-entries" (e.repetitionHistory.length + 1)
      MAX_REPETITION_ENTRIES
    .ok (applyRepetitionResult { e with
      repetitionHistory := e.repetitionHistory ++ [e.observationEntry eventSeq sourceKind] })
  else .ok e

/-- `stabilize`: the automatic rules in order, until one of them ends the game or none applies. -/
def stabilize (e : Engine) (eventSeq : Option Nat) (sourceKind : String) : Result Engine :=
  if e.state.outcome ≠ dash ∨ e.state.obligations ≠ dash then .ok e
  else do
    let e := e.syncPhase
    match ← e.checkFullBoard with
    | some resolved => .ok resolved
    | none =>
      let e := e.checkMaterial
      if e.state.outcome ≠ dash then .ok e
      else
        let e := e.syncPhase
        if e.legalPrimaryExists = false then e.resolveNoLegal
        else do
          let e ← e.observe eventSeq sourceKind
          .ok e.deriveClaimRights

/-! ## Events -/

/-- The actor of an event, which must be the side to move. -/
def requireActor (e : Engine) (actor : Text) (seq : Nat) : Result Char := do
  let actor ← oneChar actor "actor"
  if actor ≠ e.state.side then
    .error (illegal "actor-out-of-turn" "event actor is not the current side" seq)
  else .ok actor

/-- The text of a member of an event. -/
def memberText (event : Json) (member : String) : Option Text :=
  (event.get member).bind Json.asString

/-- A text that the event must have. -/
def requireText (event : Json) (member missing message : String) (seq : Nat) : Result Text :=
  match memberText event member with
  | none => .error (illegal missing message seq)
  | some text => .ok text

/-- The point of a coordinate. -/
def requirePoint (coord : Text) (message : String) (seq : Nat) : Result Point :=
  match coordIndex coord with
  | none => .error (illegal "coordinate-invalid" message seq)
  | some point => .ok point

/-- A member that names a point. -/
def requireCoord (event : Json) (member missing message invalid : String) (seq : Nat) :
    Result Point := do
  let coord ← requireText event member missing message seq
  requirePoint coord invalid seq

/-- The rights of the last position are gone. -/
def expireClaimRight (e : Engine) : Engine := { e with claimRights := none }

/-- A reset empties the repetition history. -/
def resetRepetition (e : Engine) (reset : Bool) : Engine :=
  if reset then { e with repetitionHistory := [] } else e

/-- Events that reset a history or a counter. -/
def resetsAfter (resets : List Text) (kind : String) (formedMill : Bool) : Bool :=
  (kind = "place" && listsEvent resets "place")
    || (formedMill && listsEvent resets "mill-formation")

/-- The primary actions without progress, after one of them. -/
def progressAfter (m : Manifest) (noProgress : Nat) (kind : String) (formedMill : Bool) : Nat :=
  let progressDisabled := decide (m.noProgressNormal = 0 ∧ m.noProgressEndgame = 0)
  if progressDisabled || resetsAfter m.noProgressResets kind formedMill then 0
  else if listsEvent m.noProgressCounted kind then u64Add noProgress 1
  else noProgress

/-- A mill earns a removal when there is something to remove; otherwise the turn passes. -/
def settlePrimary (e : Engine) (actor : Char) (formedMill : Bool) (kind : String) (seq : Nat) :
    Result Engine :=
  let owner := opponent actor
  let targets := removalTargets e.state.board owner
  if formedMill = true ∧ targets ≠ 0 then
    .ok (e.owe actor (serializeObligation {
      actor, cause := "mill".toList, zone := 'b', owner, remaining := 1, targets
      targetsDeferred := false, after := owner }))
  else
    (e.setState { e.state with side := opponent actor }).syncPhase.stabilize (some seq) kind

/-- A place or a move, after the board is written: the counters, and then what the mill owes. -/
def afterPrimary (e : Engine) (actor : Char) (destination : Point) (kind : String) (seq : Nat) :
    Result Engine :=
  let formedMill := closesMill e.state.board actor destination
  let e := e.resetRepetition (resetsAfter e.manifest.repetitionResets kind formedMill)
  let noProgress := progressAfter e.manifest e.state.noProgress kind formedMill
  (e.setState { e.state with noProgress }).settlePrimary actor formedMill kind seq

/-- A piece is placed. -/
def applyPlace (e : Engine) (event : Json) (actor : Text) (seq : Nat) : Result Engine := do
  let actor ← e.requireActor actor seq
  if e.state.action ≠ 'p' ∨ e.state.obligations ≠ dash then
    .error (illegal "place-action-mismatch" "place is not currently legal" seq)
  else do
    let index ← requireCoord event "at" "place-target-missing" "place event requires at"
      "place coordinate is invalid" seq
    if e.state.board index ≠ '.' ∨ e.state.hands (playerIndex actor) = 0 then
      .error (illegal "place-illegal" "place target or hand is invalid" seq)
    else
      let state := { e.state with
        board := Function.update e.state.board index actor.toUpper
        hands := Function.update e.state.hands (playerIndex actor)
          (e.state.hands (playerIndex actor) - 1)
        primaryPly := u64Add e.state.primaryPly 1 }
      (e.expireClaimRight.setState state).afterPrimary actor index "place" seq

/-- A piece is moved. -/
def applyMove (e : Engine) (event : Json) (actor : Text) (seq : Nat) : Result Engine := do
  let actor ← e.requireActor actor seq
  if ¬(e.state.action = 'm' ∨ (e.state.action = 'p' ∧ e.manifest.movementAllowed = true))
      ∨ e.state.obligations ≠ dash then
    .error (illegal "move-action-mismatch" "move is not currently legal" seq)
  else do
    let source ← requireText event "from" "move-source-missing" "move event requires from" seq
    let target ← requireText event "to" "move-target-missing" "move event requires to" seq
    let source ← requirePoint source "move source is invalid" seq
    let target ← requirePoint target "move target is invalid" seq
    if e.state.board source ≠ actor.toUpper ∨ e.state.board target ≠ '.'
        ∨ (e.flying actor = false ∧ target ∉ ADJACENCY source) then
      .error (illegal "move-illegal" "move is not legal" seq)
    else
      let state := { e.state with
        board := Function.update (Function.update e.state.board source '.') target actor.toUpper
        primaryPly := u64Add e.state.primaryPly 1 }
      (e.expireClaimRight.setState state).afterPrimary actor target "move" seq

/-- The obligations that are left of a branch after one removal. -/
def remainingBranch (board : Board) (branch : List Obligation) : List Obligation :=
  match branch with
  | [] => []
  | head :: rest =>
    let remaining := u64Pred head.remaining
    if 0 < remaining then
      { head with remaining, targets := removalTargets board head.owner } :: rest
    else rest

/-- Deferred targets are those of the board when their turn comes. -/
def materialize (board : Board) (o : Obligation) : Obligation :=
  if o.targetsDeferred then
    { o with targets := removalTargets board o.owner, targetsDeferred := false }
  else o

/-- The next obligation is due, or the turn passes. -/
def afterRemoval (e : Engine) (branch : List Obligation) (after : Char) (seq : Nat) :
    Result Engine :=
  match branch with
  | next :: later =>
    let next := materialize e.state.board next
    .ok (e.owe next.actor (serializeBranch (next :: later))).checkMaterial
  | [] =>
    let e := e.setState { e.state with side := after, obligations := dash }
    e.syncPhase.checkMaterial.stabilize (some seq) "remove"

/-- The target that a removal must have. -/
def requireTarget (event : Json) (seq : Nat) : Result Json :=
  match event.get "target" with
  | none => .error (illegal "remove-target-missing" "remove event requires target" seq)
  | some target => .ok target

/-- An owed removal is made. -/
def applyRemove (e : Engine) (event : Json) (actor : Text) (seq : Nat) : Result Engine := do
  let actor ← e.requireActor actor seq
  if e.state.action ≠ 'r' ∨ e.state.obligations = dash then
    .error {
      category := "inconsistent"
      code := "remove-without-obligation"
      message := "remove requires an active obligation"
      eventSeq := some seq }
  else do
    let target ← requireTarget event seq
    if memberText target "zone" ≠ some "board".toList then
      .error {
        category := "unsupported"
        code := "hand-removal-unsupported"
        message := "this adapter currently supports board removal obligations"
        eventSeq := some seq }
    else do
      let index ← requireCoord target "at" "remove-target-missing" "board target requires at"
        "remove coordinate is invalid" seq
      let branches ← parseObligationBranches e.state.obligations
      match branches.find? fun branch =>
          branch.head?.any fun head => head.actor = actor ∧ head.targets.getLsbD index.val with
      | some (head :: rest) =>
        if e.state.board index ≠ head.owner.toUpper then
          .error (illegal "obligation-target-mismatch"
            "remove target owner does not match obligation" seq)
        else
          let board := Function.update e.state.board index '.'
          let noProgress :=
            if listsEvent e.manifest.noProgressResets "board-remove" then 0 else e.state.noProgress
          let e := e.expireClaimRight.setState { e.state with board, noProgress }
          let e := e.resetRepetition (listsEvent e.manifest.repetitionResets "board-remove")
          e.afterRemoval (remainingBranch board (head :: rest)) head.after seq
      | _ =>
        .error (illegal "obligation-target-mismatch"
          "remove target does not satisfy an obligation branch" seq)

/-- A claim that is an offer without an answer. -/
def isOpenOffer (claim : Json) : Bool :=
  memberText claim "kind" = some "draw-offer".toList
    ∧ memberText claim "status" = some "open".toList

/-- A draw is offered. -/
def offerDraw (e : Engine) (actor : Text) (seq : Nat) : Result Engine := do
  let actor ← e.requireActor actor seq
  if e.openOffer.isSome then
    .error (illegal "draw-offer-open" "a draw offer is already open" seq)
  else
    .ok { e with
      claims := e.claims ++ [.ofMembers [("actor", ofChar actor), ("eventSeq", ofNat seq),
        ("kind", .ofString "draw-offer"), ("source", .ofString "event"),
        ("status", .ofString "open")]]
      openOffer := some ⟨"event", actor, seq⟩ }

/-- The first open offer of the audit list gets its status. -/
def resolveClaim (status : String) (seq : Nat) : List Json → List Json
  | [] => []
  | claim :: rest =>
    if isOpenOffer claim then
      ((claim.set "status" (.ofString status)).set "resolvedEventSeq" (ofNat seq)) :: rest
    else claim :: resolveClaim status seq rest

/-- The answers to an offer. -/
inductive OfferEvent where
  | withdraw
  | decline
  | accept
deriving DecidableEq

/-- What an answer makes of the offer. -/
def OfferEvent.status : OfferEvent → String
  | .withdraw => "withdrawn"
  | .decline => "declined"
  | .accept => "accepted"

/-- `resolve_offer`; it does not ask whether the game is decided. -/
def resolveOffer (e : Engine) (event : Json) (kind : OfferEvent) (actor : Text) (seq : Nat) :
    Result Engine := do
  let actor ← oneChar actor "actor"
  match e.openOffer with
  | none => .error (illegal "draw-offer-missing" "no draw offer is open" seq)
  | some offer =>
    match (event.get "offerEventSeq").bind Json.asU64 with
    | none => .error (illegal "offer-reference-missing" "offerEventSeq is required" seq)
    | some reference =>
      if reference ≠ offer.eventSeq ∨ (kind = .withdraw ∧ actor ≠ offer.actor)
          ∨ (kind ≠ .withdraw ∧ actor = offer.actor) then
        .error (illegal "draw-offer-reference-invalid" "draw offer reference is invalid" seq)
      else
        let e := { e with claims := resolveClaim kind.status seq e.claims, openOffer := none }
        .ok (if kind = .accept then e.terminal 'd' "agreement" else e)

/-- The reasons for which a draw may be claimed. -/
def claimReasons (e : Engine) : List Json :=
  ((e.claimRights.bind fun rights => rights.get "reasons").bind Json.asArray).getD []

/-- A draw is claimed. -/
def claimDraw (e : Engine) (event : Json) (actor : Text) (seq : Nat) : Result Engine := do
  let actor ← e.requireActor actor seq
  if e.state.obligations ≠ dash then
    .error {
      category := "inconsistent"
      code := "claim-during-obligation"
      message := "cannot claim during removal"
      eventSeq := some seq }
  else
    let reason := (memberText event "reason").getD []
    if Json.listsString e.claimReasons reason = false then
      .error (illegal "claim-right-unavailable" "claim right is unavailable" seq)
    else
      .ok { e.setState (e.state.terminal 'd' reason) with
        claimRights := none
        openOffer := none
        claims := e.claims ++ [.ofMembers [("actor", ofChar actor), ("eventSeq", ofNat seq),
          ("kind", .ofString "draw-claim"), ("reason", .str reason), ("source", .ofString "event"),
          ("status", .ofString "accepted")]] }

/-- `resign`: the opponent wins. -/
def resign (e : Engine) (actor : Text) (seq : Nat) : Result Engine := do
  let actor ← oneChar actor "actor"
  if actor ∉ ['w', 'b'] ∨ e.state.outcome ≠ dash then
    .error (illegal "resignation-invalid" "resignation is invalid" seq)
  else
    .ok { e.terminal (opponent actor) "resignation" with openOffer := none, claimRights := none }

/-- `adjudicate`, for the actor `system` only. -/
def adjudicate (e : Engine) (event : Json) (actor : Text) (seq : Nat) : Result Engine :=
  if actor ≠ "system".toList then
    .error (illegal "adjudication-actor-invalid" "adjudication actor must be system" seq)
  else do
    let result ← oneChar ((memberText event "result").getD []) "result"
    if result ∉ ['w', 'b', 'd'] then
      .error (illegal "adjudication-result-invalid" "adjudication result is invalid" seq)
    else
      .ok { e.terminal result "adjudication" with openOffer := none, claimRights := none }

/-- The events that the engine knows. -/
inductive EventType where
  | place
  | move
  | remove
  | offerDraw
  | resolve (kind : OfferEvent)
  | claimDraw
  | resign
  | adjudicate
deriving DecidableEq

/-- The names of the events. -/
def eventTypes : List (String × EventType) :=
  [("place", .place), ("move", .move), ("remove", .remove), ("offer-draw", .offerDraw),
    ("withdraw-draw", .resolve .withdraw), ("decline-draw", .resolve .decline),
    ("accept-draw", .resolve .accept), ("claim-draw", .claimDraw), ("resign", .resign),
    ("adjudicate", .adjudicate)]

/-- The type an event names, when there is one. -/
def eventType (event : Json) : Option EventType :=
  (memberText event "type").bind fun name =>
    (eventTypes.find? fun entry => entry.1.toList = name).map Prod.snd

/-- One event of the record, by its kind. -/
def applyEvent (e : Engine) (event : Json) (seq : Nat) : Result Engine :=
  match memberText event "type" with
  | none =>
    .error { category := "syntax", code := "event-type-missing", message := "event requires type" }
  | some name =>
    let actor := (memberText event "actor").getD []
    match eventType event with
    | some .place => e.applyPlace event actor seq
    | some .move => e.applyMove event actor seq
    | some .remove => e.applyRemove event actor seq
    | some .offerDraw => e.offerDraw actor seq
    | some (.resolve kind) => e.resolveOffer event kind actor seq
    | some .claimDraw => e.claimDraw event actor seq
    | some .resign => e.resign actor seq
    | some .adjudicate => e.adjudicate event actor seq
    | none =>
      .error {
        category := "unsupported"
        code := "event-type-unsupported"
        message := "unsupported event type `" ++ String.ofList name ++ "`"
        eventSeq := some seq }

/-! ## Runs -/

/-- `open_offer_from_claims`, for the claims made before the origin. -/
def openOfferFromClaims (claims : List Json) : Result (Option OpenOffer) :=
  match claims.filter isOpenOffer with
  | [] => .ok none
  | [claim] => do
    let actor ← oneChar ((memberText claim "actor").getD []) "offer actor"
    .ok (some ⟨"pre-origin", actor, 0⟩)
  | _ =>
    .error {
      category := "inconsistent"
      code := "multiple-open-offers"
      message := "claim seed contains multiple open offers" }

/-- No player has more pieces than the manifest gives. -/
def checkConservation (manifest : Manifest) (state : State) (player : Char) : Result Unit := do
  let count ← manifest.initialCount player
  let delayed := (List.finRange 24).countP fun point => state.board point = player
  if count < u64Add (u64Add (state.liveCount player) delayed)
    (state.hands (playerIndex player)) then
    .error {
      category := "inconsistent"
      code := "piece-conservation-invalid"
      message := "board plus hand exceeds manifest piece count" }
  else .ok ()

/-- `Engine::new`: a checked and stabilized origin. -/
def new (identity : Identity) (manifest : Manifest) (origin : Text)
    (repetitionSeed preOriginClaims : List Json) : Result Engine := do
  enforceResourceLimit "repetition-entries" repetitionSeed.length MAX_REPETITION_ENTRIES
  let state ← State.parse origin
  checkConservation manifest state 'w'
  checkConservation manifest state 'b'
  let openOffer ← openOfferFromClaims preOriginClaims
  let engine ← Engine.stabilize {
    manifest, state
    events := []
    repetitionHistory := repetitionSeed
    claims := preOriginClaims
    preOriginClaims, openOffer
    claimRights := none
    trace := []
    origin
    originGeneratedObligation := false } none "origin"
  let engine := { engine with
    originGeneratedObligation := decide (state.obligations = dash
      ∧ engine.state.obligations ≠ dash) }
  let first ← engine.snapshot identity "origin" none
  .ok { engine with trace := engine.trace ++ [first] }

/-- One round of `execute_events`: the event at its place in the list. -/
def executeEvent (identity : Identity) (e : Engine) (event : Json) : Result Engine :=
  match (event.get "seq").bind Json.asU64 with
  | none =>
    .error { category := "syntax", code := "event-seq-missing", message := "event requires seq" }
  | some seq =>
    if seq ≠ e.events.length + 1 then
      .error {
        category := "inconsistent"
        code := "event-sequence-invalid"
        message := "event sequences must be consecutive from one"
        eventSeq := some seq }
    else do
      let e ← e.applyEvent event seq
      let e := { e with events := e.events ++ [event] }
      let taken ← e.snapshot identity "event" (some seq)
      .ok { e with trace := e.trace ++ [taken] }

/-- `execute_events`: the events in order, up to the first that is refused. -/
def executeEvents (identity : Identity) (e : Engine) (events : List Json) : Result Engine := do
  enforceResourceLimit "events" events.length MAX_EVENTS
  events.foldlM (executeEvent identity) e

end Engine

end Sanmill.Mif
