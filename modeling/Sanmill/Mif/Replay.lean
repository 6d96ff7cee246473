import Sanmill.Mif.Engine

/-!
# Replay requests

A recorded game (MSTATE) names its rule set, its origin, its events and what they led to.
`replay_request` runs the events again and compares; `project_logical_turns` does the same
and then groups the place, move and remove events into turns.
-/

namespace Sanmill.Mif

open Engine (memberText)

/-! ## The rule set of a document -/

/-- A member that the envelope does not have, or lacks. -/
def closedObject (message : String) : Diagnostic :=
  { category := "syntax", code := "closed-object-mismatch", message }

/-- An envelope that names other rules. -/
def manifestConflict (message : String) : Diagnostic :=
  { category := "integrity", code := "manifest-conflict", message }

/-- The answer to a mode that is neither portable nor reference. -/
def invalidMode : Diagnostic :=
  { category := "syntax"
    code := "invalid-ruleset-mode"
    message := "ruleset mode must be portable or reference" }

/-- Whether the envelope brings its manifest along. -/
inductive RulesetMode where
  | portable
  | reference
deriving DecidableEq

/-- The members of every envelope. -/
def requiredMembers : List String := ["mode", "id", "version", "semanticDigest"]

/-- The members that an envelope may have besides. -/
def optionalMembers : List String := ["documentDigest", "manifest"]

/-- No other member is there. -/
def requireKnownMembers (ruleset : Json.Members) : Result Unit :=
  match ruleset.find? fun entry =>
      !isOneOf (some entry.1) requiredMembers && !isOneOf (some entry.1) optionalMembers with
  | some entry =>
    .error (closedObject ("ruleset envelope contains unknown member `"
      ++ String.ofList entry.1 ++ "`"))
  | none => .ok ()

/-- Every required member is there. -/
def requireMembers (ruleset : Json.Members) : Result Unit :=
  match requiredMembers.find? fun member => (ruleset.get member).isNone with
  | some member =>
    .error (closedObject ("ruleset envelope lacks required member `" ++ member ++ "`"))
  | none => .ok ()

/-- The mode, with the members that it asks for or forbids. -/
def rulesetMode (ruleset : Json.Members) : Result RulesetMode :=
  let mode := (ruleset.get "mode").bind Json.asString
  if isOneOf mode ["portable"] then
    if (ruleset.get "manifest").isNone ∨ (ruleset.get "documentDigest").isNone then
      .error {
        category := "integrity"
        code := "manifest-missing"
        message := "portable ruleset requires manifest and documentDigest" }
    else .ok .portable
  else if isOneOf mode ["reference"] then
    if (ruleset.get "manifest").isSome then
      .error (closedObject "reference ruleset must not embed a manifest")
    else .ok .reference
  else .error invalidMode

/-- The ruleset of a document and its mode. -/
def rulesetEnvelope (document : Json) : Result (Json.Members × RulesetMode) :=
  match document.get "ruleset" with
  | none =>
    .error { category := "syntax", code := "ruleset-missing",
             message := "document requires ruleset" }
  | some value =>
    match value.asObject with
    | none => .error (closedObject "ruleset envelope must be an object")
    | some ruleset => do
      requireKnownMembers ruleset
      requireMembers ruleset
      let mode ← rulesetMode ruleset
      .ok (ruleset, mode)

/-- `resolve_manifest`. The envelope of a portable rule set has a manifest. -/
def resolveManifest (explicit : Option Json) (document : Json) : Result Json := do
  let (ruleset, mode) ← rulesetEnvelope document
  let embedded := (ruleset.get "manifest").getD .null
  match mode, explicit with
  | .portable, some manifest =>
    if manifest ≠ embedded then .error (manifestConflict "caller and portable manifests differ")
    else .ok embedded
  | .portable, none => .ok embedded
  | .reference, some manifest => .ok manifest
  | .reference, none =>
    .error {
      category := "integrity"
      code := "manifest-missing"
      message := "reference ruleset requires caller resolver" }

/-- `verify_ruleset_envelope`: the envelope names the rules of this manifest. -/
def verifyRulesetEnvelope (document : Json) (manifest : Manifest) : Result Unit := do
  let (ruleset, _) ← rulesetEnvelope document
  if (ruleset.get "id").bind Json.asString ≠ (manifest.value.get "id").bind Json.asString
      ∨ (ruleset.get "version").bind Json.asU64
        ≠ (manifest.value.get "version").bind Json.asU64 then
    .error (manifestConflict "ruleset identity disagrees with resolved manifest")
  else if (ruleset.get "semanticDigest").bind Json.asString ≠ some manifest.semanticDigest then
    .error {
      category := "integrity"
      code := "semantic-digest-mismatch"
      message := "ruleset semantic digest disagrees with resolved manifest" }
  else if (ruleset.get "documentDigest").any
      (fun digest => digest.asString ≠ some manifest.documentDigest) then
    .error {
      category := "integrity"
      code := "document-digest-mismatch"
      message := "ruleset document digest disagrees with resolved manifest" }
  else .ok ()

/-! ## Replay -/

/-- `array`. -/
def arrayMember (value : Json) (member : String) : Result (List Json) :=
  match (value.get member).bind Json.asArray with
  | some items => .ok items
  | none =>
    .error {
      category := "syntax"
      code := "array-member-missing"
      message := "member `" ++ member ++ "` must be an array" }

/-- `member_text`. -/
def textMember (value : Json) (member : String) : Result Text :=
  match memberText value member with
  | some text => .ok text
  | none =>
    .error {
      category := "syntax"
      code := "text-member-missing"
      message := "member `" ++ member ++ "` must be text" }

/-- The entries of a repetition history that come from before the origin. -/
def preOrigin (history : List Json) : List Json :=
  history.takeWhile fun entry => isOneOf (memberText entry "source") ["pre-origin"]

/-- `resumption_state`: what a game is taken up again from. -/
def Engine.resumptionState (identity : Identity) (e : Engine) : Json :=
  let replayPrefix := Json.ofMembers
    [("origin", .str e.origin), ("preOriginRepetition", .arr (preOrigin e.repetitionHistory)),
      ("preOriginClaims", .arr e.preOriginClaims), ("events", .arr e.events)]
  let openOffer := e.openOffer.map fun offer => Json.ofMembers
    [("source", .ofString offer.source), ("actor", ofChar offer.actor),
      ("offerEventSeq", ofNat offer.eventSeq)]
  .ofMembers [("profile", .ofString "resumption-state-v1"),
    ("positionFormat", .ofString "MFEN/1.0"),
    ("stateProfile", .ofString "mill24-state-v1"),
    ("semanticDigest", .str e.manifest.semanticDigest),
    ("current", .str e.state.canonical),
    ("replayPrefixDigest", .str (identity.digestJson replayPrefix)),
    ("lastEventSeq", ofNat
      (((e.events.getLast?.bind fun event => event.get "seq").bind Json.asU64).getD 0)),
    ("repetitionHistory", .arr e.repetitionHistory), ("claims", .arr e.claims),
    ("openOffer", .ofOption openOffer), ("claimRights", .ofOption e.claimRights)]

/-- The answer to a request without a document. -/
def mstateMissing (message : String) : Diagnostic :=
  { category := "syntax", code := "mstate-missing", message }

/-- The document of a request. -/
def requireMstate (payload : Json) (message : String) : Result Json :=
  match payload.get "mstate" with
  | some mstate => .ok mstate
  | none => .error (mstateMissing message)

/-- A document that its own replay does not bear out. -/
def replayMismatch (code message : String) : Diagnostic :=
  { category := "replay", code, message }

/-- The engine that `replay_request` reports on. -/
def replayEngine (identity : Identity) (payload : Json) : Result Engine := do
  let mstate ← requireMstate payload "replay requires mstate"
  let value ← resolveManifest (payload.get "manifest") mstate
  let manifest ← Manifest.new identity value
  verifyRulesetEnvelope mstate manifest
  let origin ← textMember mstate "origin"
  let history ← arrayMember mstate "repetitionHistory"
  enforceResourceLimit "repetition-entries" history.length MAX_REPETITION_ENTRIES
  let preOriginClaims ← arrayMember mstate "preOriginClaims"
  let start ← Engine.new identity manifest origin (preOrigin history) preOriginClaims
  let events ← arrayMember mstate "events"
  let engine ← start.executeEvents identity events
  let current ← textMember mstate "current"
  if engine.state.canonical ≠ current then
    .error (replayMismatch "checkpoint-mismatch"
      "replayed current state differs from MSTATE checkpoint")
  else if engine.repetitionHistory ≠ history then
    .error (replayMismatch "repetition-history-mismatch"
      "replayed repetition history differs from MSTATE")
  else do
    let claims ← arrayMember mstate "claims"
    if engine.claims ≠ claims then
      .error (replayMismatch "claim-audit-mismatch" "replayed claim audit differs from MSTATE")
    else .ok engine

/-- The document that a replay answers with. -/
def replayResult (identity : Identity) (e : Engine) : Result Json := do
  let decision ← e.decisionState identity
  let resumption := e.resumptionState identity
  .ok (.ofMembers [("current", .str e.state.canonical), ("trace", .arr e.trace),
    ("repetitionHistory", .arr e.repetitionHistory), ("claims", .arr e.claims),
    ("claimRights", .ofOption e.claimRights), ("decisionState", decision),
    ("decisionDigest", .str (identity.digestJson decision)), ("resumptionState", resumption),
    ("resumptionDigest", .str (identity.digestJson resumption))])

/-- `replay_request`: every event of the record in turn. -/
def replayRequest (identity : Identity) (payload : Json) : Result Json := do
  let engine ← replayEngine identity payload
  replayResult identity engine

/-! ## Logical turns -/

/-- A turn of the record: a primary event and the removals it led to. -/
structure LogicalFragment where
  kind : String
  /-- The place or move event; the fragment of an origin has none. -/
  primary : Option Nat
  removes : List Nat
  complete : Bool
deriving DecidableEq, Repr

/-- A fragment as it is written. -/
def LogicalFragment.toJson (f : LogicalFragment) : Json :=
  let removes := Json.arr (f.removes.map ofNat)
  let status := Json.ofString (if f.complete then "complete" else "truncated")
  match f.primary with
  | some seq =>
    .ofMembers [("kind", .ofString f.kind), ("primaryEventSeq", ofNat seq),
      ("removeEventSeqs", removes), ("status", status)]
  | none => .ofMembers [("kind", .ofString f.kind), ("removeEventSeqs", removes),
    ("status", status)]

/-- Nothing is to be removed at the snapshot. -/
def snapshotClosed (snapshot : Json) : Bool :=
  (snapshot.pointer ["decisionState", "action"]).bind Json.asString ≠ some ['r']

/-- The fragment of a primary event. -/
def logicalFragment (primary : Nat) (removes : List Nat) (complete : Bool) : LogicalFragment :=
  { kind := "logical-turn", primary := some primary, removes, complete }

/-- The number of an event, 0 where it has none. -/
def eventSeq (event : Json) : Nat := ((event.get "seq").bind Json.asU64).getD 0

/-- The event is a removal. -/
def isRemove (event : Json) : Bool := isOneOf (memberText event "type") ["remove"]

/-- The event is a placement or a move. -/
def isPrimary (event : Json) : Bool := isOneOf (memberText event "type") ["place", "move"]

/-- What an inner loop takes, and the events it leaves. -/
structure Collected where
  removes : List Nat
  complete : Bool
  later : List Json

/-- The inner loops: the removals that follow at once, until nothing is owed. -/
def collectRemoves (closed : Nat → Bool) : List Json → Bool → Collected
  | [], complete => { removes := [], complete, later := [] }
  | event :: rest, complete =>
    if complete = true ∨ isRemove event = false then
      { removes := [], complete, later := event :: rest }
    else
      let taken := collectRemoves closed rest (closed (eventSeq event))
      { taken with removes := eventSeq event :: taken.removes }

theorem collectRemoves_later_length (closed : Nat → Bool) (events : List Json) (complete : Bool) :
    (collectRemoves closed events complete).later.length ≤ events.length := by
  induction events generalizing complete with
  | nil => exact Nat.le_refl _
  | cons event rest ih =>
    unfold collectRemoves
    split
    · exact Nat.le_refl _
    · exact Nat.le_succ_of_le (ih _)

/-- The outer loop. -/
def turnFragments (closed : Nat → Bool) : List Json → List LogicalFragment
  | [] => []
  | event :: rest =>
    if isPrimary event then
      let seq := eventSeq event
      let taken := collectRemoves closed rest (closed seq)
      logicalFragment seq taken.removes taken.complete :: turnFragments closed taken.later
    else turnFragments closed rest
termination_by events => events.length
decreasing_by
  · exact Nat.lt_succ_of_le (collectRemoves_later_length closed rest _)
  · exact Nat.lt_succ_self _

/-- The snapshot that the engine took after an event is closed; that of the origin has the
number 0. -/
def Engine.closedAt (e : Engine) (seq : Nat) : Bool := snapshotClosed (e.trace.getD seq .null)

/-- The fragments of the events that an engine has replayed. -/
def Engine.fragments (e : Engine) (events : List Json) : List LogicalFragment :=
  if e.closedAt 0 = false then
    let taken := collectRemoves e.closedAt events false
    { kind := if e.originGeneratedObligation then "origin-stabilization" else "origin-obligation"
      primary := none
      removes := taken.removes
      complete := taken.complete } :: turnFragments e.closedAt taken.later
  else turnFragments e.closedAt events

/-- The document of the fragments. -/
def turnDocument (identity : Identity) (e : Engine) (fragments : List LogicalFragment) : Json :=
  .ofMembers [("document", .ofMembers [("format", .ofString "MIFTURN/1.0"),
    ("profile", .ofString "logical-turn-v1"),
    ("sourceResumptionDigest", .str (identity.digestJson (e.resumptionState identity))),
    ("fragments", .arr (fragments.map LogicalFragment.toJson))])]

/-- The events of a record, put together turn by turn. -/
def projectLogicalTurns (identity : Identity) (payload : Json) : Result Json := do
  let mstate ← requireMstate payload "logical-turn projection requires mstate"
  let value ← resolveManifest (payload.get "manifest") mstate
  let manifest ← Manifest.new identity value
  verifyRulesetEnvelope mstate manifest
  let history ← arrayMember mstate "repetitionHistory"
  enforceResourceLimit "repetition-entries" history.length MAX_REPETITION_ENTRIES
  let origin ← textMember mstate "origin"
  let preOriginClaims ← arrayMember mstate "preOriginClaims"
  let start ← Engine.new identity manifest origin (preOrigin history) preOriginClaims
  let events ← arrayMember mstate "events"
  let engine ← start.executeEvents identity events
  let current ← textMember mstate "current"
  let mismatch := replayMismatch "mstate-evidence-mismatch"
    "logical-turn projection requires a replay-valid MSTATE"
  if engine.state.canonical ≠ current ∨ engine.repetitionHistory ≠ history then .error mismatch
  else do
    let claims ← arrayMember mstate "claims"
    if engine.claims ≠ claims then .error mismatch
    else .ok (turnDocument identity engine (engine.fragments events))

end Sanmill.Mif
