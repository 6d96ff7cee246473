import Sanmill.Mif.State

/-!
# Rule manifests

A manifest is the JSON document of a rule set. The engine accepts a few profiles and
keeps, beside the document, the members it consults. Digests and the root of the
repetition history are functions of the platform.
-/

namespace Sanmill.Mif

/-- The functions of the identity module that rest on SHA-256 and the canonical JSON form. -/
structure Identity where
  manifestIdentities : Json → Result (Text × Text)
  repetitionRoot : List Json → Nat → Result Text
  digestJson : Json → Text

/-- `Manifest`: the document, its digests and the values that the engine reads often. -/
structure Manifest where
  value : Json
  semanticDigest : Text
  documentDigest : Text
  repetitionCount : Nat
  repetitionMode : Text
  repetitionObservation : Text
  movementAllowed : Bool
  minimumLive : Nat
  boardFull : Text
  noProgressNormal : Nat
  noProgressEndgame : Nat
  noProgressCounted : List Text
  noProgressResets : List Text
  repetitionResets : List Text
  placingNoLegal : Text
  stalemateAction : Text

/-- A manifest that asks for more than this engine has. -/
def unsupportedManifest (message : String) : Diagnostic :=
  { category := "unsupported", code := "manifest-profile-unsupported", message }

/-- A manifest with a member of another type. -/
def invalidManifest (message : String) : Diagnostic :=
  { category := "syntax", code := "manifest-invalid", message }

/-- A member at the end of a path, required. -/
def pointer (value : Json) (path : List String) : Result Json :=
  match value.pointer path with
  | some found => .ok found
  | none =>
    .error {
      category := "syntax"
      code := "manifest-member-missing"
      message := "manifest member `/" ++ String.intercalate "/" path ++ "` is required" }

/-- An integer member, required. -/
def memberU64 (value : Json) (member : String) : Result Nat :=
  match (value.get member).bind Json.asU64 with
  | some n => .ok n
  | none => .error (invalidManifest ("manifest member `" ++ member ++ "` must be an integer"))

/-- A text member, required. -/
def memberStr (value : Json) (member : String) : Result Text :=
  match (value.get member).bind Json.asString with
  | some text => .ok text
  | none => .error (invalidManifest ("manifest member `" ++ member ++ "` must be text"))

/-- A member that lists texts, required. -/
def stringArray (value : Json) (member : String) : Result (List Text) :=
  match (value.get member).bind Json.asArray with
  | none => .error (invalidManifest ("manifest member `" ++ member ++ "` must be an array"))
  | some items =>
    items.mapM fun item =>
      match item.asString with
      | some text => .ok text
      | none => .error (invalidManifest ("manifest member `" ++ member ++ "` must contain text"))

/-- A member is one of the given texts. -/
def isOneOf (value : Option Text) (names : List String) : Bool :=
  value.any fun text => names.any fun name => name.toList = text

/-- The only values of the mill members that are supported. -/
def supportedMills : List (String × String) :=
  [("placingEffect", "remove-opponent-board"), ("movingEffect", "remove-opponent-board"),
    ("removalMultiplicity", "one-per-primary"), ("targetProtection", "outside-mill-first"),
    ("lineReuse", "unlimited"), ("reverseReformation", "allowed"),
    ("delayedClearBoundary", "on-enter-moving-v1")]

/-- `validate_runtime_manifest`: every mechanism that the engine lacks must be off. -/
def validateRuntimeManifest (value : Json) : Result Unit := do
  if ((value.get "semanticState").bind Json.asArray).all (fun features => !features.isEmpty)
      ∨ ((value.get "extensions").bind Json.asArray).any
        (fun extensions => !extensions.isEmpty) then
    .error (unsupportedManifest "semantic state extensions are not implemented")
  let resolution ← pointer value ["captures", "resolution"]
  if isOneOf resolution.asString ["target-commits-v1"] = false
      ∨ ["custodian", "intervention", "leap"].any (fun mechanism =>
        (value.pointer ["captures", mechanism, "enabled"]).bind Json.asBool ≠ some false) then
    .error (unsupportedManifest "capture mechanisms are not implemented")
  let mills ← pointer value ["mills"]
  if supportedMills.any fun (member, expected) =>
      isOneOf ((mills.get member).bind Json.asString) [expected] = false then
    .error (unsupportedManifest "selected mill effect profile is not implemented")
  let boardFull ← pointer value ["boardFull", "action"]
  if isOneOf boardFull.asString ["disabled", "white-loses", "draw", "white-then-black-remove",
      "black-then-white-remove"] = false then
    .error (unsupportedManifest "selected board-full action is not implemented")
  let noLegal ← pointer value ["placing", "noLegalPrimaryAction"]
  let stalemate ← pointer value ["stalemate", "action"]
  if isOneOf noLegal.asString ["apply-board-full", "loss", "draw"] = false
      ∨ isOneOf stalemate.asString ["loss", "draw"] = false then
    .error (unsupportedManifest "selected liveness or stalemate policy is not implemented")
  if isOneOf noLegal.asString ["apply-board-full"] ∧ isOneOf boardFull.asString ["disabled"] then
    .error {
      category := "inconsistent"
      code := "no-legal-primary-action-policy-invalid"
      message := "apply-board-full requires an enabled board-full action" }
  let placingEnd ← pointer value ["turn", "placingEndActivePlayer"]
  let expiry ← pointer value ["draw", "offers", "expiry"]
  if isOneOf placingEnd.asString ["retain"] = false
      ∨ isOneOf expiry.asString ["explicit-only"] = false then
    .error (unsupportedManifest "turn-boundary or offer-expiry profile is not implemented")
  let observation ← pointer value ["draw", "repetition", "observation"]
  if isOneOf observation.asString ["stable-moving-v1", "stable-primary-decision-v1"] = false then
    .error (unsupportedManifest "selected repetition observation profile is not implemented")

/-- A member that has the type it must have. -/
def requireMember {α : Type} (value : Option α) (message : String) : Result α :=
  match value with
  | some found => .ok found
  | none => .error (invalidManifest message)

/-- `Manifest::new`. -/
def Manifest.new (identity : Identity) (value : Json) : Result Manifest := do
  let (semanticDigest, documentDigest) ← identity.manifestIdentities value
  validateRuntimeManifest value
  let repetition ← pointer value ["draw", "repetition"]
  let noProgress ← pointer value ["draw", "noProgress"]
  let repetitionCount ← memberU64 repetition "count"
  let repetitionMode ← memberStr repetition "mode"
  let repetitionObservation ← memberStr repetition "observation"
  let movement ← pointer value ["placing", "movementAllowed"]
  let movementAllowed ← requireMember movement.asBool "placing.movementAllowed must be boolean"
  let live ← pointer value ["pieces", "minimumLive"]
  let minimumLive ← requireMember live.asU64 "pieces.minimumLive must be an integer"
  let full ← pointer value ["boardFull", "action"]
  let boardFull ← requireMember full.asString "boardFull.action must be text"
  let noProgressNormal ← memberU64 noProgress "normalLimit"
  let noProgressEndgame ← memberU64 noProgress "endgameLimit"
  let noProgressCounted ← stringArray noProgress "countedPrimaryActions"
  let noProgressResets ← stringArray noProgress "resetEvents"
  let repetitionResets ← stringArray repetition "resetEvents"
  let noLegal ← pointer value ["placing", "noLegalPrimaryAction"]
  let stalemate ← pointer value ["stalemate", "action"]
  .ok {
    value, semanticDigest, documentDigest, repetitionCount, repetitionMode, repetitionObservation,
    movementAllowed, minimumLive, boardFull, noProgressNormal, noProgressEndgame,
    noProgressCounted, noProgressResets, repetitionResets
    placingNoLegal := noLegal.asString.getD []
    stalemateAction := stalemate.asString.getD [] }

/-- The pieces that a side starts with. -/
def Manifest.initialCount (m : Manifest) (player : Char) : Result Nat := do
  let count ← pointer m.value ["pieces", if player = 'w' then "white" else "black"]
  requireMember count.asU64 "piece count must be an integer"

/-- A count of 0 turns the rule off. -/
def Manifest.repetitionEnabled (m : Manifest) : Bool := 0 < m.repetitionCount

/-- Whether a manifest lists an event among those that reset or count. -/
def listsEvent (events : List Text) (name : String) : Bool := events.contains name.toList

end Sanmill.Mif
