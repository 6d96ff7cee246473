import Sanmill.Lib.JsonRoundTrip

/-!
# The frames of the remote protocol

An envelope travels as a frame: a length of four bytes and a JSON object of the envelope's
fields in UTF-8. The decoder takes the bytes in the chunks in which the transport brings
them, and returns the envelopes that a chunk completes.
-/

namespace Sanmill.Remote

open JsonText (DoubleFormat)

namespace RemoteProtocolConstants

/-- The version that both sides speak. -/
def version : Int64 := 3
/-- The longest body. -/
def maxFrameBytes : Nat := 64 * 1024
/-- The bytes that give the length of the body. -/
def lengthPrefixBytes : Nat := 4

end RemoteProtocolConstants

/-- What a message is for. -/
inductive RemoteMessageType where
  | hello
  | helloAccepted
  | helloRejected
  | busy
  | matchConfig
  | ready
  | actionRequest
  | actionCommitted
  | actionRejected
  | snapshotRequest
  | snapshot
  | takeBackRequest
  | takeBackResponse
  | restartRequest
  | restartResponse
  | boardTransformRequest
  | boardTransformResponse
  | resign
  | ping
  | pong
  | disconnect
deriving DecidableEq, Repr

namespace RemoteMessageType

/-- The kinds of message, in the order of their declaration. -/
def values : List RemoteMessageType :=
  [hello, helloAccepted, helloRejected, busy, matchConfig, ready, actionRequest, actionCommitted,
    actionRejected, snapshotRequest, snapshot, takeBackRequest, takeBackResponse, restartRequest,
    restartResponse, boardTransformRequest, boardTransformResponse, resign, ping, pong, disconnect]

/-- The name that stands on the wire. -/
def name : RemoteMessageType → String
  | hello => "hello"
  | helloAccepted => "helloAccepted"
  | helloRejected => "helloRejected"
  | busy => "busy"
  | matchConfig => "matchConfig"
  | ready => "ready"
  | actionRequest => "actionRequest"
  | actionCommitted => "actionCommitted"
  | actionRejected => "actionRejected"
  | snapshotRequest => "snapshotRequest"
  | snapshot => "snapshot"
  | takeBackRequest => "takeBackRequest"
  | takeBackResponse => "takeBackResponse"
  | restartRequest => "restartRequest"
  | restartResponse => "restartResponse"
  | boardTransformRequest => "boardTransformRequest"
  | boardTransformResponse => "boardTransformResponse"
  | resign => "resign"
  | ping => "ping"
  | pong => "pong"
  | disconnect => "disconnect"

/-- The kind of a name. -/
def byName (name : Utf16) : Option RemoteMessageType :=
  values.find? fun type => Utf16.ofString type.name = name

end RemoteMessageType

/-- The classes of failure. -/
inductive RemoteProtocolError where
  | invalidLength
  | frameTooLarge
  | invalidUtf8
  | invalidJson
  | invalidEnvelope
  | unsupportedVersion
  | unknownMessageType
deriving DecidableEq, Repr

/-- An exception, by its message. -/
inductive RemoteProtocolException (δ : Type) where
  /-- `A frame body cannot be empty.` -/
  | emptyBody
  /-- `Frame has $bytes bytes.` -/
  | bodyTooLarge (bytes : Nat)
  /-- `Frame length must be positive.` -/
  | lengthNotPositive
  /-- `Advertised frame length is $bytes bytes.` -/
  | advertisedTooLarge (bytes : Nat)
  /-- `Frame is not valid UTF-8.` -/
  | notUtf8
  /-- `Frame is not valid JSON.` -/
  | notJson
  /-- `Frame root must be an object.` -/
  | rootNotObject
  /-- `Envelope fields do not match the v3 schema.` -/
  | fieldsMismatch
  /-- `Unsupported protocol version: $rawVersion.` -/
  | versionUnsupported (rawVersion : JsonValue δ)
  /-- `Message type must be a string.` -/
  | typeNotString
  /-- `Unknown message type: $rawType.` -/
  | typeUnknown (rawType : Utf16)
  /-- `Message payload must be an object.` -/
  | payloadNotObject
  /-- `$key must be a string.`, or a non-empty one. -/
  | notString (key : String) (allowEmpty : Bool)
  /-- `revision must be a non-negative integer.` -/
  | revisionNotNatural

variable {δ : Type}

/-- The class of an exception. -/
def RemoteProtocolException.code : RemoteProtocolException δ → RemoteProtocolError
  | emptyBody | lengthNotPositive => .invalidLength
  | bodyTooLarge _ | advertisedTooLarge _ => .frameTooLarge
  | notUtf8 => .invalidUtf8
  | notJson => .invalidJson
  | versionUnsupported _ => .unsupportedVersion
  | typeUnknown _ => .unknownMessageType
  | rootNotObject | fieldsMismatch | typeNotString | payloadNotObject | notString _ _
  | revisionNotNatural => .invalidEnvelope

/-! ## Envelopes -/

/-- A map of strings to JSON values. -/
abbrev JsonMap (δ : Type) : Type :=
  { members : List (Utf16 × JsonValue δ) // (JsonValue.map members).Distinct }

/-- The value of a key. -/
def JsonMap.get (json : JsonMap δ) (key : String) : Option (JsonValue δ) :=
  json.val.lookup (Utf16.ofString key)

/-- A message with the session and the round it belongs to. -/
structure RemoteEnvelope (δ : Type) where
  type : RemoteMessageType
  sessionId : Utf16
  roundId : Utf16
  messageId : Utf16
  revision : Int64
  payload : JsonMap δ
  version : Int64

/-- The keys that a message must have, and no other. -/
def RemoteEnvelope.fields : List String :=
  ["version", "type", "sessionId", "roundId", "messageId", "revision", "payload"]

/-- The object that stands for a message. -/
def RemoteEnvelope.toJson (envelope : RemoteEnvelope δ) : JsonValue δ :=
  .map
    [(Utf16.ofString "version", .int envelope.version),
      (Utf16.ofString "type", .str (Utf16.ofString envelope.type.name)),
      (Utf16.ofString "sessionId", .str envelope.sessionId),
      (Utf16.ofString "roundId", .str envelope.roundId),
      (Utf16.ofString "messageId", .str envelope.messageId),
      (Utf16.ofString "revision", .int envelope.revision),
      (Utf16.ofString "payload", .map envelope.payload.val)]

/-- A text of the object. -/
def stringField (json : JsonMap δ) (key : String) (allowEmpty : Bool) :
    Except (RemoteProtocolException δ) Utf16 :=
  match json.get key with
  | some (.str value) =>
    if !allowEmpty && value.isEmpty then .error (.notString key allowEmpty) else .ok value
  | _ => .error (.notString key allowEmpty)

/-- The revision of the object, a natural number. -/
def revisionField (json : JsonMap δ) : Except (RemoteProtocolException δ) Int64 :=
  match json.get "revision" with
  | some (.int value) => if value < 0 then .error .revisionNotNatural else .ok value
  | _ => .error .revisionNotNatural

/-- The version of the object, which must be the one that is spoken. -/
def versionField (json : JsonMap δ) : Except (RemoteProtocolException δ) Int64 :=
  match (json.get "version").getD .null with
  | .int value =>
    if value = RemoteProtocolConstants.version then .ok value
    else .error (.versionUnsupported (.int value))
  | rawVersion => .error (.versionUnsupported rawVersion)

/-- The kind of the object. -/
def typeField (json : JsonMap δ) : Except (RemoteProtocolException δ) RemoteMessageType :=
  match json.get "type" with
  | some (.str rawType) =>
    match RemoteMessageType.byName rawType with
    | some type => .ok type
    | none => .error (.typeUnknown rawType)
  | _ => .error .typeNotString

theorem lookup_distinct {members : List (Utf16 × JsonValue δ)} {key : Utf16} {value : JsonValue δ}
    (h : JsonValue.DistinctMembers members) (hget : members.lookup key = some value) :
    value.Distinct := by
  induction members with
  | nil => cases hget
  | cons member rest ih =>
    obtain ⟨other, found⟩ := member
    rw [JsonValue.DistinctMembers] at h
    rw [List.lookup_cons] at hget
    split at hget
    · obtain rfl := Option.some.inj hget
      exact h.1
    · exact ih h.2 hget

theorem JsonMap.get_distinct {json : JsonMap δ} {key : String} {value : JsonValue δ}
    (hget : json.get key = some value) : value.Distinct := by
  have h := json.property
  rw [JsonValue.Distinct] at h
  exact lookup_distinct h.2 hget

/-- The payload of the object, an object itself. -/
def payloadField (json : JsonMap δ) : Except (RemoteProtocolException δ) (JsonMap δ) :=
  match h : json.get "payload" with
  | some (.map members) => .ok ⟨members, JsonMap.get_distinct h⟩
  | _ => .error .payloadNotObject

/-- The fields are checked in the order of the source, the payload before the texts. -/
def RemoteEnvelope.fromJson (json : JsonMap δ) :
    Except (RemoteProtocolException δ) (RemoteEnvelope δ) :=
  if json.val.any (fun member => !fields.any fun field => Utf16.ofString field = member.1)
      || json.val.length ≠ fields.length then
    .error .fieldsMismatch
  else
    versionField json >>= fun version =>
      typeField json >>= fun type =>
        payloadField json >>= fun payload =>
          stringField json "sessionId" true >>= fun sessionId =>
            stringField json "roundId" true >>= fun roundId =>
              stringField json "messageId" false >>= fun messageId =>
                revisionField json >>= fun revision =>
                  .ok { version, type, sessionId, roundId, messageId, revision, payload }

/-! ## Frames -/

/-- The bytes of a text. -/
def utf8Encode (text : Text) : List UInt8 := text.flatMap String.utf8EncodeChar

/-- A byte order mark at the beginning is left out. -/
def utf8Decode (bytes : List UInt8) : Option Text :=
  bytes.toByteArray.utf8Decode?.map fun chars =>
    match chars.toList with
    | c :: rest => if c = Char.ofNat 0xFEFF then rest else c :: rest
    | [] => []

/-- `setUint32` and `getUint32` with `Endian.big`. -/
def setUint32 (n : Nat) : List UInt8 :=
  [UInt8.ofNat (n / 0x1000000), UInt8.ofNat (n / 0x10000), UInt8.ofNat (n / 0x100), UInt8.ofNat n]

/-- Four bytes as a number, the highest first. -/
def getUint32 (bytes : List UInt8) : Nat :=
  bytes.foldl (fun n byte => n * 0x100 + byte.toNat) 0

section Codec

variable (format : DoubleFormat δ)

namespace RemoteFrameCodec

/-- A body is neither empty nor too long. -/
def checkBody (body : List UInt8) : Except (RemoteProtocolException δ) Unit :=
  if body.isEmpty then .error .emptyBody
  else if body.length > RemoteProtocolConstants.maxFrameBytes then
    .error (.bodyTooLarge body.length)
  else .ok ()

/-- The bytes of the text of a message. -/
def encodeBody (envelope : RemoteEnvelope δ) : List UInt8 :=
  utf8Encode (JsonText.write format envelope.toJson)

/-- `encode`: the length of the body and the body. -/
def encode (envelope : RemoteEnvelope δ) : Except (RemoteProtocolException δ) (List UInt8) :=
  checkBody (encodeBody format envelope) >>= fun _ =>
    .ok (setUint32 (encodeBody format envelope).length ++ encodeBody format envelope)

/-- The message of a text. -/
def decodeJson (source : Text) : Except (RemoteProtocolException δ) (RemoteEnvelope δ) :=
  match h : JsonText.parse format source with
  | none => .error .notJson
  | some (.map members) => RemoteEnvelope.fromJson ⟨members, JsonText.parse_distinct h⟩
  | some _ => .error .rootNotObject

/-- The message of a body. -/
def decodeBody (body : List UInt8) : Except (RemoteProtocolException δ) (RemoteEnvelope δ) :=
  checkBody body >>= fun _ =>
    match utf8Decode body with
    | none => .error .notUtf8
    | some source => decodeJson format source

end RemoteFrameCodec

/-- What has arrived of the next frame. -/
structure RemoteFrameDecoder where
  prefixBytes : List UInt8
  body : List UInt8
  expectedBodyLength : Option Nat
deriving DecidableEq

namespace RemoteFrameDecoder

/-- Nothing has arrived. -/
def reset : RemoteFrameDecoder := ⟨[], [], none⟩

/-- How many bytes wait for the rest of their frame. -/
def pendingBytes (decoder : RemoteFrameDecoder) : Nat :=
  match decoder.expectedBodyLength with
  | none => decoder.prefixBytes.length
  | some _ => RemoteProtocolConstants.lengthPrefixBytes + decoder.body.length

/-- How many of the available bytes are needed. -/
def boundedTake (needed available : Nat) : Nat := if needed < available then needed else available

/-- The bytes of a length that are there, and with the last of them its value. -/
def takeLength (decoder : RemoteFrameDecoder) (input : List UInt8) :
    Except (RemoteProtocolException δ) (RemoteFrameDecoder × List UInt8) :=
  let taken := boundedTake
    (RemoteProtocolConstants.lengthPrefixBytes - decoder.prefixBytes.length) input.length
  let prefixBytes := decoder.prefixBytes ++ input.take taken
  if prefixBytes.length < RemoteProtocolConstants.lengthPrefixBytes then
    .ok ({ decoder with prefixBytes }, input.drop taken)
  else if getUint32 prefixBytes = 0 then .error .lengthNotPositive
  else if getUint32 prefixBytes > RemoteProtocolConstants.maxFrameBytes then
    .error (.advertisedTooLarge (getUint32 prefixBytes))
  else
    .ok ({ decoder with prefixBytes := [], expectedBodyLength := some (getUint32 prefixBytes) },
      input.drop taken)

/-- The bytes of a body that are there, and with the last of them its envelope. -/
def takeBody (decoder : RemoteFrameDecoder) (expected : Nat) (input : List UInt8) :
    Except (RemoteProtocolException δ)
      (Option (RemoteEnvelope δ) × RemoteFrameDecoder × List UInt8) :=
  let taken := boundedTake (expected - decoder.body.length) input.length
  let body := decoder.body ++ input.take taken
  if body.length < expected then .ok (none, { decoder with body }, input.drop taken)
  else
    (RemoteFrameCodec.decodeBody format body).map fun envelope =>
      (some envelope, { decoder with body := [], expectedBodyLength := none }, input.drop taken)

/-- The loop of `add`; each round takes at least one of the bytes that are left. -/
def addLoop : Nat → RemoteFrameDecoder → List UInt8 → List (RemoteEnvelope δ) →
    Except (RemoteProtocolException δ) (List (RemoteEnvelope δ) × RemoteFrameDecoder)
  | 0, decoder, _, frames => .ok (frames, decoder)
  | fuel + 1, decoder, input, frames =>
    if input.isEmpty then .ok (frames, decoder)
    else
      match if decoder.expectedBodyLength.isSome then .ok (decoder, input)
        else takeLength decoder input with
      | .error e => .error e
      | .ok (decoder, input) =>
        match decoder.expectedBodyLength with
        | none => .ok (frames, decoder)
        | some expected =>
          match takeBody format decoder expected input with
          | .error e => .error e
          | .ok (none, decoder, _) => .ok (frames, decoder)
          | .ok (some envelope, decoder, input) =>
            addLoop fuel decoder input (frames ++ [envelope])

/-- An exception leaves the decoder reset; the frames of the chunk go with the call. -/
def add (decoder : RemoteFrameDecoder) (bytes : List UInt8) :
    Except (RemoteProtocolException δ) (List (RemoteEnvelope δ) × RemoteFrameDecoder) :=
  addLoop format (bytes.length + 1) decoder bytes []

end RemoteFrameDecoder

end Codec

namespace RemoteFrameChunker

/-- The chunks of a frame, each of at most the payload. -/
def splitFrom (maxPayload : Nat) : Nat → List UInt8 → List (List UInt8)
  | 0, _ => []
  | fuel + 1, frame =>
    if frame.isEmpty then []
    else frame.take maxPayload :: splitFrom maxPayload fuel (frame.drop maxPayload)

/-- `none` for a payload size that is not positive. -/
def split (frame : List UInt8) (maxPayload : Int) : Option (List (List UInt8)) :=
  if maxPayload ≤ 0 then none else some (splitFrom maxPayload.toNat frame.length frame)

end RemoteFrameChunker

end Sanmill.Remote
