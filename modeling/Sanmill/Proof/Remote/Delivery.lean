import Sanmill.Proof.Remote.Framing

/-!
# The delivery of envelopes

The frame of an envelope is decoded to it if the envelope has what the decoder asks for: the
version of the protocol, a message id and a revision that is not negative. So the frames of
such envelopes deliver them, however they are cut.
-/

namespace Sanmill.Remote

open JsonText (DoubleFormat)
open Sanmill.Stream (Scan scan feed lost)

variable {δ : Type} {format : DoubleFormat δ}

/-! ## Envelopes -/

namespace RemoteEnvelope

/-- What the decoder asks of an envelope, and the encoder does not. -/
structure Readable (envelope : RemoteEnvelope δ) : Prop where
  version : envelope.version = RemoteProtocolConstants.version
  messageId : envelope.messageId ≠ []
  revision : ¬ envelope.revision < 0

def members (envelope : RemoteEnvelope δ) : List (Utf16 × JsonValue δ) :=
  [(Utf16.ofString "version", .int envelope.version),
    (Utf16.ofString "type", .str (Utf16.ofString envelope.type.name)),
    (Utf16.ofString "sessionId", .str envelope.sessionId),
    (Utf16.ofString "roundId", .str envelope.roundId),
    (Utf16.ofString "messageId", .str envelope.messageId),
    (Utf16.ofString "revision", .int envelope.revision),
    (Utf16.ofString "payload", .map envelope.payload.val)]

theorem keys_members (envelope : RemoteEnvelope δ) :
    envelope.members.map (·.1) = fields.map Utf16.ofString := rfl

theorem members_distinct (envelope : RemoteEnvelope δ) :
    (JsonValue.map envelope.members).Distinct := by
  have hkeys : (fields.map Utf16.ofString).Nodup := by decide
  have hpayload : (JsonValue.map envelope.payload.val).Distinct := envelope.payload.property
  rw [JsonValue.Distinct, keys_members]
  refine ⟨hkeys, ?_⟩
  simp only [members, JsonValue.DistinctMembers, hpayload, and_true]
  simp only [JsonValue.Distinct, and_self]

/-- The map that the envelope is written as. -/
def json (envelope : RemoteEnvelope δ) : JsonMap δ := ⟨envelope.members, envelope.members_distinct⟩

section Fields

variable (envelope : RemoteEnvelope δ)

theorem get_version : envelope.json.get "version" = some (.int envelope.version) := rfl

theorem get_type :
    envelope.json.get "type" = some (.str (Utf16.ofString envelope.type.name)) := rfl

theorem get_messageId : envelope.json.get "messageId" = some (.str envelope.messageId) := rfl

theorem get_revision : envelope.json.get "revision" = some (.int envelope.revision) := rfl

end Fields

end RemoteEnvelope

theorem RemoteMessageType.byName_name (type : RemoteMessageType) :
    byName (Utf16.ofString type.name) = some type := by
  cases type <;> rfl

namespace RemoteEnvelope

variable {envelope : RemoteEnvelope δ}

/-- The fields are those of the schema; what is left are the checks of the values. -/
theorem fromJson_json : fromJson envelope.json
    = versionField envelope.json >>= fun version =>
      stringField envelope.json "messageId" false >>= fun messageId =>
        revisionField envelope.json >>= fun revision =>
          .ok { envelope with version, messageId, revision } := by
  have hkeys : envelope.json.val.any
      (fun member => !fields.any fun field => Utf16.ofString field = member.1) = false := by
    rw [List.any_eq_false]
    intro member hmember
    have hkey : member.1 ∈ fields.map Utf16.ofString := by
      rw [← keys_members envelope]
      exact List.mem_map_of_mem hmember
    obtain ⟨field, hfield, heq⟩ := List.mem_map.1 hkey
    have hfound : (fields.any fun field => Utf16.ofString field = member.1) = true :=
      List.any_eq_true.2 ⟨field, hfield, decide_eq_true heq⟩
    rw [hfound]
    decide
  have htype : typeField envelope.json = .ok envelope.type := by
    unfold typeField
    rw [get_type]
    dsimp only
    rw [RemoteMessageType.byName_name]
  have hpayload : payloadField envelope.json = .ok envelope.payload := rfl
  have hsession : stringField envelope.json "sessionId" true = .ok envelope.sessionId := rfl
  have hround : stringField envelope.json "roundId" true = .ok envelope.roundId := rfl
  have hlength : envelope.json.val.length = fields.length := rfl
  unfold fromJson
  rw [hkeys, hlength, htype, hpayload, hsession, hround]
  rfl

/-- A readable envelope is read back. -/
theorem fromJson_readable (h : envelope.Readable) : fromJson envelope.json = .ok envelope := by
  have hversion : versionField envelope.json = .ok envelope.version := by
    unfold versionField
    rw [get_version]
    exact if_pos h.version
  have hmessage : stringField envelope.json "messageId" false = .ok envelope.messageId := by
    unfold stringField
    rw [get_messageId]
    have hne : envelope.messageId.isEmpty = false := List.isEmpty_eq_false_iff.2 h.messageId
    dsimp only
    rw [hne]
    rfl
  have hrevision : revisionField envelope.json = .ok envelope.revision := by
    unfold revisionField
    rw [get_revision]
    exact if_neg h.revision
  rw [fromJson_json, hversion, hmessage, hrevision]
  rfl

/-- Any other is refused. -/
theorem readable_of_fromJson {found : RemoteEnvelope δ} (h : fromJson envelope.json = .ok found) :
    envelope.Readable := by
  rw [fromJson_json] at h
  -- `fromJson` checks the version, the message and the revision in this order; the first that fails
  -- is the answer
  refine ⟨?_, ?_, ?_⟩
  · by_contra hversion
    have hfield : versionField envelope.json
        = .error (.versionUnsupported (.int envelope.version)) := by
      unfold versionField
      rw [get_version]
      exact if_neg hversion
    rw [hfield] at h
    cases h
  · intro hmessage
    have hfield : stringField envelope.json "messageId" false
        = .error (.notString "messageId" false) := by
      unfold stringField
      rw [get_messageId, hmessage]
      rfl
    rw [hfield] at h
    cases hversion : versionField envelope.json with
    | error e =>
      rw [hversion] at h
      cases h
    | ok version =>
      rw [hversion] at h
      cases h
  · intro hrevision
    have hfield : revisionField envelope.json = .error .revisionNotNatural := by
      unfold revisionField
      rw [get_revision]
      exact if_pos hrevision
    rw [hfield] at h
    cases hversion : versionField envelope.json with
    | error e =>
      rw [hversion] at h
      cases h
    | ok version =>
      rw [hversion] at h
      cases hmessage : stringField envelope.json "messageId" false with
      | error e =>
        rw [hmessage] at h
        cases h
      | ok messageId =>
        rw [hmessage] at h
        cases h

end RemoteEnvelope

/-! ## Bodies -/

namespace RemoteFrameCodec

theorem write_json (format : DoubleFormat δ) (envelope : RemoteEnvelope δ) :
    ∃ text, JsonText.write format envelope.toJson = '{' :: text :=
  ⟨_, rfl⟩

theorem utf8Decode_utf8Encode {c : Char} {text : Text} (h : c ≠ Char.ofNat 0xFEFF) :
    utf8Decode (utf8Encode (c :: text)) = some (c :: text) := by
  have hdecode : (utf8Encode (c :: text)).toByteArray.utf8Decode? = some (c :: text).toArray :=
    List.utf8Decode?_utf8Encode
  unfold utf8Decode
  rw [hdecode, Option.map_some]
  exact congrArg some (if_neg h)

theorem decodeJson_write (envelope : RemoteEnvelope δ) :
    decodeJson format (JsonText.write format envelope.toJson)
      = RemoteEnvelope.fromJson envelope.json := by
  have hparse : JsonText.parse format (JsonText.write format envelope.toJson)
      = some envelope.toJson := JsonText.parse_write envelope.members_distinct
  unfold decodeJson
  split
  · rename_i hnone
    rw [hparse] at hnone
    cases hnone
  · rename_i members hsome
    rw [hparse] at hsome
    obtain rfl := JsonValue.map.inj (Option.some.inj hsome)
    rfl
  · rename_i value hmap hsome
    rw [hparse] at hsome
    exact absurd (Option.some.inj hsome).symm (hmap envelope.members)

theorem decodeBody_encodeBody {envelope : RemoteEnvelope δ}
    (h : checkBody (encodeBody format envelope) = (.ok () : Except (RemoteProtocolException δ) _)) :
    decodeBody format (encodeBody format envelope) = RemoteEnvelope.fromJson envelope.json := by
  obtain ⟨text, htext⟩ := write_json format envelope
  have hdecode : utf8Decode (encodeBody format envelope)
      = some (JsonText.write format envelope.toJson) := by
    unfold encodeBody
    rw [htext]
    exact utf8Decode_utf8Encode (by decide)
  unfold decodeBody
  rw [h, hdecode]
  exact decodeJson_write envelope

theorem checkBody_ok {body : List UInt8}
    (h : checkBody body = (.ok () : Except (RemoteProtocolException δ) _)) :
    body ≠ [] ∧ body.length ≤ RemoteProtocolConstants.maxFrameBytes := by
  unfold checkBody at h
  split at h
  · cases h
  · rename_i hempty
    split at h
    · cases h
    · rename_i hle
      exact ⟨fun hnil => hempty (List.isEmpty_iff.2 hnil), Nat.not_lt.1 hle⟩

theorem encode_ok {envelope : RemoteEnvelope δ} {frame : List UInt8}
    (h : encode format envelope = .ok frame) :
    checkBody (encodeBody format envelope) = (.ok () : Except (RemoteProtocolException δ) _)
      ∧ frame = setUint32 (encodeBody format envelope).length ++ encodeBody format envelope := by
  unfold encode at h
  cases hcheck : (checkBody (encodeBody format envelope) : Except
    (RemoteProtocolException δ) _) with
  | error e =>
    rw [hcheck] at h
    cases h
  | ok _ =>
    rw [hcheck] at h
    exact ⟨rfl, (Except.ok.inj h).symm⟩

theorem encode_of_checkBody {envelope : RemoteEnvelope δ}
    (h : checkBody (encodeBody format envelope) = (.ok () : Except (RemoteProtocolException δ) _)) :
    encode format envelope
      = .ok (setUint32 (encodeBody format envelope).length ++ encodeBody format envelope) := by
  unfold encode
  rw [h]
  rfl

end RemoteFrameCodec

/-! ## Frames -/

theorem getUint32_setUint32 {n : Nat} (h : n < 0x100000000) : getUint32 (setUint32 n) = n := by
  unfold getUint32 setUint32
  simp only [List.foldl_cons, List.foldl_nil, UInt8.toNat_ofNat']
  omega

theorem setUint32_length (n : Nat) : (setUint32 n).length = 4 := rfl

namespace RemoteFrameDecoder

/-- The scan of a frame, from its first byte. -/
theorem scan_frame {body : List UInt8} (rest : List UInt8) (hbody : body ≠ [])
    (hle : body.length ≤ RemoteProtocolConstants.maxFrameBytes) :
    scan (byteStep format) reset (setUint32 body.length ++ (body ++ rest))
      = match RemoteFrameCodec.decodeBody format body with
        | .error e => ⟨[], .error e⟩
        | .ok envelope => (scan (byteStep format) reset rest).after [envelope] := by
  have hpos : 0 < body.length := List.length_pos_iff.2 hbody
  have hvalue : getUint32 (setUint32 body.length) = body.length := by
    refine getUint32_setUint32 ?_
    unfold RemoteProtocolConstants.maxFrameBytes at hle
    omega
  -- the four bytes of the length are all there
  have hlength : takeLength reset (setUint32 body.length ++ (body ++ rest))
      = (.ok (⟨[], [], some body.length⟩, body ++ rest)
        : Except (RemoteProtocolException δ) _) := by
    have htaken : boundedTake (RemoteProtocolConstants.lengthPrefixBytes
        - reset.prefixBytes.length) (setUint32 body.length ++ (body ++ rest)).length
        = (setUint32 body.length).length := by
      have hneeded : RemoteProtocolConstants.lengthPrefixBytes - reset.prefixBytes.length = 4 := rfl
      rw [boundedTake_eq_min, List.length_append, hneeded, setUint32_length]
      omega
    unfold takeLength
    rw [htaken]
    dsimp only
    rw [List.take_left, List.drop_left]
    have hpre : reset.prefixBytes ++ setUint32 body.length = setUint32 body.length := rfl
    have hcomplete : ¬ (setUint32 body.length).length
        < RemoteProtocolConstants.lengthPrefixBytes := by
      rw [setUint32_length]
      decide
    rw [hpre, if_neg hcomplete, hvalue, if_neg (Nat.ne_of_gt hpos), if_neg (Nat.not_lt.2 hle)]
    rfl
  -- and so is the whole body
  have htake : takeBody format ⟨[], [], some body.length⟩ body.length (body ++ rest)
      = (RemoteFrameCodec.decodeBody format body).map fun envelope =>
        (some envelope, reset, rest) := by
    have htaken : boundedTake (body.length - 0) (body ++ rest).length = body.length := by
      rw [boundedTake_eq_min, List.length_append]
      omega
    unfold takeBody
    dsimp only
    rw [List.length_nil, htaken, List.take_left, List.drop_left, List.nil_append,
      if_neg (Nat.lt_irrefl _)]
    rfl
  have hne : setUint32 body.length ++ (body ++ rest) ≠ [] := List.cons_ne_nil _ _
  rw [scan_length reset_valid rfl hne, hlength]
  dsimp only
  rw [scan_body rfl hpos, htake]
  cases RemoteFrameCodec.decodeBody format body with
  | error e => rfl
  | ok envelope => rfl

theorem scan_encode {envelope : RemoteEnvelope δ} {frame : List UInt8} (rest : List UInt8)
    (h : RemoteFrameCodec.encode format envelope = .ok frame) :
    scan (byteStep format) reset (frame ++ rest)
      = match RemoteEnvelope.fromJson envelope.json with
        | .error e => ⟨[], .error e⟩
        | .ok found => (scan (byteStep format) reset rest).after [found] := by
  obtain ⟨hcheck, rfl⟩ := RemoteFrameCodec.encode_ok h
  obtain ⟨hbody, hle⟩ := RemoteFrameCodec.checkBody_ok hcheck
  rw [List.append_assoc, scan_frame rest hbody hle, RemoteFrameCodec.decodeBody_encodeBody hcheck]

/-- The frames of readable envelopes deliver them, and leave nothing pending. -/
theorem scan_frames {envelopes : List (RemoteEnvelope δ)} {frames : List (List UInt8)}
    (hframes : List.Forall₂ (fun envelope frame =>
      RemoteFrameCodec.encode format envelope = .ok frame) envelopes frames)
    (hread : ∀ envelope ∈ envelopes, envelope.Readable) :
    scan (byteStep format) reset frames.flatten = ⟨envelopes, .ok reset⟩ := by
  induction hframes with
  | nil => rfl
  | @cons envelope frame envelopes frames hframe _ ih =>
    have hfirst : envelope.Readable := hread envelope (List.mem_cons_self ..)
    have hrest := ih fun other hother => hread other (List.mem_cons_of_mem _ hother)
    rw [List.flatten_cons, scan_encode _ hframe, RemoteEnvelope.fromJson_readable hfirst, hrest]
    rfl

/-- An envelope that is not readable ends the stream with an error. -/
theorem readable_of_scan {envelopes : List (RemoteEnvelope δ)} {frames : List (List UInt8)}
    (hframes : List.Forall₂ (fun envelope frame =>
      RemoteFrameCodec.encode format envelope = .ok frame) envelopes frames)
    {next : RemoteFrameDecoder}
    (hscan : (scan (byteStep format) reset frames.flatten).stop = .ok next) :
    ∀ envelope ∈ envelopes, envelope.Readable := by
  induction hframes with
  | nil =>
    intro envelope hmem
    cases hmem
  | @cons envelope frame envelopes frames hframe _ ih =>
    rw [List.flatten_cons, scan_encode _ hframe] at hscan
    cases hfound : RemoteEnvelope.fromJson envelope.json with
    | error e =>
      rw [hfound] at hscan
      cases hscan
    | ok found =>
      rw [hfound] at hscan
      intro other hmem
      rcases List.mem_cons.1 hmem with rfl | hmem
      · exact RemoteEnvelope.readable_of_fromJson hfound
      · exact ih hscan other hmem

end RemoteFrameDecoder

/-! ## Chunks of a frame -/

theorem RemoteFrameChunker.splitFrom_flatten {maxPayload fuel : Nat} {frame : List UInt8}
    (hpos : 0 < maxPayload) (hfuel : frame.length ≤ fuel) :
    (splitFrom maxPayload fuel frame).flatten = frame := by
  induction fuel generalizing frame with
  | zero =>
    obtain rfl := List.length_eq_zero_iff.1 (Nat.le_zero.1 hfuel)
    rfl
  | succ fuel ih =>
    rw [splitFrom]
    split
    · rename_i hempty
      exact (List.isEmpty_iff.1 hempty).symm
    · have hrest : (frame.drop maxPayload).length ≤ fuel := by
        rw [List.length_drop]
        omega
      rw [List.flatten_cons, ih hrest, List.take_append_drop]

theorem RemoteFrameChunker.split_flatten {maxPayload : Int} (frame : List UInt8)
    (hpos : 0 < maxPayload) :
    ∃ chunks, split frame maxPayload = some chunks ∧ chunks.flatten = frame := by
  unfold split
  rw [if_neg (Int.not_le.2 hpos)]
  exact ⟨_, rfl, splitFrom_flatten (by omega) (Nat.le_refl _)⟩

namespace RemoteFrameDecoder

/-- However a stream is cut: the same error after the same frames, and the same envelopes but
for those of the chunk with the error. Frames of envelopes deliver exactly them if and only if
every one of them is readable. -/
theorem add_chunks (format : DoubleFormat δ) :
    (∀ chunks₁ chunks₂ : List (List UInt8), chunks₁.flatten = chunks₂.flatten →
      (feed (add format) reset chunks₁).stop = (feed (add format) reset chunks₂).stop
        ∧ (feed (add format) reset chunks₁).outs ++ lost (byteStep format) reset chunks₁
          = (feed (add format) reset chunks₂).outs ++ lost (byteStep format) reset chunks₂)
    ∧ (∀ (envelopes : List (RemoteEnvelope δ)) (frames chunks : List (List UInt8)),
      List.Forall₂ (fun envelope frame => RemoteFrameCodec.encode format envelope = .ok frame)
        envelopes frames → chunks.flatten = frames.flatten →
      (((feed (add format) reset chunks).outs = envelopes
          ∧ ∃ decoder, (feed (add format) reset chunks).stop = .ok decoder
            ∧ decoder.pendingBytes = 0)
        ↔ ∀ envelope ∈ envelopes, envelope.Readable))
    ∧ ∀ (frame : List UInt8) (maxPayload : Int), 0 < maxPayload →
      ∃ chunks, RemoteFrameChunker.split frame maxPayload = some chunks
        ∧ chunks.flatten = frame := by
  refine ⟨?_, ?_, ?_⟩
  -- batching by chunks is a scan over their concatenation
  · intro chunks₁ chunks₂ hflatten
    obtain ⟨hstop₁, houts₁⟩ := (batches format).feed reset_valid chunks₁
    obtain ⟨hstop₂, houts₂⟩ := (batches format).feed reset_valid chunks₂
    rw [hstop₁, hstop₂, houts₁, houts₂, hflatten]
    exact ⟨rfl, rfl⟩
  · intro envelopes frames chunks hframes hflatten
    obtain ⟨hstop, houts⟩ := (batches format).feed reset_valid chunks
    rw [hflatten] at hstop houts
    constructor
    · rintro ⟨-, decoder, hok, -⟩
      rw [hstop] at hok
      exact readable_of_scan hframes hok
    · intro hread
      have hscan := scan_frames hframes hread
      rw [hscan] at hstop houts
      -- nothing was lost: the decoder stands where it started
      have hlost : lost (byteStep format) reset chunks = [] := by
        have hok : (scan (byteStep format) reset chunks.flatten).stop = .ok reset := by
          rw [hflatten, hscan]
        exact Stream.lost_of_ok hok
      rw [hlost, List.append_nil] at houts
      exact ⟨houts, reset, hstop, rfl⟩
  · intro frame maxPayload hpos
    exact RemoteFrameChunker.split_flatten frame hpos

/-! ### One ping -/

/-- The doubles of a stream in which there is only zero. -/
def zeroFormat : DoubleFormat Unit where
  literal _ := ⟨false, ['0'], some ['0'], none⟩
  nearest _ := ()
  wellFormed := by
    intro d
    refine ⟨rfl, fun _ => rfl, ?_, ?_⟩
    · intro text htext
      obtain rfl := Option.some.inj htext
      rfl
    · intro parts hparts
      cases hparts
  isDouble _ := rfl
  nearest_literal _ := rfl

def ping : RemoteEnvelope Unit where
  type := .ping
  sessionId := Utf16.ofString "s"
  roundId := Utf16.ofString "r"
  messageId := Utf16.ofString "m"
  revision := 0
  payload := ⟨[], by simp only [JsonValue.Distinct, JsonValue.DistinctMembers, List.map_nil,
    List.nodup_nil, and_self]⟩
  version := RemoteProtocolConstants.version

def pingFrame : List UInt8 :=
  setUint32 (RemoteFrameCodec.encodeBody zeroFormat ping).length
    ++ RemoteFrameCodec.encodeBody zeroFormat ping

theorem encode_ping : RemoteFrameCodec.encode zeroFormat ping = .ok pingFrame :=
  RemoteFrameCodec.encode_of_checkBody rfl

theorem ping_readable : ping.Readable := ⟨rfl, by decide, by decide⟩

/-- Two pings, cut into single bytes and in the middle of a length. -/
theorem add_chunks_pings :
    (feed (add zeroFormat) reset ((pingFrame ++ pingFrame).map fun byte => [byte])).outs
        = [ping, ping]
      ∧ (feed (add zeroFormat) reset ((pingFrame ++ pingFrame).map fun byte => [byte])).outs
        ++ lost (byteStep zeroFormat) reset ((pingFrame ++ pingFrame).map fun byte => [byte])
        = (feed (add zeroFormat) reset
            [(pingFrame ++ pingFrame).take 3, (pingFrame ++ pingFrame).drop 3]).outs
          ++ lost (byteStep zeroFormat) reset
            [(pingFrame ++ pingFrame).take 3, (pingFrame ++ pingFrame).drop 3]
      ∧ ∃ chunks, RemoteFrameChunker.split pingFrame 20 = some chunks
        ∧ chunks.flatten = pingFrame := by
  obtain ⟨hsame, hdelivered, hsplit⟩ := add_chunks zeroFormat
  have hflatten : ((pingFrame ++ pingFrame).map fun byte => [byte]).flatten
      = pingFrame ++ pingFrame := List.flatMap_singleton' _
  have hcut : [(pingFrame ++ pingFrame).take 3, (pingFrame ++ pingFrame).drop 3].flatten
      = pingFrame ++ pingFrame := by
    rw [List.flatten_cons, List.flatten_cons, List.flatten_nil, List.append_nil,
      List.take_append_drop]
  have hframes : [pingFrame, pingFrame].flatten = pingFrame ++ pingFrame := by
    rw [List.flatten_cons, List.flatten_cons, List.flatten_nil, List.append_nil]
  refine ⟨?_, (hsame _ _ (hflatten.trans hcut.symm)).2, hsplit pingFrame 20 (by decide)⟩
  refine ((hdelivered [ping, ping] [pingFrame, pingFrame] _
    (.cons encode_ping (.cons encode_ping .nil)) (hflatten.trans hframes.symm)).2 ?_).1
  intro envelope hmem
  rcases List.mem_cons.1 hmem with rfl | hmem
  · exact ping_readable
  · obtain rfl := List.mem_singleton.1 hmem
    exact ping_readable

/-- Envelopes that are encoded, and that the decoder refuses. -/
def refusedPings : List (RemoteEnvelope Unit) :=
  [{ ping with version := 4 }, { ping with messageId := [] }, { ping with revision := -1 }]

theorem feed_refused {envelope : RemoteEnvelope δ} {e : RemoteProtocolException δ}
    (hcheck : RemoteFrameCodec.checkBody (RemoteFrameCodec.encodeBody format envelope)
      = (.ok () : Except (RemoteProtocolException δ) _))
    (herror : RemoteEnvelope.fromJson envelope.json = .error e) :
    ∃ frame, RemoteFrameCodec.encode format envelope = .ok frame
      ∧ (feed (add format) reset [frame]).outs = [] := by
  have hencode := RemoteFrameCodec.encode_of_checkBody hcheck
  refine ⟨_, hencode, ?_⟩
  have hscan := scan_encode [] hencode
  rw [herror, List.append_nil] at hscan
  rw [feed, add_eq reset_valid, hscan]
  rfl

/-- A ping is lost with a bad frame in its chunk, and delivered if the bad frame comes in the
next one; and some envelopes are encoded that are not delivered. -/
theorem add_chunks_differ :
    ((feed (add zeroFormat) reset [pingFrame ++ [0, 0, 0, 0]]).outs = []
        ∧ (feed (add zeroFormat) reset [pingFrame, [0, 0, 0, 0]]).outs = [ping])
      ∧ ∀ envelope ∈ refusedPings, ∃ frame,
        RemoteFrameCodec.encode zeroFormat envelope = .ok frame
          ∧ (feed (add zeroFormat) reset [frame]).outs = [] := by
  have hbad : scan (byteStep zeroFormat) reset [0, 0, 0, 0] = ⟨[], .error .lengthNotPositive⟩ :=
    scan_length reset_valid rfl (by decide)
  have hping : ∀ rest, scan (byteStep zeroFormat) reset (pingFrame ++ rest)
      = (scan (byteStep zeroFormat) reset rest).after [ping] := by
    intro rest
    rw [scan_encode rest encode_ping, RemoteEnvelope.fromJson_readable ping_readable]
  refine ⟨⟨?_, ?_⟩, ?_⟩
  · rw [feed, add_eq reset_valid, hping, hbad]
    rfl
  · have hfirst := hping []
    rw [List.append_nil] at hfirst
    rw [feed, add_eq reset_valid, hfirst]
    rfl
  · intro envelope hmem
    rcases List.mem_cons.1 hmem with rfl | hmem
    · exact feed_refused (e := .versionUnsupported (.int 4)) rfl rfl
    · rcases List.mem_cons.1 hmem with rfl | hmem
      · exact feed_refused (e := .notString "messageId" false) rfl rfl
      · obtain rfl := List.mem_singleton.1 hmem
        exact feed_refused (e := .revisionNotNatural) rfl rfl

end RemoteFrameDecoder

end Sanmill.Remote
