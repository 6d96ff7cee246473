import Sanmill.Lib.Stream
import Sanmill.Remote.Protocol

/-!
# The chunks of a stream

The loop over a chunk decodes it byte by byte. So every way of cutting a stream gives the
same error at the same frame, and the same envelopes before it, up to those that the chunk
with the error completes: they are lost with the exception.
-/

namespace Sanmill.Remote

open JsonText (DoubleFormat)
open Sanmill.Stream (Scan Batches scan feed lost)

variable {δ : Type} {format : DoubleFormat δ} {decoder : RemoteFrameDecoder} {b : UInt8}
  {input : List UInt8}

namespace RemoteFrameDecoder

/-- What the decoder does with one byte. -/
def byteStep (format : DoubleFormat δ) (decoder : RemoteFrameDecoder) (b : UInt8) :
    Except (RemoteProtocolException δ) (RemoteFrameDecoder × Option (RemoteEnvelope δ)) :=
  match decoder.expectedBodyLength with
  | none => (takeLength decoder [b]).map fun (next, _) => (next, none)
  | some expected =>
    (takeBody format decoder expected [b]).map fun (envelope, next, _) => (next, envelope)

/-- Between two bytes: part of a length, or a length and part of a body. -/
def Valid (decoder : RemoteFrameDecoder) : Prop :=
  match decoder.expectedBodyLength with
  | none => decoder.prefixBytes.length < RemoteProtocolConstants.lengthPrefixBytes
      ∧ decoder.body = []
  | some expected => decoder.prefixBytes = [] ∧ decoder.body.length < expected

theorem boundedTake_eq_min (needed available : Nat) :
    boundedTake needed available = min needed available := by
  unfold boundedTake
  split
  · omega
  · omega

theorem reset_valid : Valid reset := ⟨by decide, rfl⟩

/-! ## The length -/

theorem takeLength_nil (hlt : decoder.prefixBytes.length
    < RemoteProtocolConstants.lengthPrefixBytes) :
    takeLength decoder [] = (.ok (decoder, []) : Except (RemoteProtocolException δ) _) := by
  unfold takeLength
  simp only [List.take_nil, List.append_nil, List.drop_nil]
  rw [if_pos hlt]

/-- A byte that does not complete the length. -/
theorem takeLength_cons_short
    (hlt : decoder.prefixBytes.length + 1 < RemoteProtocolConstants.lengthPrefixBytes) :
    (takeLength decoder (b :: input) : Except (RemoteProtocolException δ) _)
      = takeLength { decoder with prefixBytes := decoder.prefixBytes ++ [b] } input := by
  have htaken : boundedTake
      (RemoteProtocolConstants.lengthPrefixBytes - decoder.prefixBytes.length) (b :: input).length
      = boundedTake (RemoteProtocolConstants.lengthPrefixBytes
          - (decoder.prefixBytes ++ [b]).length) input.length + 1 := by
    rw [boundedTake_eq_min, boundedTake_eq_min, List.length_cons, List.length_append,
      List.length_singleton]
    omega
  unfold takeLength
  rw [htaken]
  simp only [List.take_succ_cons, List.drop_succ_cons, List.append_assoc, List.singleton_append]

/-- A byte that completes the length. -/
theorem takeLength_cons_last
    (hlast : decoder.prefixBytes.length + 1 = RemoteProtocolConstants.lengthPrefixBytes) :
    (takeLength decoder (b :: input) : Except (RemoteProtocolException δ) _)
      = (takeLength decoder [b]).map fun (next, _) => (next, input) := by
  have htaken : ∀ rest : List UInt8, boundedTake
      (RemoteProtocolConstants.lengthPrefixBytes - decoder.prefixBytes.length) (b :: rest).length
      = 1 := by
    intro rest
    rw [boundedTake_eq_min, List.length_cons]
    omega
  unfold takeLength
  rw [htaken, htaken]
  simp only [List.take_succ_cons, List.take_zero, List.drop_succ_cons, List.drop_zero,
    List.length_append, List.length_singleton]
  have hlong : ¬ decoder.prefixBytes.length + 1 < RemoteProtocolConstants.lengthPrefixBytes := by
    omega
  rw [if_neg hlong, if_neg hlong]
  split
  · rfl
  · split
    · rfl
    · rfl

theorem byteStep_length (hnone : decoder.expectedBodyLength = none) :
    byteStep format decoder b = (takeLength decoder [b]).map fun (next, _) => (next, none) := by
  unfold byteStep
  split
  · rfl
  · rename_i hsome
    rw [hnone] at hsome
    cases hsome

theorem byteStep_body {expected : Nat} (hsome : decoder.expectedBodyLength = some expected) :
    byteStep format decoder b
      = (takeBody format decoder expected [b]).map fun (envelope, next, _) =>
        (next, envelope) := by
  unfold byteStep
  split
  · rename_i hnone
    rw [hsome] at hnone
    cases hnone
  · rename_i found hfound
    rw [hsome] at hfound
    obtain rfl := Option.some.inj hfound
    rfl

theorem byteStep_length_short (hnone : decoder.expectedBodyLength = none)
    (hlt : decoder.prefixBytes.length + 1 < RemoteProtocolConstants.lengthPrefixBytes) :
    byteStep format decoder b
      = .ok ({ decoder with prefixBytes := decoder.prefixBytes ++ [b] }, none) := by
  have hnext : (decoder.prefixBytes ++ [b]).length < RemoteProtocolConstants.lengthPrefixBytes := by
    rw [List.length_append, List.length_singleton]
    exact hlt
  rw [byteStep_length hnone, takeLength_cons_short hlt, takeLength_nil hnext]
  rfl

/-- Scanning the bytes of a length is taking them. -/
theorem scan_length (hvalid : Valid decoder) (hnone : decoder.expectedBodyLength = none)
    (hinput : input ≠ []) :
    scan (byteStep format) decoder input = match takeLength decoder input with
      | .error e => ⟨[], .error e⟩
      | .ok (next, rest) => scan (byteStep format) next rest := by
  induction input generalizing decoder with
  | nil => exact absurd rfl hinput
  | cons b rest ih =>
    have hvalid' := hvalid
    unfold Valid at hvalid'
    rw [hnone] at hvalid'
    obtain ⟨hlt, hbody⟩ := hvalid'
    -- the length is not complete with this byte, or it is its last one
    by_cases hshort : decoder.prefixBytes.length + 1 < RemoteProtocolConstants.lengthPrefixBytes
    · rw [Stream.scan_cons_ok (byteStep_length_short hnone hshort), takeLength_cons_short hshort]
      have hshort' : (decoder.prefixBytes ++ [b]).length
          < RemoteProtocolConstants.lengthPrefixBytes := by
        rw [List.length_append, List.length_singleton]
        exact hshort
      have hnext : Valid { decoder with prefixBytes := decoder.prefixBytes ++ [b] } := by
        unfold Valid
        rw [hnone]
        exact ⟨hshort', hbody⟩
      cases rest with
      | nil =>
        rw [takeLength_nil hshort']
        rfl
      | cons c tail =>
        rw [← ih hnext hnone (List.cons_ne_nil c tail)]
        rfl
    · rw [takeLength_cons_last (by omega)]
      cases htake : takeLength decoder [b] with
      | error e =>
        refine Stream.scan_cons_error ?_ rest
        rw [byteStep_length hnone, htake]
        rfl
      | ok next =>
        obtain ⟨next, left⟩ := next
        have hstep : byteStep format decoder b = .ok (next, none) := by
          rw [byteStep_length hnone, htake]
          rfl
        exact Stream.scan_cons_ok hstep rest

/-- A length that is complete is the length of a body. -/
theorem takeLength_valid {next : RemoteFrameDecoder} {rest : List UInt8} (hvalid : Valid decoder)
    (hnone : decoder.expectedBodyLength = none)
    (htake : takeLength decoder input
      = (.ok (next, rest) : Except (RemoteProtocolException δ) _)) :
    Valid next ∧ (next.expectedBodyLength = none → rest = []) ∧ rest.length ≤ input.length := by
  have hvalid' := hvalid
  unfold Valid at hvalid'
  rw [hnone] at hvalid'
  obtain ⟨hlt, hbody⟩ := hvalid'
  unfold takeLength at htake
  dsimp only at htake
  split at htake
  -- the input ended within the length
  · rename_i hshort
    obtain ⟨rfl, rfl⟩ := Prod.mk.inj (Except.ok.inj htake)
    refine ⟨?_, fun _ => ?_, ?_⟩
    · unfold Valid
      rw [hnone]
      exact ⟨hshort, hbody⟩
    · rw [boundedTake_eq_min] at hshort ⊢
      rw [List.length_append, List.length_take] at hshort
      exact List.drop_eq_nil_of_le (by omega)
    · rw [List.length_drop]
      omega
  · split at htake
    · cases htake
    · rename_i hpos
      split at htake
      · cases htake
      · obtain ⟨rfl, rfl⟩ := Prod.mk.inj (Except.ok.inj htake)
        refine ⟨⟨rfl, ?_⟩, fun h => (by cases h), ?_⟩
        · rw [hbody, List.length_nil]
          omega
        · rw [List.length_drop]
          omega

/-! ## The body -/

/-- A byte that does not complete the body. -/
theorem takeBody_cons_short {expected : Nat} (hlt : decoder.body.length + 1 < expected) :
    takeBody format decoder expected (b :: input)
      = takeBody format { decoder with body := decoder.body ++ [b] } expected input := by
  have htaken : boundedTake (expected - decoder.body.length) (b :: input).length
      = boundedTake (expected - (decoder.body ++ [b]).length) input.length + 1 := by
    rw [boundedTake_eq_min, boundedTake_eq_min, List.length_cons, List.length_append,
      List.length_singleton]
    omega
  unfold takeBody
  rw [htaken]
  simp only [List.take_succ_cons, List.drop_succ_cons, List.append_assoc, List.singleton_append]

theorem takeBody_nil {expected : Nat} (hlt : decoder.body.length < expected) :
    takeBody format decoder expected [] = .ok (none, decoder, []) := by
  unfold takeBody
  simp only [List.take_nil, List.append_nil, List.drop_nil]
  rw [if_pos hlt]

/-- A byte that completes the body. -/
theorem takeBody_cons_last {expected : Nat} (hlast : decoder.body.length + 1 = expected) :
    takeBody format decoder expected (b :: input)
      = (takeBody format decoder expected [b]).map fun (envelope, next, _) =>
        (envelope, next, input) := by
  have htaken : ∀ rest : List UInt8,
      boundedTake (expected - decoder.body.length) (b :: rest).length = 1 := by
    intro rest
    rw [boundedTake_eq_min, List.length_cons]
    omega
  unfold takeBody
  rw [htaken, htaken]
  simp only [List.take_succ_cons, List.take_zero, List.drop_succ_cons, List.drop_zero,
    List.length_append, List.length_singleton]
  have hlong : ¬ decoder.body.length + 1 < expected := by omega
  rw [if_neg hlong, if_neg hlong]
  cases RemoteFrameCodec.decodeBody format (decoder.body ++ [b]) with
  | error e => rfl
  | ok envelope => rfl

theorem byteStep_body_short {expected : Nat} (hsome : decoder.expectedBodyLength = some expected)
    (hlt : decoder.body.length + 1 < expected) :
    byteStep format decoder b = .ok ({ decoder with body := decoder.body ++ [b] }, none) := by
  have hnext : (decoder.body ++ [b]).length < expected := by
    rw [List.length_append, List.length_singleton]
    exact hlt
  rw [byteStep_body hsome, takeBody_cons_short hlt, takeBody_nil hnext]
  rfl

/-- Scanning the bytes of a body is taking them. -/
theorem scan_body {expected : Nat} (hsome : decoder.expectedBodyLength = some expected)
    (hlt : decoder.body.length < expected) :
    scan (byteStep format) decoder input = match takeBody format decoder expected input with
      | .error e => ⟨[], .error e⟩
      | .ok (envelope, next, rest) =>
        (scan (byteStep format) next rest).after envelope.toList := by
  induction input generalizing decoder with
  | nil =>
    rw [takeBody_nil hlt]
    rfl
  | cons b rest ih =>
    -- the body is not complete with this byte, or it is its last one
    by_cases hshort : decoder.body.length + 1 < expected
    · rw [Stream.scan_cons_ok (byteStep_body_short hsome hshort), takeBody_cons_short hshort]
      have hshort' : (decoder.body ++ [b]).length < expected := by
        rw [List.length_append, List.length_singleton]
        exact hshort
      have hnext : ({ decoder with body := decoder.body ++ [b] } :
          RemoteFrameDecoder).expectedBodyLength = some expected := hsome
      rw [← ih hnext hshort']
      rfl
    · rw [takeBody_cons_last (by omega)]
      cases htake : takeBody format decoder expected [b] with
      | error e =>
        refine Stream.scan_cons_error ?_ rest
        rw [byteStep_body hsome, htake]
        rfl
      | ok next =>
        obtain ⟨envelope, next, left⟩ := next
        have hstep : byteStep format decoder b = .ok (next, envelope) := by
          rw [byteStep_body hsome, htake]
          rfl
        exact Stream.scan_cons_ok hstep rest

theorem takeBody_valid {expected : Nat} {envelope : Option (RemoteEnvelope δ)}
    {next : RemoteFrameDecoder} {rest : List UInt8} (hvalid : Valid decoder)
    (hsome : decoder.expectedBodyLength = some expected)
    (htake : takeBody format decoder expected input = .ok (envelope, next, rest)) :
    Valid next ∧ (envelope = none → rest = [])
      ∧ (input ≠ [] → rest.length < input.length) ∧ rest.length ≤ input.length := by
  have hvalid' := hvalid
  unfold Valid at hvalid'
  rw [hsome] at hvalid'
  obtain ⟨hpre, hlt⟩ := hvalid'
  unfold takeBody at htake
  dsimp only at htake
  -- at least one byte of the input is used
  have hshorter : input ≠ [] →
      (input.drop (boundedTake (expected - decoder.body.length) input.length)).length
        < input.length := by
    intro hne
    have hpos := List.length_pos_iff.2 hne
    rw [List.length_drop, boundedTake_eq_min]
    omega
  have hle : (input.drop (boundedTake (expected - decoder.body.length) input.length)).length
      ≤ input.length := by
    rw [List.length_drop]
    omega
  split at htake
  · rename_i hshort
    obtain ⟨rfl, hpair⟩ := Prod.mk.inj (Except.ok.inj htake)
    obtain ⟨rfl, rfl⟩ := Prod.mk.inj hpair
    refine ⟨?_, fun _ => ?_, hshorter, hle⟩
    · unfold Valid
      rw [hsome]
      exact ⟨hpre, hshort⟩
    · rw [boundedTake_eq_min] at hshort ⊢
      rw [List.length_append, List.length_take] at hshort
      exact List.drop_eq_nil_of_le (by omega)
  · cases hdecode : RemoteFrameCodec.decodeBody format (decoder.body
      ++ input.take (boundedTake (expected - decoder.body.length) input.length)) with
    | error e =>
      rw [hdecode] at htake
      cases htake
    | ok found =>
      rw [hdecode] at htake
      obtain ⟨rfl, hpair⟩ := Prod.mk.inj (Except.ok.inj htake)
      obtain ⟨rfl, rfl⟩ := Prod.mk.inj hpair
      refine ⟨⟨?_, rfl⟩, fun h => (by cases h), hshorter, hle⟩
      rw [hpre]
      decide

/-! ## The loop -/

/-- What `add` returns for a chunk, after the envelopes it has already found in it. -/
def batch (frames : List (RemoteEnvelope δ))
    (scanned : Scan RemoteFrameDecoder (RemoteEnvelope δ) (RemoteProtocolException δ)) :
    Except (RemoteProtocolException δ) (List (RemoteEnvelope δ) × RemoteFrameDecoder) :=
  scanned.stop.map fun next => (frames ++ scanned.outs, next)

theorem batch_error (frames : List (RemoteEnvelope δ)) (e : RemoteProtocolException δ) :
    batch frames ⟨[], .error e⟩ = .error e := rfl

theorem batch_nil (frames : List (RemoteEnvelope δ)) (next : RemoteFrameDecoder) :
    batch frames ⟨[], .ok next⟩ = .ok (frames, next) := by
  show Except.ok (frames ++ [], next) = _
  rw [List.append_nil]

theorem batch_after (frames outs : List (RemoteEnvelope δ))
    (scanned : Scan RemoteFrameDecoder (RemoteEnvelope δ) (RemoteProtocolException δ)) :
    batch frames (scanned.after outs) = batch (frames ++ outs) scanned := by
  unfold batch Scan.after
  simp only [List.append_assoc]

/-- A round of the loop at a body: with its last byte the loop goes on, and otherwise the
chunk is at its end. -/
theorem round_body {fuel expected : Nat} {frames : List (RemoteEnvelope δ)}
    (hloop : ∀ decoder input frames, Valid decoder → input.length < fuel →
      addLoop format fuel decoder input frames
        = batch frames (scan (byteStep format) decoder input))
    (hvalid : Valid decoder) (hsome : decoder.expectedBodyLength = some expected)
    (hfuel : input.length ≤ fuel) :
    (match takeBody format decoder expected input with
      | .error e => .error e
      | .ok (none, decoder, _) => .ok (frames, decoder)
      | .ok (some envelope, decoder, input) =>
        addLoop format fuel decoder input (frames ++ [envelope]))
      = batch frames (scan (byteStep format) decoder input) := by
  have hlt : decoder.body.length < expected := by
    have h := hvalid
    unfold Valid at h
    rw [hsome] at h
    exact h.2
  rw [scan_body hsome hlt]
  cases htake : takeBody format decoder expected input with
  | error e => exact (batch_error frames e).symm
  | ok taken =>
    obtain ⟨envelope, next, rest⟩ := taken
    obtain ⟨hnext, hend, hshorter, hle⟩ := takeBody_valid hvalid hsome htake
    cases envelope with
    | none =>
      obtain rfl := hend rfl
      exact (batch_nil frames next).symm
    | some envelope =>
      -- a body that is complete took a byte, which pays for the round
      have hne : input ≠ [] := by
        intro hnil
        rw [hnil, takeBody_nil hlt] at htake
        cases htake
      have hrest := hloop next rest (frames ++ [envelope]) hnext
        (Nat.lt_of_lt_of_le (hshorter hne) hfuel)
      exact hrest.trans (batch_after frames [envelope] _).symm

/-- The loop returns what a scan of the bytes finds. -/
theorem addLoop_eq {fuel : Nat} {frames : List (RemoteEnvelope δ)} (hvalid : Valid decoder)
    (hfuel : input.length < fuel) :
    addLoop format fuel decoder input frames
      = batch frames (scan (byteStep format) decoder input) := by
  induction fuel generalizing decoder input frames with
  | zero => omega
  | succ fuel ih =>
    have hle : input.length ≤ fuel := Nat.le_of_lt_succ hfuel
    have hloop : ∀ decoder input frames, Valid decoder → input.length < fuel →
        addLoop format fuel decoder input frames
          = batch frames (scan (byteStep format) decoder input) := by
      intro _ _ _ hvalid hfuel
      exact ih hvalid hfuel
    rw [addLoop]
    split
    · rename_i hempty
      obtain rfl := List.isEmpty_iff.1 hempty
      exact (batch_nil frames decoder).symm
    · rename_i hempty
      have hne : input ≠ [] := fun h => hempty (List.isEmpty_iff.2 h)
      -- the round goes on with the body, or first finishes the length
      cases hexpected : decoder.expectedBodyLength with
      | some expected =>
        rw [Option.isSome_some, if_pos rfl]
        dsimp only
        rw [hexpected]
        exact round_body hloop hvalid hexpected hle
      | none =>
        rw [Option.isSome_none, if_neg Bool.false_ne_true, scan_length hvalid hexpected hne]
        cases htake : takeLength decoder input with
        | error e => exact (batch_error frames e).symm
        | ok taken =>
          obtain ⟨next, rest⟩ := taken
          obtain ⟨hnext, hend, hrest⟩ := takeLength_valid hvalid hexpected htake
          dsimp only
          cases hfound : next.expectedBodyLength with
          | none =>
            obtain rfl := hend hfound
            exact (batch_nil frames next).symm
          | some expected => exact round_body hloop hnext hfound (Nat.le_trans hrest hle)

theorem byteStep_valid {next : RemoteFrameDecoder} {out : Option (RemoteEnvelope δ)}
    (hvalid : Valid decoder) (hstep : byteStep format decoder b = .ok (next, out)) :
    Valid next := by
  cases hexpected : decoder.expectedBodyLength with
  | none =>
    rw [byteStep_length hexpected] at hstep
    cases htake : takeLength decoder [b] with
    | error e =>
      rw [htake] at hstep
      cases hstep
    | ok taken =>
      rw [htake] at hstep
      obtain ⟨rfl, _⟩ := Prod.mk.inj (Except.ok.inj hstep)
      exact (takeLength_valid hvalid hexpected htake).1
  | some expected =>
    rw [byteStep_body hexpected] at hstep
    cases htake : takeBody format decoder expected [b] with
    | error e =>
      rw [htake] at hstep
      cases hstep
    | ok taken =>
      rw [htake] at hstep
      obtain ⟨rfl, _⟩ := Prod.mk.inj (Except.ok.inj hstep)
      exact (takeBody_valid hvalid hexpected htake).1

theorem add_eq {bytes : List UInt8} (hvalid : Valid decoder) :
    add format decoder bytes = batch [] (scan (byteStep format) decoder bytes) :=
  addLoop_eq hvalid (Nat.lt_succ_self _)

/-- A chunk is decoded byte by byte. -/
theorem batches (format : DoubleFormat δ) : Batches (byteStep format) (add format) Valid where
  keeps := by
    intro decoder b next out hvalid hstep
    exact byteStep_valid hvalid hstep
  add_ok := by
    intro decoder chunk next hvalid hstop
    rw [add_eq hvalid]
    unfold batch
    rw [hstop]
    rfl
  add_error := by
    intro decoder chunk e hvalid hstop
    rw [add_eq hvalid]
    unfold batch
    rw [hstop]
    rfl

end RemoteFrameDecoder

end Sanmill.Remote
