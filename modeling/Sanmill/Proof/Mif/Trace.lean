import Mathlib.Data.List.GetD
import Sanmill.Mif.Replay
import Sanmill.Proof.Mif.Outcome

/-!
# The trace of a replay

A replay takes a snapshot of the origin and one after each event. The rules themselves
neither log events nor take snapshots, and they keep the action in step with the
obligations: the action is to remove exactly where removals are owed. The snapshot after an
event is therefore closed exactly where nothing is owed.
-/

namespace Sanmill.Mif

open Fallible (Runs runs_nil_iff runs_cons_iff runs_append_iff)

namespace Engine

variable {e e' e'' : Engine} {event : Json} {actor : Text} {seq : Nat} {identity : Identity}

/-! ## Obligations and the action -/

/-- Removals are owed exactly where the action is to remove. -/
def Owing (e : Engine) : Prop := e.state.obligations ≠ dash ↔ e.state.action = 'r'

/-- What a step of the rules leaves: the action fits the obligations, and nothing is logged. -/
structure Advances (e e' : Engine) : Prop where
  owing : e'.Owing
  trace : e'.trace = e.trace
  events : e'.events = e.events

theorem Advances.trans (h : e.Advances e') (h' : e'.Advances e'') : e.Advances e'' where
  owing := h'.owing
  trace := h'.trace.trans h.trace
  events := h'.events.trans h.events

theorem Owing.advances (h : e.Owing) : e.Advances e := ⟨h, rfl, rfl⟩

/-- A decided state owes nothing. -/
theorem owing_of_terminal {s : State} {result : Char} {reason : Text}
    (h : e.state = s.terminal result reason) : e.Owing := by
  unfold Owing
  rw [h]
  simp [State.terminal]

theorem terminal_advances (e : Engine) (result : Char) (reason : String) :
    e.Advances (e.terminal result reason) := ⟨owing_of_terminal rfl, rfl, rfl⟩

theorem owe_advances (e : Engine) (side : Char) {obligations : Text} (h : obligations ≠ dash) :
    e.Advances (e.owe side obligations) where
  owing := by
    constructor
    · intro _
      rfl
    · intro _
      exact h
  trace := rfl
  events := rfl

theorem syncPhase_trace (e : Engine) : e.syncPhase.trace = e.trace := by
  unfold syncPhase
  split
  · rfl
  · rfl

theorem syncPhase_events (e : Engine) : e.syncPhase.events = e.events := by
  unfold syncPhase
  split
  · rfl
  · rfl

/-- An undecided state that owes nothing gets the action of its phase. -/
theorem syncPhase_advances (h : e.Owing ∨ (e.state.outcome = dash ∧ e.state.obligations = dash)) :
    e.Advances e.syncPhase where
  owing := by
    by_cases hkeep : e.state.outcome ≠ dash ∨ e.state.obligations ≠ dash
    · have howing : e.Owing := by
        rcases h with h | ⟨houtcome, hobligations⟩
        · exact h
        · rcases hkeep with hne | hne
          · exact absurd houtcome hne
          · exact absurd hobligations hne
      have hsame : e.syncPhase = e := by
        unfold syncPhase
        exact if_pos hkeep
      rw [hsame]
      exact howing
    · have hnone : e.state.obligations = dash := not_not.1 fun hne => hkeep (.inr hne)
      unfold Owing syncPhase
      rw [if_neg hkeep]
      dsimp only
      split_ifs
      all_goals simp [hnone]
  trace := syncPhase_trace e
  events := syncPhase_events e

theorem checkMaterial_advances (h : e.Owing) : e.Advances e.checkMaterial := by
  unfold checkMaterial
  dsimp only
  split
  · exact terminal_advances _ _ _
  · exact terminal_advances _ _ _
  · exact terminal_advances _ _ _
  · exact h.advances

theorem resolveFullBoard_advances (hok : e.resolveFullBoard = .ok (some e')) : e.Advances e' := by
  unfold resolveFullBoard at hok
  dsimp only at hok
  split_ifs at hok
  · cases hok
  · obtain rfl := Option.some.inj (Except.ok.inj hok)
    exact terminal_advances _ _ _
  · obtain rfl := Option.some.inj (Except.ok.inj hok)
    exact terminal_advances _ _ _
  · obtain rfl := Option.some.inj (Except.ok.inj hok)
    exact owe_advances _ _ (by simp [dash])
  · obtain rfl := Option.some.inj (Except.ok.inj hok)
    exact owe_advances _ _ (by simp [dash])

theorem checkFullBoard_advances (hok : e.checkFullBoard = .ok (some e')) : e.Advances e' := by
  unfold checkFullBoard at hok
  split at hok
  · cases hok
  · exact resolveFullBoard_advances hok

theorem resolveNoLegal_advances (hok : e.resolveNoLegal = .ok e') : e.Advances e' := by
  unfold resolveNoLegal at hok
  split_ifs at hok
  all_goals
    obtain rfl := Except.ok.inj hok
    exact terminal_advances _ _ _

theorem observe_advances {eventSeq : Option Nat} {sourceKind : String} (h : e.Owing)
    (hok : e.observe eventSeq sourceKind = .ok e') : e.Advances e' := by
  unfold observe at hok
  split at hok
  · obtain ⟨-, -, hok⟩ := Except.bind_ok_iff.1 hok
    obtain rfl := Except.ok.inj hok
    unfold applyRepetitionResult
    split_ifs
    · exact ⟨h, rfl, rfl⟩
    · exact ⟨owing_of_terminal rfl, rfl, rfl⟩
    · exact ⟨h, rfl, rfl⟩
  · obtain rfl := Except.ok.inj hok
    exact h.advances

theorem deriveClaimRights_advances (h : e.Owing) : e.Advances e.deriveClaimRights := by
  unfold deriveClaimRights
  split
  · exact ⟨h, rfl, rfl⟩
  · exact ⟨h, rfl, rfl⟩

theorem stabilize_advances {eventSeq : Option Nat} {sourceKind : String} (h : e.Owing)
    (hok : e.stabilize eventSeq sourceKind = .ok e') : e.Advances e' := by
  unfold stabilize at hok
  split at hok
  · obtain rfl := Except.ok.inj hok
    exact h.advances
  have hsync := syncPhase_advances (.inl h)
  obtain ⟨full, hfull, hok⟩ := Except.bind_ok_iff.1 hok
  rcases full with _ | resolved
  · have hmaterial := hsync.trans (checkMaterial_advances hsync.owing)
    dsimp only at hok
    split at hok
    · obtain rfl := Except.ok.inj hok
      exact hmaterial
    have hagain := hmaterial.trans (syncPhase_advances (.inl hmaterial.owing))
    split at hok
    · exact hagain.trans (resolveNoLegal_advances hok)
    · obtain ⟨observed, hobserve, hok⟩ := Except.bind_ok_iff.1 hok
      obtain rfl := Except.ok.inj hok
      have hobserved := hagain.trans (observe_advances hagain.owing hobserve)
      exact hobserved.trans (deriveClaimRights_advances hobserved.owing)
  · obtain rfl := Except.ok.inj hok
    exact hsync.trans (checkFullBoard_advances hfull)

/-! ## Actions -/

theorem setState_advances {s : State} (hobligations : s.obligations = e.state.obligations)
    (haction : s.action = e.state.action) (h : e.Owing) : e.Advances (e.setState s) where
  owing := by
    unfold Owing setState
    rw [hobligations, haction]
    exact h
  trace := rfl
  events := rfl

theorem resetRepetition_advances (h : e.Owing) (reset : Bool) :
    e.Advances (e.resetRepetition reset) := by
  unfold resetRepetition
  split
  · exact ⟨h, rfl, rfl⟩
  · exact h.advances

theorem expireClaimRight_set_advances {s : State} (h : e.Owing)
    (hobligations : s.obligations = e.state.obligations) (haction : s.action = e.state.action) :
    e.Advances (e.expireClaimRight.setState s) :=
  (⟨h, rfl, rfl⟩ : e.Advances e.expireClaimRight).trans (setState_advances hobligations haction h)

/-- The text of an obligation has a colon behind its actor. -/
theorem serializeObligation_cons (o : Obligation) :
    ∃ rest, serializeObligation o = o.actor :: ':' :: rest := ⟨_, rfl⟩

theorem serializeObligation_ne_dash (o : Obligation) : serializeObligation o ≠ dash := by
  obtain ⟨rest, hrest⟩ := serializeObligation_cons o
  rw [hrest]
  simp [dash]

theorem serializeBranch_ne_dash (next : Obligation) (later : List Obligation) :
    serializeBranch (next :: later) ≠ dash := by
  obtain ⟨rest, hrest⟩ := serializeObligation_cons next
  unfold serializeBranch
  cases later with
  | nil => simp [hrest, dash]
  | cons second later => simp [List.intercalate, hrest, dash]

theorem settlePrimary_advances {player : Char} {formedMill : Bool} {kind : String} (h : e.Owing)
    (hok : e.settlePrimary player formedMill kind seq = .ok e') : e.Advances e' := by
  unfold settlePrimary at hok
  dsimp only at hok
  split at hok
  · obtain rfl := Except.ok.inj hok
    exact owe_advances _ _ (serializeObligation_ne_dash _)
  · have hturn : e.Advances (e.setState { e.state with side := opponent player }) :=
      setState_advances rfl rfl h
    have hsync := hturn.trans (syncPhase_advances (.inl hturn.owing))
    exact hsync.trans (stabilize_advances hsync.owing hok)

theorem afterPrimary_advances {player : Char} {destination : Point} {kind : String} (h : e.Owing)
    (hok : e.afterPrimary player destination kind seq = .ok e') : e.Advances e' := by
  unfold afterPrimary at hok
  dsimp only at hok
  generalize closesMill e.state.board player destination = formedMill at hok
  have hreset := resetRepetition_advances h
      (resetsAfter e.manifest.repetitionResets kind formedMill)
  generalize e.resetRepetition _ = reset at hok hreset
  have hprogress (n : Nat) : e.Advances (reset.setState { reset.state with noProgress := n }) :=
    hreset.trans (setState_advances rfl rfl hreset.owing)
  exact (hprogress _).trans (settlePrimary_advances (hprogress _).owing hok)

theorem applyPlace_advances (h : e.Owing) (hok : e.applyPlace event actor seq = .ok e') :
    e.Advances e' ∧ e.state.obligations = dash := by
  unfold applyPlace at hok
  obtain ⟨player, -, hok⟩ := Except.bind_ok_iff.1 hok
  split at hok
  · cases hok
  rename_i haction
  obtain ⟨index, -, hok⟩ := Except.bind_ok_iff.1 hok
  split at hok
  · cases hok
  refine ⟨?_, not_not.1 fun hne => haction (.inr hne)⟩
  refine Advances.trans (expireClaimRight_set_advances h ?_ ?_) (afterPrimary_advances ?_ hok)
  · rfl
  · rfl
  · exact (expireClaimRight_set_advances h rfl rfl).owing

theorem applyMove_advances (h : e.Owing) (hok : e.applyMove event actor seq = .ok e') :
    e.Advances e' ∧ e.state.obligations = dash := by
  unfold applyMove at hok
  obtain ⟨player, -, hok⟩ := Except.bind_ok_iff.1 hok
  split at hok
  · cases hok
  rename_i haction
  obtain ⟨_, -, hok⟩ := Except.bind_ok_iff.1 hok
  obtain ⟨_, -, hok⟩ := Except.bind_ok_iff.1 hok
  obtain ⟨source, -, hok⟩ := Except.bind_ok_iff.1 hok
  obtain ⟨target, -, hok⟩ := Except.bind_ok_iff.1 hok
  split at hok
  · cases hok
  refine ⟨?_, not_not.1 fun hne => haction (.inr hne)⟩
  refine Advances.trans (expireClaimRight_set_advances h ?_ ?_) (afterPrimary_advances ?_ hok)
  · rfl
  · rfl
  · exact (expireClaimRight_set_advances h rfl rfl).owing

theorem afterRemoval_advances {branch : List Obligation} {after : Char} (h : e.state.outcome = dash)
    (hok : e.afterRemoval branch after seq = .ok e') : e.Advances e' := by
  cases branch with
  | cons next later =>
    obtain rfl := Except.ok.inj hok
    have howe := owe_advances e (materialize e.state.board next).actor
      (serializeBranch_ne_dash (materialize e.state.board next) later)
    exact howe.trans (checkMaterial_advances howe.owing)
  | nil =>
    unfold afterRemoval at hok
    dsimp only at hok
    -- the action is still to remove until the phase is looked at
    have hsync := syncPhase_advances
      (e := e.setState { e.state with side := after, obligations := dash }) (.inr ⟨h, rfl⟩)
    have hmaterial := hsync.trans (checkMaterial_advances hsync.owing)
    have hdone := hmaterial.trans (stabilize_advances hmaterial.owing hok)
    exact ⟨hdone.owing, hdone.trace, hdone.events⟩

theorem applyRemove_advances (hnormal : e.Normal) (h : e.Owing)
    (hok : e.applyRemove event actor seq = .ok e') :
    e.Advances e' ∧ e.state.obligations ≠ dash := by
  have hundecided := (applyRemove_normal hnormal hok).2
  unfold applyRemove at hok
  obtain ⟨player, -, hok⟩ := Except.bind_ok_iff.1 hok
  split at hok
  · cases hok
  rename_i haction
  refine ⟨?_, fun hdash => haction (.inr hdash)⟩
  obtain ⟨target, -, hok⟩ := Except.bind_ok_iff.1 hok
  split at hok
  · cases hok
  obtain ⟨index, -, hok⟩ := Except.bind_ok_iff.1 hok
  obtain ⟨branches, -, hok⟩ := Except.bind_ok_iff.1 hok
  split at hok
  · split at hok
    · cases hok
    refine Advances.trans ?_ (afterRemoval_advances ?_ hok)
    · have hset (board : Board) (noProgress : Nat) :
          e.Advances (e.expireClaimRight.setState { e.state with board, noProgress }) :=
        expireClaimRight_set_advances h rfl rfl
      exact (hset _ _).trans (resetRepetition_advances (hset _ _).owing _)
    · rw [resetRepetition_state]
      exact hundecided
  · cases hok

theorem offerDraw_advances (h : e.Owing) (hok : e.offerDraw actor seq = .ok e') :
    e.Advances e' := by
  unfold offerDraw at hok
  obtain ⟨player, -, hok⟩ := Except.bind_ok_iff.1 hok
  split at hok
  · cases hok
  · rw [← Except.ok.inj hok]
    exact ⟨h, rfl, rfl⟩

theorem resolveOffer_advances {kind : OfferEvent} (h : e.Owing)
    (hok : e.resolveOffer event kind actor seq = .ok e') : e.Advances e' := by
  unfold resolveOffer at hok
  obtain ⟨player, -, hok⟩ := Except.bind_ok_iff.1 hok
  split at hok
  · cases hok
  split at hok
  · cases hok
  split at hok
  · cases hok
  rw [← Except.ok.inj hok]
  split
  · exact ⟨owing_of_terminal rfl, rfl, rfl⟩
  · exact ⟨h, rfl, rfl⟩

theorem claimDraw_advances (hok : e.claimDraw event actor seq = .ok e') : e.Advances e' := by
  have hstate := claimDraw_state hok
  unfold claimDraw at hok
  obtain ⟨player, -, hok⟩ := Except.bind_ok_iff.1 hok
  split at hok
  · cases hok
  dsimp only at hok
  split at hok
  · cases hok
  · refine ⟨owing_of_terminal hstate, ?_, ?_⟩
    · rw [← Except.ok.inj hok]
      rfl
    · rw [← Except.ok.inj hok]
      rfl

theorem resign_advances (hok : e.resign actor seq = .ok e') : e.Advances e' := by
  unfold resign at hok
  obtain ⟨player, -, hok⟩ := Except.bind_ok_iff.1 hok
  split at hok
  · cases hok
  · rw [← Except.ok.inj hok]
    exact ⟨owing_of_terminal rfl, rfl, rfl⟩

theorem adjudicate_advances (hok : e.adjudicate event actor seq = .ok e') : e.Advances e' := by
  unfold adjudicate at hok
  split at hok
  · cases hok
  obtain ⟨result, -, hok⟩ := Except.bind_ok_iff.1 hok
  split at hok
  · cases hok
  · rw [← Except.ok.inj hok]
    exact ⟨owing_of_terminal rfl, rfl, rfl⟩

theorem applyEvent_advances (hnormal : e.Normal) (h : e.Owing)
    (hok : e.applyEvent event seq = .ok e') : e.Advances e' := by
  unfold applyEvent at hok
  split at hok
  · cases hok
  dsimp only at hok
  split at hok
  · exact (applyPlace_advances h hok).1
  · exact (applyMove_advances h hok).1
  · exact (applyRemove_advances hnormal h hok).1
  · exact offerDraw_advances h hok
  · exact resolveOffer_advances h hok
  · exact claimDraw_advances hok
  · exact resign_advances hok
  · exact adjudicate_advances hok
  · cases hok

/-! ## The trace -/

theorem decisionState_action {decision : Json} (hok : e.decisionState identity = .ok decision) :
    decision.get "action" = some (ofChar e.state.action) := by
  unfold decisionState at hok
  dsimp only at hok
  split at hok
  · obtain ⟨root, -, hok⟩ := Except.bind_ok_iff.1 hok
    obtain rfl := Except.ok.inj hok
    simp [Json.get_ofMembers]
  · obtain rfl := Except.ok.inj hok
    simp [Json.get_ofMembers]

theorem snapshot_closed {boundary : String} {eventSeq : Option Nat} {taken : Json}
    (hok : e.snapshot identity boundary eventSeq = .ok taken) :
    snapshotClosed taken = decide (e.state.action ≠ 'r') := by
  unfold snapshot at hok
  obtain ⟨decision, hdecision, hok⟩ := Except.bind_ok_iff.1 hok
  obtain rfl := Except.ok.inj hok
  simp [snapshotClosed, Json.pointer, Json.get_ofMembers, decisionState_action hdecision, ofChar,
    Json.asString]

/-- The trace has a snapshot of the origin and one after each event. -/
structure Traced (e : Engine) : Prop where
  normal : e.Normal
  owing : e.Owing
  length : e.trace.length = e.events.length + 1
  last : e.closedAt e.events.length = decide (e.state.obligations = dash)

/-- An engine whose last snapshot was taken of its state. -/
theorem traced_of_snapshot {boundary : String} {eventSeq : Option Nat} {taken : Json}
    (earlier : List Json) (hnormal : e.Normal) (howing : e.Owing)
    (hok : e.snapshot identity boundary eventSeq = .ok taken) (hstate : e'.state = e.state)
    (htrace : e'.trace = earlier ++ [taken]) (hlength : earlier.length = e'.events.length) :
    e'.Traced where
  normal := by
    unfold Normal Decided
    rw [hstate]
    exact hnormal
  owing := by
    unfold Owing
    rw [hstate]
    exact howing
  length := by
    rw [htrace, List.length_append, hlength]
    rfl
  last := by
    have hgot : e'.trace.getD e'.events.length .null = taken := by
      rw [htrace, ← hlength]
      simp
    unfold closedAt
    rw [hgot, snapshot_closed hok, hstate, decide_eq_decide]
    constructor
    · intro haction
      exact not_not.1 fun hne => haction (howing.1 hne)
    · intro hdash haction
      exact howing.2 haction hdash

theorem executeEvent_traced (h : e.Traced) (hok : executeEvent identity e event = .ok e') :
    e'.Traced ∧ e'.events = e.events ++ [event]
      ∧ ∀ k ≤ e.events.length, e'.closedAt k = e.closedAt k := by
  unfold executeEvent at hok
  split at hok
  · cases hok
  split at hok
  · cases hok
  obtain ⟨applied, happly, hok⟩ := Except.bind_ok_iff.1 hok
  have hadvances := applyEvent_advances h.normal h.owing happly
  obtain ⟨taken, hsnapshot, hok⟩ := Except.bind_ok_iff.1 hok
  obtain rfl := Except.ok.inj hok
  have hnormal := applyEvent_normal h.normal happly
  refine ⟨traced_of_snapshot e.trace ?_ ?_ hsnapshot rfl ?_ ?_, ?_, ?_⟩
  · exact hnormal
  · exact hadvances.owing
  · change applied.trace ++ [taken] = e.trace ++ [taken]
    rw [hadvances.trace]
  · change e.trace.length = (applied.events ++ [event]).length
    rw [hadvances.events, h.length, List.length_append]
    rfl
  · change applied.events ++ [event] = e.events ++ [event]
    rw [hadvances.events]
  · intro k hk
    unfold closedAt
    change snapshotClosed ((applied.trace ++ [taken]).getD k .null) = _
    rw [hadvances.trace, List.getD_append]
    rw [h.length]
    exact Nat.lt_succ_of_le hk

theorem runs_traced {events : List Json} (h : e.Traced)
    (hruns : Runs (executeEvent identity) e events e') :
    e'.Traced ∧ e'.events = e.events ++ events
      ∧ ∀ k ≤ e.events.length, e'.closedAt k = e.closedAt k := by
  induction events generalizing e with
  | nil =>
    obtain rfl := runs_nil_iff.1 hruns
    exact ⟨h, (List.append_nil _).symm, fun _ _ => rfl⟩
  | cons event rest ih =>
    obtain ⟨next, hstep, hrest⟩ := runs_cons_iff.1 hruns
    obtain ⟨hnext, hevents, hclosed⟩ := executeEvent_traced h hstep
    obtain ⟨hend, hall, hlater⟩ := ih hnext hrest
    refine ⟨hend, ?_, ?_⟩
    · rw [hall, hevents, List.append_assoc]
      rfl
    · intro k hk
      rw [hlater k ?_, hclosed k hk]
      rw [hevents, List.length_append]
      exact Nat.le_add_right_of_le hk

theorem parse_owing {text : Text} (h : State.parse text = .ok e.state) : e.Owing := by
  have hshape := parse_validateShape h
  unfold State.validateShape at hshape
  split_ifs at hshape with hongoing hterminal hstable howed
  unfold Owing
  constructor
  · intro hne
    exact not_not.1 fun haction => howed ⟨hne, haction⟩
  · intro haction hdash
    by_cases houtcome : e.state.outcome = dash
    · -- a stable action is that of the phase
      have hphase : e.state.action = e.state.phase :=
        not_not.1 fun hne => hstable ⟨hdash, houtcome, hne⟩
      have hlisted : e.state.phase ∈ ['p', 'm'] :=
        not_not.1 fun hne => hongoing ⟨houtcome, .inr (.inl hne)⟩
      rw [← hphase, haction] at hlisted
      exact absurd hlisted (by decide)
    · have hover : e.state.action = 'o' :=
        not_not.1 fun hne => hterminal ⟨houtcome, .inr (.inr (.inl hne))⟩
      rw [haction] at hover
      exact absurd hover (by decide)

theorem new_traced {manifest : Manifest} {origin : Text}
    {repetitionSeed preOriginClaims : List Json}
    (h : Engine.new identity manifest origin repetitionSeed preOriginClaims = .ok e) :
    e.Traced ∧ e.events = [] := by
  have hstart := new_normal h
  unfold Engine.new at h
  obtain ⟨-, -, h⟩ := Except.bind_ok_iff.1 h
  obtain ⟨state, hparse, h⟩ := Except.bind_ok_iff.1 h
  obtain ⟨-, -, h⟩ := Except.bind_ok_iff.1 h
  obtain ⟨-, -, h⟩ := Except.bind_ok_iff.1 h
  obtain ⟨openOffer, -, h⟩ := Except.bind_ok_iff.1 h
  obtain ⟨engine, hstable, h⟩ := Except.bind_ok_iff.1 h
  obtain ⟨first, hfirst, h⟩ := Except.bind_ok_iff.1 h
  have hadvances := stabilize_advances (parse_owing hparse) hstable
  obtain rfl := Except.ok.inj h
  refine ⟨traced_of_snapshot [] hstart hadvances.owing hfirst rfl ?_ ?_, hadvances.events⟩
  · change engine.trace ++ [first] = [] ++ [first]
    rw [hadvances.trace]
  · change 0 = engine.events.length
    rw [hadvances.events]
    rfl

end Engine

end Sanmill.Mif
