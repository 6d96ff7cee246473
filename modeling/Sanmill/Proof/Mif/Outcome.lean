import Sanmill.Lib.Fallible
import Sanmill.Mif.Engine

/-!
# Decided outcomes

A decided state has nobody to move. No primary action, removal or resignation is
accepted there, but the draw offers are looked at by themselves: an offer that is still
open when the game ends can be accepted, and a draw can be claimed when a right to it
was left over. These two events, and adjudication, are all that changes an outcome.
-/

namespace Sanmill.Mif

namespace Engine

open Fallible (Runs EachStep runs_nil_iff runs_cons_iff)

variable {e e' : Engine} {event : Json} {actor : Text} {seq : Nat}

/-- The outcome is decided. -/
def Decided (e : Engine) : Prop := e.state.outcome ≠ dash

instance : Decidable e.Decided := inferInstanceAs (Decidable (e.state.outcome ≠ dash))

/-- A decided state has nobody to move and nothing to remove. -/
def Normal (e : Engine) : Prop :=
  e.Decided → e.state.side = '-' ∧ e.state.phase = 'o' ∧ e.state.action = 'o'
    ∧ e.state.obligations = dash

theorem Normal.of_undecided (h : e.state.outcome = dash) : e.Normal := fun hne => absurd h hne

theorem terminal_normal (e : Engine) (result : Char) (reason : String) :
    (e.terminal result reason).Normal := fun _ => ⟨rfl, rfl, rfl, rfl⟩

/-- A decided state is never undecided again by `terminal`. -/
theorem terminal_outcome_ne_dash (s : State) (result : Char) (reason : Text) :
    (s.terminal result reason).outcome ≠ dash := fun h => by
  have : (result :: ':' :: reason).length = dash.length := congrArg List.length h
  simp [dash] at this

/-! ## Stabilizing -/

theorem syncPhase_outcome (e : Engine) : e.syncPhase.state.outcome = e.state.outcome := by
  unfold syncPhase
  split
  · rfl
  · rfl

theorem checkMaterial_normal (h : e.Normal) : e.checkMaterial.Normal := by
  unfold checkMaterial
  dsimp only
  split
  · exact terminal_normal _ _ _
  · exact terminal_normal _ _ _
  · exact terminal_normal _ _ _
  · exact h

theorem syncPhase_normal (h : e.Normal) : e.syncPhase.Normal := by
  intro hdecided
  have hold : e.Decided := fun hdash => hdecided ((syncPhase_outcome e).trans hdash)
  have hsame : e.syncPhase = e := by
    unfold syncPhase
    exact if_pos (Or.inl hold)
  rw [hsame]
  exact h hold

theorem owe_normal (h : e.state.outcome = dash) (side : Char) (obligations : Text) :
    (e.owe side obligations).Normal := .of_undecided h

theorem resolveFullBoard_normal (h : e.state.outcome = dash)
    (hok : e.resolveFullBoard = .ok (some e')) : e'.Normal := by
  unfold resolveFullBoard at hok
  dsimp only at hok
  split_ifs at hok
  · cases hok
  · obtain rfl := Option.some.inj (Except.ok.inj hok)
    exact terminal_normal _ _ _
  · obtain rfl := Option.some.inj (Except.ok.inj hok)
    exact terminal_normal _ _ _
  · obtain rfl := Option.some.inj (Except.ok.inj hok)
    exact owe_normal h _ _
  · obtain rfl := Option.some.inj (Except.ok.inj hok)
    exact owe_normal h _ _

theorem resolveNoLegal_normal (hok : e.resolveNoLegal = .ok e') : e'.Normal := by
  unfold resolveNoLegal at hok
  split_ifs at hok
  all_goals
    obtain rfl := Except.ok.inj hok
    exact terminal_normal _ _ _

theorem observe_normal {eventSeq : Option Nat} {sourceKind : String} (h : e.state.outcome = dash)
    (hok : e.observe eventSeq sourceKind = .ok e') : e'.Normal := by
  unfold observe at hok
  split at hok
  · obtain ⟨-, -, hok⟩ := Except.bind_ok_iff.1 hok
    obtain rfl := Except.ok.inj hok
    unfold applyRepetitionResult
    split_ifs
    · exact .of_undecided h
    · exact terminal_normal _ _ _
    · exact .of_undecided h
  · obtain rfl := Except.ok.inj hok
    exact .of_undecided h

theorem deriveClaimRights_normal (h : e.Normal) : e.deriveClaimRights.Normal := by
  unfold deriveClaimRights
  split
  · exact h
  · exact h

theorem checkFullBoard_normal {resolved : Engine} (h : e.state.outcome = dash)
    (hok : e.checkFullBoard = .ok (some resolved)) : resolved.Normal := by
  unfold checkFullBoard at hok
  split at hok
  · cases hok
  · exact resolveFullBoard_normal h hok

theorem stabilize_normal {eventSeq : Option Nat} {sourceKind : String} (h : e.Normal)
    (hok : e.stabilize eventSeq sourceKind = .ok e') : e'.Normal := by
  unfold stabilize at hok
  split at hok
  · obtain rfl := Except.ok.inj hok
    exact h
  rename_i hstable
  have hundecided : e.syncPhase.state.outcome = dash :=
    (syncPhase_outcome e).trans (not_not.1 fun hne => hstable (.inl hne))
  obtain ⟨full, hfull, hok⟩ := Except.bind_ok_iff.1 hok
  rcases full with _ | resolved
  · dsimp only at hok
    split at hok
    · obtain rfl := Except.ok.inj hok
      exact checkMaterial_normal (.of_undecided hundecided)
    rename_i hmaterial
    have hdash : e.syncPhase.checkMaterial.syncPhase.state.outcome = dash :=
      (syncPhase_outcome _).trans (not_not.1 hmaterial)
    split at hok
    · exact resolveNoLegal_normal hok
    · obtain ⟨observed, hobserve, hok⟩ := Except.bind_ok_iff.1 hok
      obtain rfl := Except.ok.inj hok
      exact deriveClaimRights_normal (observe_normal hdash hobserve)
  · obtain rfl := Except.ok.inj hok
    exact checkFullBoard_normal hundecided hfull

/-! ## Actions -/

/-- Where an action is due, nothing is decided. -/
theorem Normal.undecided (h : e.Normal) {action : Char} (haction : e.state.action = action)
    (hne : action ≠ 'o') : e.state.outcome = dash := by
  by_contra hdecided
  exact hne (haction.symm.trans (h hdecided).2.2.1)

@[simp] theorem resetRepetition_state (e : Engine) (reset : Bool) :
    (e.resetRepetition reset).state = e.state := by
  unfold resetRepetition
  split
  · rfl
  · rfl

theorem settlePrimary_normal {player : Char} {formedMill : Bool} {kind : String}
    (h : e.state.outcome = dash) (hok : e.settlePrimary player formedMill kind seq = .ok e') :
    e'.Normal := by
  unfold settlePrimary at hok
  dsimp only at hok
  split at hok
  · obtain rfl := Except.ok.inj hok
    exact owe_normal h _ _
  · refine stabilize_normal (syncPhase_normal (.of_undecided ?_)) hok
    exact h

theorem afterPrimary_normal {player : Char} {destination : Point} {kind : String}
    (h : e.state.outcome = dash) (hok : e.afterPrimary player destination kind seq = .ok e') :
    e'.Normal := by
  unfold afterPrimary at hok
  refine settlePrimary_normal ?_ hok
  change (e.resetRepetition _).state.outcome = dash
  rw [resetRepetition_state]
  exact h

theorem applyPlace_normal (h : e.Normal) (hok : e.applyPlace event actor seq = .ok e') :
    e'.Normal ∧ e.state.outcome = dash := by
  unfold applyPlace at hok
  obtain ⟨player, -, hok⟩ := Except.bind_ok_iff.1 hok
  split at hok
  · cases hok
  rename_i haction
  have hundecided := h.undecided (not_not.1 fun hne => haction (.inl hne)) (by decide)
  obtain ⟨index, -, hok⟩ := Except.bind_ok_iff.1 hok
  split at hok
  · cases hok
  · refine ⟨afterPrimary_normal ?_ hok, hundecided⟩
    exact hundecided

theorem applyMove_normal (h : e.Normal) (hok : e.applyMove event actor seq = .ok e') :
    e'.Normal ∧ e.state.outcome = dash := by
  unfold applyMove at hok
  obtain ⟨player, -, hok⟩ := Except.bind_ok_iff.1 hok
  split at hok
  · cases hok
  rename_i haction
  have hundecided : e.state.outcome = dash := by
    rcases not_not.1 fun hne => haction (.inl hne) with hmove | ⟨hplace, -⟩
    · exact h.undecided hmove (by decide)
    · exact h.undecided hplace (by decide)
  obtain ⟨_, -, hok⟩ := Except.bind_ok_iff.1 hok
  obtain ⟨_, -, hok⟩ := Except.bind_ok_iff.1 hok
  obtain ⟨source, -, hok⟩ := Except.bind_ok_iff.1 hok
  obtain ⟨target, -, hok⟩ := Except.bind_ok_iff.1 hok
  split at hok
  · cases hok
  · refine ⟨afterPrimary_normal ?_ hok, hundecided⟩
    exact hundecided

theorem afterRemoval_normal {branch : List Obligation} {after : Char}
    (h : e.state.outcome = dash) (hok : e.afterRemoval branch after seq = .ok e') : e'.Normal := by
  cases branch with
  | cons next later =>
    obtain rfl := Except.ok.inj hok
    exact checkMaterial_normal (owe_normal h _ _)
  | nil =>
    unfold afterRemoval at hok
    dsimp only at hok
    refine stabilize_normal (checkMaterial_normal (syncPhase_normal (.of_undecided ?_))) hok
    exact h

theorem applyRemove_normal (h : e.Normal) (hok : e.applyRemove event actor seq = .ok e') :
    e'.Normal ∧ e.state.outcome = dash := by
  unfold applyRemove at hok
  obtain ⟨player, -, hok⟩ := Except.bind_ok_iff.1 hok
  split at hok
  · cases hok
  rename_i haction
  have hundecided := h.undecided (not_not.1 fun hne => haction (.inl hne)) (by decide)
  obtain ⟨target, -, hok⟩ := Except.bind_ok_iff.1 hok
  split at hok
  · cases hok
  obtain ⟨index, -, hok⟩ := Except.bind_ok_iff.1 hok
  obtain ⟨branches, -, hok⟩ := Except.bind_ok_iff.1 hok
  split at hok
  · split at hok
    · cases hok
    refine ⟨afterRemoval_normal ?_ hok, hundecided⟩
    rw [resetRepetition_state]
    exact hundecided
  · cases hok

/-! ## Draws, resignation and adjudication -/

theorem offerDraw_state (hok : e.offerDraw actor seq = .ok e') : e'.state = e.state := by
  unfold offerDraw at hok
  obtain ⟨player, -, hok⟩ := Except.bind_ok_iff.1 hok
  split at hok
  · cases hok
  · rw [← Except.ok.inj hok]

/-- An accepted draw offer decides the state, whatever it was before. -/
theorem resolveOffer_state {kind : OfferEvent}
    (hok : e.resolveOffer event kind actor seq = .ok e') :
    e'.state = if kind = .accept then e.state.terminal 'd' "agreement".toList else e.state := by
  unfold resolveOffer at hok
  obtain ⟨player, -, hok⟩ := Except.bind_ok_iff.1 hok
  split at hok
  · cases hok
  split at hok
  · cases hok
  split at hok
  · cases hok
  rw [← Except.ok.inj hok]
  split
  · rfl
  · rfl

theorem claimDraw_state (hok : e.claimDraw event actor seq = .ok e') :
    e'.state = e.state.terminal 'd' ((memberText event "reason").getD []) := by
  unfold claimDraw at hok
  obtain ⟨player, -, hok⟩ := Except.bind_ok_iff.1 hok
  split at hok
  · cases hok
  dsimp only at hok
  split at hok
  · cases hok
  · rw [← Except.ok.inj hok]
    rfl

theorem resign_state (hok : e.resign actor seq = .ok e') :
    e.state.outcome = dash ∧ ∃ winner, e'.state = e.state.terminal winner "resignation".toList := by
  unfold resign at hok
  obtain ⟨player, -, hok⟩ := Except.bind_ok_iff.1 hok
  split at hok
  · cases hok
  rename_i hvalid
  refine ⟨not_not.1 fun hne => hvalid (.inr hne), opponent player, ?_⟩
  rw [← Except.ok.inj hok]
  rfl

theorem adjudicate_state (hok : e.adjudicate event actor seq = .ok e') :
    ∃ result, e'.state = e.state.terminal result "adjudication".toList := by
  unfold adjudicate at hok
  split at hok
  · cases hok
  obtain ⟨result, -, hok⟩ := Except.bind_ok_iff.1 hok
  split at hok
  · cases hok
  · refine ⟨result, ?_⟩
    rw [← Except.ok.inj hok]
    rfl

theorem Normal.of_terminal {s : State} {result : Char} {reason : Text}
    (h : e.state = s.terminal result reason) : e.Normal := fun _ => by
  rw [h]
  exact ⟨rfl, rfl, rfl, rfl⟩

/-! ## One event -/

/-- A draw is agreed or claimed where the outcome was decided otherwise. -/
def Reopens (e : Engine) (event : Json) : Prop :=
  (eventType event = some (.resolve .accept) ∧ e.state.outcome ≠ "d:agreement".toList)
    ∨ (eventType event = some .claimDraw
      ∧ e.state.outcome ≠ 'd' :: ':' :: (memberText event "reason").getD [])

theorem Reopens.not_adjudicate (h : e.Reopens event) : eventType event ≠ some .adjudicate := by
  rcases h with ⟨htype, -⟩ | ⟨htype, -⟩
  · rw [htype]
    nofun
  · rw [htype]
    nofun

theorem applyEvent_normal (h : e.Normal) (hok : e.applyEvent event seq = .ok e') : e'.Normal := by
  unfold applyEvent at hok
  split at hok
  · cases hok
  dsimp only at hok
  split at hok
  · exact (applyPlace_normal h hok).1
  · exact (applyMove_normal h hok).1
  · exact (applyRemove_normal h hok).1
  · have hsame := offerDraw_state hok
    unfold Normal Decided
    rw [hsame]
    exact h
  · rename_i kind _
    have hstate := resolveOffer_state hok
    by_cases hkind : kind = .accept
    · rw [if_pos hkind] at hstate
      exact .of_terminal hstate
    · rw [if_neg hkind] at hstate
      unfold Normal Decided
      rw [hstate]
      exact h
  · exact .of_terminal (claimDraw_state hok)
  · obtain ⟨-, winner, hstate⟩ := resign_state hok
    exact .of_terminal hstate
  · obtain ⟨result, hstate⟩ := adjudicate_state hok
    exact .of_terminal hstate
  · cases hok

/-- An event that is accepted once the outcome is decided keeps it, unless it reopens it. -/
theorem applyEvent_outcome (h : e.Normal) (hdecided : e.Decided)
    (htype : eventType event ≠ some .adjudicate) (hok : e.applyEvent event seq = .ok e') :
    e'.state.outcome = e.state.outcome ↔ ¬e.Reopens event := by
  unfold applyEvent at hok
  split at hok
  · cases hok
  unfold Reopens
  cases hevent : eventType event with
  | none =>
    rw [hevent] at hok
    cases hok
  | some type =>
    rw [hevent] at hok
    -- a piece is placed, moved or removed only while nothing is decided
    cases type with
    | place => exact absurd (applyPlace_normal h hok).2 hdecided
    | move => exact absurd (applyMove_normal h hok).2 hdecided
    | remove => exact absurd (applyRemove_normal h hok).2 hdecided
    | offerDraw =>
      rw [offerDraw_state hok]
      simp
    | resolve kind =>
      rw [resolveOffer_state hok]
      cases kind with
      | withdraw => simp
      | decline => simp
      -- an accepted draw overwrites the outcome, so it stays only if it was that draw before
      | accept =>
        simp only [if_true, State.terminal, true_and, reduceCtorEq, false_and, or_false, not_not,
          Option.some.injEq]
        exact eq_comm
    | claimDraw =>
      rw [claimDraw_state hok]
      simp only [State.terminal, true_and, reduceCtorEq, false_and, false_or, not_not,
        Option.some.injEq]
      exact eq_comm
    | resign => exact absurd (resign_state hok).1 hdecided
    | adjudicate => exact absurd hevent htype

/-! ## Runs -/

variable {identity : Identity} {manifest : Manifest} {origin : Text}
  {repetitionSeed preOriginClaims : List Json}

theorem executeEvent_ok (hok : executeEvent identity e event = .ok e') :
    ∃ seq applied, e.applyEvent event seq = .ok applied ∧ e'.state = applied.state := by
  unfold executeEvent at hok
  split at hok
  · cases hok
  split at hok
  · cases hok
  obtain ⟨applied, happly, hok⟩ := Except.bind_ok_iff.1 hok
  obtain ⟨taken, -, hok⟩ := Except.bind_ok_iff.1 hok
  refine ⟨_, applied, happly, ?_⟩
  rw [← Except.ok.inj hok]

theorem executeEvent_normal (h : e.Normal) (hok : executeEvent identity e event = .ok e') :
    e'.Normal := by
  obtain ⟨seq, applied, happly, hstate⟩ := executeEvent_ok hok
  unfold Normal Decided
  rw [hstate]
  exact applyEvent_normal h happly

theorem executeEvent_outcome (h : e.Normal) (hdecided : e.Decided)
    (htype : eventType event ≠ some .adjudicate) (hok : executeEvent identity e event = .ok e') :
    e'.state.outcome = e.state.outcome ↔ ¬e.Reopens event := by
  obtain ⟨seq, applied, happly, hstate⟩ := executeEvent_ok hok
  rw [hstate]
  exact applyEvent_outcome h hdecided htype happly

theorem parse_validateShape {text : Text} {s : State} (h : State.parse text = .ok s) :
    s.validateShape = .ok () := by
  unfold State.parse at h
  split at h
  · split at h
    · cases h
    obtain ⟨board, -, h⟩ := Except.bind_ok_iff.1 h
    obtain ⟨side, -, h⟩ := Except.bind_ok_iff.1 h
    obtain ⟨phase, -, h⟩ := Except.bind_ok_iff.1 h
    obtain ⟨action, -, h⟩ := Except.bind_ok_iff.1 h
    obtain ⟨hands, -, h⟩ := Except.bind_ok_iff.1 h
    obtain ⟨noProgress, -, h⟩ := Except.bind_ok_iff.1 h
    obtain ⟨primaryPly, -, h⟩ := Except.bind_ok_iff.1 h
    obtain ⟨⟨⟩, hshape, h⟩ := Except.bind_ok_iff.1 h
    rw [← Except.ok.inj h]
    exact hshape
  · cases h

/-- The shape that a position text must have: a decided one has nobody to move. -/
theorem validateShape_normal (h : e.state.validateShape = .ok ()) : e.Normal := by
  intro hdecided
  unfold State.validateShape at h
  split_ifs at h with hongoing hterminal
  have hdash : e.state.outcome ≠ dash := hdecided
  simpa [hdash] using hterminal

theorem new_normal (h : Engine.new identity manifest origin repetitionSeed
    preOriginClaims = .ok e) :
    e.Normal := by
  unfold Engine.new at h
  obtain ⟨-, -, h⟩ := Except.bind_ok_iff.1 h
  obtain ⟨state, hparse, h⟩ := Except.bind_ok_iff.1 h
  obtain ⟨-, -, h⟩ := Except.bind_ok_iff.1 h
  obtain ⟨-, -, h⟩ := Except.bind_ok_iff.1 h
  obtain ⟨openOffer, -, h⟩ := Except.bind_ok_iff.1 h
  obtain ⟨engine, hstable, h⟩ := Except.bind_ok_iff.1 h
  obtain ⟨first, -, h⟩ := Except.bind_ok_iff.1 h
  obtain rfl := Except.ok.inj h
  have hnormal : engine.Normal :=
    stabilize_normal (validateShape_normal (parse_validateShape hparse)) hstable
  exact hnormal

/-- Where no event reopens a decided state, the outcome stays until an adjudication. -/
theorem decided_run {events : List Json}
    (h : EachStep (executeEvent identity) (fun a event b => a.Decided →
      eventType event ≠ some .adjudicate → b.state.outcome = a.state.outcome) e events)
    (hdecided : e.Decided) (hevents : ∀ event ∈ events, eventType event ≠ some .adjudicate)
    (hruns : Runs (executeEvent identity) e events e') : e'.state.outcome = e.state.outcome := by
  induction events generalizing e with
  | nil =>
    obtain rfl := runs_nil_iff.1 hruns
    rfl
  | cons event rest ih =>
    obtain ⟨next, hstep, hrest⟩ := runs_cons_iff.1 hruns
    obtain ⟨hkeep, hthen⟩ := h next hstep
    have hsame := hkeep hdecided (hevents event List.mem_cons_self)
    have hnext : next.Decided := fun hdash => hdecided (hsame.symm.trans hdash)
    rw [← hsame]
    exact ih hthen hnext (fun later hmem => hevents later (List.mem_cons_of_mem _ hmem)) hrest

/-- **A decided game keeps its outcome** through every event but an adjudication, exactly when no
event of the run reopens it. -/
theorem outcome_run
    (h : Engine.new identity manifest origin repetitionSeed preOriginClaims = .ok e)
    (events : List Json) :
    (EachStep (executeEvent identity) (fun a event b => a.Decided →
        eventType event ≠ some .adjudicate → b.state.outcome = a.state.outcome) e events
      ↔ EachStep (executeEvent identity) (fun a event _ => a.Decided → ¬a.Reopens event) e events)
    ∧ (EachStep (executeEvent identity) (fun a event _ => a.Decided → ¬a.Reopens event) e events →
      ∀ before later a b, events = before ++ later → Runs (executeEvent identity) e before a →
        Runs (executeEvent identity) a later b → a.Decided →
        (∀ event ∈ later, eventType event ≠ some .adjudicate) →
        b.state.outcome = a.state.outcome) := by
  have hiff : EachStep (executeEvent identity) (fun a event b => a.Decided →
      eventType event ≠ some .adjudicate → b.state.outcome = a.state.outcome) e events
      ↔ EachStep (executeEvent identity) (fun a event _ => a.Decided →
        ¬a.Reopens event) e events := by
    refine Fallible.eachStep_congr (I := Engine.Normal)
      (fun _ _ _ hnormal hok => executeEvent_normal hnormal hok) ?_ (new_normal h)
    intro a event b hnormal hok
    refine forall_congr' fun hdecided => ?_
    constructor
    · intro hkeep hreopens
      -- an event that reopens a state is no adjudication
      have htype : eventType event ≠ some .adjudicate := hreopens.not_adjudicate
      exact (executeEvent_outcome hnormal hdecided htype hok).1 (hkeep htype) hreopens
    · intro hnot htype
      exact (executeEvent_outcome hnormal hdecided htype hok).2 hnot
  refine ⟨hiff, fun hcond before later a b hevents hbefore hlater hdecided hadjudicate => ?_⟩
  have hsteps := hiff.2 hcond
  rw [hevents] at hsteps
  exact decided_run (hsteps.append hbefore) hdecided hadjudicate hlater

/-! ## A sample game -/

/-- A capture mechanism that is switched off. -/
def sampleMechanism : Json :=
  .ofMembers [("enabled", .bool false),
    ("lines", .ofMembers [("cross", .bool false), ("diagonal", .bool false),
      ("squareEdges", .bool false)]),
    ("maximumOwnLivePieces", .null), ("phases", .arr [.ofString "moving"])]

def sampleManifest : Json :=
  .ofMembers [
    ("boardFull", .ofMembers [("action", .ofString "disabled")]),
    ("captures", .ofMembers [("custodian", sampleMechanism), ("intervention", sampleMechanism),
      ("leap", sampleMechanism), ("resolution", .ofString "target-commits-v1")]),
    ("draw", .ofMembers [
      ("claimRights", .ofMembers [("profile", .ofString "stable-claim-rights-v1")]),
      ("noProgress", .ofMembers [("countedPrimaryActions", .arr [.ofString "move"]),
        ("endgameLimit", .int 0), ("endgamePredicate", .ofString "none"),
        ("evaluationBoundary", .ofString "stable-after-primary-sequence-v1"),
        ("mode", .ofString "automatic"), ("normalLimit", .int 0),
        ("resetEvents", .arr [.ofString "board-remove"])]),
      ("offers", .ofMembers [("expiry", .ofString "explicit-only")]),
      ("repetition", .ofMembers [("count", .int 0), ("mode", .ofString "claim"),
        ("observation", .ofString "stable-primary-decision-v1"),
        ("projection", .ofString "repetition-observation-v1"),
        ("resetEvents", .arr [.ofString "board-remove"]),
        ("summary", .ofString "reset-count-smt-v1")])]),
    ("flying", .ofMembers [("enabled", .bool true), ("maximumLive", .int 3)]),
    ("format", .ofString "MRS/1.0"),
    ("id", .ofString "example-morris"),
    ("mills", .ofMembers [("delayedClearBoundary", .ofString "on-enter-moving-v1"),
      ("lineReuse", .ofString "unlimited"), ("movingEffect", .ofString "remove-opponent-board"),
      ("placingEffect", .ofString "remove-opponent-board"),
      ("removalMultiplicity", .ofString "one-per-primary"),
      ("reverseReformation", .ofString "allowed"),
      ("targetProtection", .ofString "outside-mill-first")]),
    ("pieces", .ofMembers [("black", .int 9), ("minimumLive", .int 3), ("white", .int 9)]),
    ("placing", .ofMembers [
      ("earlyStop", .ofMembers [("boundary", .ofString "after-unobligated-place-v1"),
        ("emptyPoints", .int 0)]),
      ("movementAllowed", .bool false), ("noLegalPrimaryAction", .ofString "loss")]),
    ("semanticState", .arr []),
    ("semanticsProfile", .ofString "mif-finite-rules-v3"),
    ("stalemate", .ofMembers [("action", .ofString "loss"),
      ("boardRemovalTargets", .ofString "adjacent-opponent")]),
    ("status", .ofString "fixture"),
    ("title", .ofString "Example Morris"),
    ("topology", .ofString "mill24-orthogonal-v1"),
    ("turn", .ofMembers [("initial", .ofString "b"),
      ("placingEndActivePlayer", .ofString "retain")]),
    ("version", .int 1)]

/-- The digests of the documents that occur below; an open offer is part of a decision. -/
def sampleDigest (decision : Json) : Text :=
  let outcome := (decision.get "outcome").bind Json.asString
  if outcome = some "d:agreement".toList then
    "sha256:e1f7b93e7fed57735fac3b4efa2244a4dc051c112d11dca32c5a457c6ba5941f".toList
  else if outcome = some "w:fewer-than-minimum".toList then
    "sha256:89f67870fea564ab9bc56656eb0d363575275942de20c4a8df892ae40407829a".toList
  else if decision.get "obligations" ≠ some (.ofString "-") then
    "sha256:153632f4f491948937a9ad436de8f9805dd09a617ffdac67f1f3abb9d2f72319".toList
  else if decision.get "openOffer" ≠ some .null then
    "sha256:d0b226b60cb266a3d5050e360de8d3b79b486de3d6a678d97d74fbd28bb1bf2e".toList
  else "sha256:16b7e5df58116e1152f3c8e0b7bb9b2b8fc5d16c452b05e7ee5e7110e7209c0a".toList

def sampleIdentity : Identity where
  manifestIdentities _ :=
    .ok ("sha256:9a6c8eea359973019f1da00ef2abd88ec595aece8a7c63cf33e89a675aec683b".toList,
      "sha256:feedf1256c10b728c7207567020b4794bad6b7115c1ad5ae8d2a47ea6667db10".toList)
  repetitionRoot _ _ :=
    .ok "sha256:e9fbf966ccdff764594a5e199e6aea0cc36034b46c8057cc3df88a088c20101a".toList
  digestJson := sampleDigest

def sampleOrigin : Text :=
  "MFEN/1.0 mill24-state-v1 WW.W..../B.B.B.../........ w m m 0,0 - 0 0 -".toList

/-- The engine at the origin: three white men can close a mill against three black ones. -/
def sampleEngine : Result Engine := do
  let manifest ← Manifest.new sampleIdentity sampleManifest
  Engine.new sampleIdentity manifest sampleOrigin [] []

def sampleEvent (seq : Nat) (actor type : String) (members : List (String × Json)) : Json :=
  .ofMembers ([("seq", .int seq), ("type", .ofString type), ("actor", .ofString actor)] ++ members)

/-- White offers a draw and then wins by a mill. -/
def sampleGame : List Json :=
  [sampleEvent 1 "w" "offer-draw" [],
    sampleEvent 2 "w" "move" [("from", .ofString "g4"), ("to", .ofString "g7")],
    sampleEvent 3 "w" "remove"
      [("target", .ofMembers [("zone", .ofString "board"), ("at", .ofString "b6")])]]

def sampleDecline : Json := sampleEvent 4 "b" "decline-draw" [("offerEventSeq", .int 1)]

def sampleAccept : Json := sampleEvent 4 "b" "accept-draw" [("offerEventSeq", .int 1)]

def outcomeAfter (events : List Json) : Result Text := do
  let start ← sampleEngine
  let final ← events.foldlM (executeEvent sampleIdentity) start
  .ok final.state.outcome

theorem outcomeAfter_ok {events : List Json} {outcome : Text}
    (h : outcomeAfter events = .ok outcome) :
    ∃ start final, sampleEngine = .ok start ∧ Runs (executeEvent sampleIdentity) start events final
      ∧ final.state.outcome = outcome := by
  obtain ⟨start, hstart, h⟩ := Except.bind_ok_iff.1 h
  obtain ⟨final, hruns, h⟩ := Except.bind_ok_iff.1 h
  exact ⟨start, final, hstart, hruns, Except.ok.inj h⟩

/-- The engines before and after one more event. -/
theorem sampleGame_then {event : Json} {outcome : Text}
    (h : outcomeAfter (sampleGame ++ [event]) = .ok outcome) :
    ∃ manifest start won final, Manifest.new sampleIdentity sampleManifest = .ok manifest
      ∧ Engine.new sampleIdentity manifest sampleOrigin [] [] = .ok start
      ∧ Runs (executeEvent sampleIdentity) start sampleGame won
      ∧ Runs (executeEvent sampleIdentity) won [event] final ∧ won.Decided
      ∧ won.state.outcome = "w:fewer-than-minimum".toList ∧ final.state.outcome = outcome := by
  have hgame : outcomeAfter sampleGame = .ok "w:fewer-than-minimum".toList := by decide +kernel
  obtain ⟨start, won, hstart, hbefore, hwon⟩ := outcomeAfter_ok hgame
  obtain ⟨start', final, hstart', hruns, hfinal⟩ := outcomeAfter_ok h
  obtain rfl : start = start' := Except.ok.inj (hstart.symm.trans hstart')
  obtain ⟨won', hbefore', hlater⟩ := Fallible.runs_append_iff.1 hruns
  obtain rfl : won = won' := Except.ok.inj (hbefore.symm.trans hbefore')
  obtain ⟨manifest, hmanifest, hnew⟩ := Except.bind_ok_iff.1 hstart
  have hdecided : won.Decided := by
    unfold Decided
    rw [hwon]
    decide
  exact ⟨manifest, start, won, final, hmanifest, hnew, hbefore, hlater, hdecided, hwon, hfinal⟩

/-- White has won, and the win stands when Black declines the offer that was left. -/
theorem outcome_run_decline :
    ∃ manifest start won final, Manifest.new sampleIdentity sampleManifest = .ok manifest
      ∧ Engine.new sampleIdentity manifest sampleOrigin [] [] = .ok start
      ∧ Runs (executeEvent sampleIdentity) start sampleGame won
      ∧ Runs (executeEvent sampleIdentity) won [sampleDecline] final
      ∧ won.state.outcome = "w:fewer-than-minimum".toList
      ∧ final.state.outcome = won.state.outcome := by
  have hafter : outcomeAfter (sampleGame ++ [sampleDecline])
      = .ok "w:fewer-than-minimum".toList := by
    decide +kernel
  obtain ⟨manifest, start, won, final, hmanifest, hnew, hbefore, hlater, hdecided, hwon, -⟩ :=
    sampleGame_then hafter
  -- neither the game nor the answer accepts an offer or claims a draw
  have hnot : ∀ event ∈ sampleGame ++ [sampleDecline], ∀ a b : Engine,
      a.Decided → ¬a.Reopens event := by
    have htypes : ∀ event ∈ sampleGame ++ [sampleDecline],
        eventType event ≠ some (.resolve .accept) ∧ eventType event ≠ some .claimDraw := by
      decide +kernel
    rintro event hmem - - - (⟨haccept, -⟩ | ⟨hclaim, -⟩)
    · exact (htypes event hmem).1 haccept
    · exact (htypes event hmem).2 hclaim
  refine ⟨manifest, start, won, final, hmanifest, hnew, hbefore, hlater, hwon, ?_⟩
  refine (outcome_run hnew _).2 (.of_forall hnot) _ _ won final rfl hbefore hlater hdecided ?_
  intro event hmem
  rw [List.mem_singleton.1 hmem]
  decide +kernel

/-- The win becomes a draw when Black accepts the offer that White made before it. -/
theorem outcome_run_accept :
    ¬∀ (manifest : Manifest) (start : Engine) (events : List Json),
      Manifest.new sampleIdentity sampleManifest = .ok manifest →
      Engine.new sampleIdentity manifest sampleOrigin [] [] = .ok start →
      EachStep (executeEvent sampleIdentity) (fun a event b => a.Decided →
        eventType event ≠ some .adjudicate → b.state.outcome = a.state.outcome) start events := by
  intro hclaim
  have hafter : outcomeAfter (sampleGame ++ [sampleAccept]) = .ok "d:agreement".toList := by
    decide +kernel
  obtain ⟨manifest, start, won, final, hmanifest, hnew, hbefore, hlater, hdecided, hwon, hdraw⟩ :=
    sampleGame_then hafter
  have hkeep := (hclaim manifest start (sampleGame ++ [sampleAccept]) hmanifest hnew).append hbefore
  have hsame := decided_run hkeep hdecided (by decide +kernel) hlater
  rw [hwon, hdraw] at hsame
  exact absurd hsame (by decide)

end Engine

end Sanmill.Mif
