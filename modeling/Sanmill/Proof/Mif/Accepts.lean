import Sanmill.Mif.LegalActions
import Sanmill.Proof.Mif.LogicalTurns

/-!
# Accepted actions

A manifest that was accepted names policies that the engine has, so nothing fails once an
action is under way: the engine accepts a place, a move or a removal exactly when its own
checks pass.
-/

namespace Sanmill.Mif

variable {identity : Identity} {manifest : Manifest} {value : Json}

/-! ## Accepted manifests -/

/-- The policies of a manifest that was accepted. -/
structure Manifest.Checked (m : Manifest) : Prop where
  boardFull : isOneOf (some m.boardFull) ["disabled", "white-loses", "draw",
    "white-then-black-remove", "black-then-white-remove"] = true
  placing : isOneOf (some m.placingNoLegal) ["apply-board-full", "loss", "draw"] = true
  enabled : ¬(isOneOf (some m.placingNoLegal) ["apply-board-full"] = true
    ∧ isOneOf (some m.boardFull) ["disabled"] = true)

/-- A check in the middle of a sequence has passed when the sequence succeeds. -/
theorem guard_ok {c : Prop} [Decidable c] {diagnostic : Diagnostic} {β : Type}
    {next : Unit → Result β} {b : β}
    (h : (if c then (Except.error diagnostic : Result Unit) >>= next else next ()) = .ok b) :
    ¬c ∧ next () = .ok b := by
  by_cases hc : c
  · rw [if_pos hc] at h
    cases h
  · rw [if_neg hc] at h
    exact ⟨hc, h⟩

/-- What the check of a manifest says about three of its members. -/
theorem validateRuntimeManifest_ok (h : validateRuntimeManifest value = .ok ()) :
    ∃ boardFull noLegal, Mif.pointer value ["boardFull", "action"] = .ok boardFull
      ∧ Mif.pointer value ["placing", "noLegalPrimaryAction"] = .ok noLegal
      ∧ isOneOf boardFull.asString ["disabled", "white-loses", "draw", "white-then-black-remove",
        "black-then-white-remove"] = true
      ∧ isOneOf noLegal.asString ["apply-board-full", "loss", "draw"] = true
      ∧ ¬(isOneOf noLegal.asString ["apply-board-full"] = true
        ∧ isOneOf boardFull.asString ["disabled"] = true) := by
  unfold validateRuntimeManifest at h
  obtain ⟨-, h⟩ := guard_ok h
  obtain ⟨resolution, -, h⟩ := Except.bind_ok_iff.1 h
  obtain ⟨-, h⟩ := guard_ok h
  obtain ⟨mills, -, h⟩ := Except.bind_ok_iff.1 h
  obtain ⟨-, h⟩ := guard_ok h
  obtain ⟨boardFull, hboardFull, h⟩ := Except.bind_ok_iff.1 h
  obtain ⟨hfull, h⟩ := guard_ok h
  obtain ⟨noLegal, hnoLegal, h⟩ := Except.bind_ok_iff.1 h
  obtain ⟨stalemate, -, h⟩ := Except.bind_ok_iff.1 h
  obtain ⟨hplacing, h⟩ := guard_ok h
  obtain ⟨henabled, -⟩ := guard_ok h
  refine ⟨boardFull, noLegal, hboardFull, hnoLegal, eq_true_of_ne_false hfull, ?_, henabled⟩
  exact eq_true_of_ne_false fun hfalse => hplacing (.inl hfalse)

theorem Manifest.new_checked (h : Manifest.new identity value = .ok manifest) :
    manifest.Checked := by
  unfold Manifest.new at h
  -- the steps of the constructor in turn; only those that bind the fields of `Checked` are kept
  obtain ⟨⟨semanticDigest, documentDigest⟩, -, h⟩ := Except.bind_ok_iff.1 h
  obtain ⟨⟨⟩, hvalid, h⟩ := Except.bind_ok_iff.1 h
  obtain ⟨boardFull, noLegal, hboardFull, hnoLegal, hfull, hplacing, henabled⟩ :=
    validateRuntimeManifest_ok hvalid
  obtain ⟨repetition, -, h⟩ := Except.bind_ok_iff.1 h
  obtain ⟨noProgress, -, h⟩ := Except.bind_ok_iff.1 h
  obtain ⟨repetitionCount, -, h⟩ := Except.bind_ok_iff.1 h
  obtain ⟨repetitionMode, -, h⟩ := Except.bind_ok_iff.1 h
  obtain ⟨repetitionObservation, -, h⟩ := Except.bind_ok_iff.1 h
  obtain ⟨movement, -, h⟩ := Except.bind_ok_iff.1 h
  obtain ⟨movementAllowed, -, h⟩ := Except.bind_ok_iff.1 h
  obtain ⟨live, -, h⟩ := Except.bind_ok_iff.1 h
  obtain ⟨minimumLive, -, h⟩ := Except.bind_ok_iff.1 h
  obtain ⟨full, hfullPointer, h⟩ := Except.bind_ok_iff.1 h
  obtain ⟨boardFullText, hrequire, h⟩ := Except.bind_ok_iff.1 h
  obtain ⟨noProgressNormal, -, h⟩ := Except.bind_ok_iff.1 h
  obtain ⟨noProgressEndgame, -, h⟩ := Except.bind_ok_iff.1 h
  obtain ⟨noProgressCounted, -, h⟩ := Except.bind_ok_iff.1 h
  obtain ⟨noProgressResets, -, h⟩ := Except.bind_ok_iff.1 h
  obtain ⟨repetitionResets, -, h⟩ := Except.bind_ok_iff.1 h
  obtain ⟨noLegal', hnoLegal', h⟩ := Except.bind_ok_iff.1 h
  obtain ⟨stalemate, -, h⟩ := Except.bind_ok_iff.1 h
  -- the constructor reads two members again that the validation has read
  obtain rfl : full = boardFull := Except.ok.inj (hfullPointer.symm.trans hboardFull)
  obtain rfl : noLegal' = noLegal := Except.ok.inj (hnoLegal'.symm.trans hnoLegal)
  have hboardText : full.asString = some boardFullText := by
    unfold requireMember at hrequire
    split at hrequire
    · rename_i found hfound
      rw [hfound, Except.ok.inj hrequire]
    · cases hrequire
  obtain ⟨noLegalText, hnoLegalText⟩ : ∃ text, noLegal'.asString = some text := by
    cases hname : noLegal'.asString with
    | none =>
      rw [hname] at hplacing
      exact absurd hplacing (by decide)
    | some text => exact ⟨text, rfl⟩
  rw [hboardText] at hfull henabled
  rw [hnoLegalText] at hplacing henabled
  obtain rfl := Except.ok.inj h
  refine ⟨hfull, ?_, ?_⟩
  · rw [hnoLegalText]
    exact hplacing
  · rw [hnoLegalText]
    exact henabled

namespace Engine

variable {e e' : Engine} {event : Json} {actor : Text} {seq : Nat}

/-! ## Stabilizing does not fail -/

theorem resolveFullBoard_total (h : e.manifest.Checked) :
    ∃ full, e.resolveFullBoard = .ok full
      ∧ (full = none → isOneOf (some e.manifest.boardFull) ["disabled"] = true) := by
  have hlisted := h.boardFull
  simp only [isOneOf, Option.any_some, List.any_cons, List.any_nil, Bool.or_false, Bool.or_eq_true,
    decide_eq_true_iff] at hlisted
  unfold resolveFullBoard
  dsimp only
  split_ifs with hdisabled hloses hdraw hwhite hblack
  · refine ⟨none, rfl, fun _ => ?_⟩
    rw [hdisabled]
    decide
  · exact ⟨_, rfl, fun hnone => absurd hnone (by simp)⟩
  · exact ⟨_, rfl, fun hnone => absurd hnone (by simp)⟩
  · exact ⟨_, rfl, fun hnone => absurd hnone (by simp)⟩
  · exact ⟨_, rfl, fun hnone => absurd hnone (by simp)⟩
  · rcases hlisted with hdash | hdash | hdash | hdash | hdash
    · exact absurd hdash.symm hdisabled
    · exact absurd hdash.symm hloses
    · exact absurd hdash.symm hdraw
    · exact absurd hdash.symm hwhite
    · exact absurd hdash.symm hblack

theorem checkFullBoard_total (h : e.manifest.Checked) :
    ∃ full, e.checkFullBoard = .ok full
      ∧ (full = none → e.hasEmptyPoint = false →
        isOneOf (some e.manifest.boardFull) ["disabled"] = true) := by
  unfold checkFullBoard
  cases hempty : e.hasEmptyPoint with
  | true => exact ⟨none, rfl, nofun⟩
  | false =>
    obtain ⟨full, hok, hnone⟩ := resolveFullBoard_total h
    exact ⟨full, hok, fun hfull _ => hnone hfull⟩

theorem syncPhase_same (e : Engine) :
    e.syncPhase.manifest = e.manifest ∧ e.syncPhase.repetitionHistory = e.repetitionHistory
      ∧ e.syncPhase.state.board = e.state.board
        ∧ e.syncPhase.state.obligations = e.state.obligations := by
  unfold syncPhase
  split
  · exact ⟨rfl, rfl, rfl, rfl⟩
  · exact ⟨rfl, rfl, rfl, rfl⟩

/-- A player without pieces in hand is not in the placing phase. -/
theorem syncPhase_hand (houtcome : e.state.outcome = dash)
    (hobligations : e.state.obligations = dash)
    (hphase : e.syncPhase.state.phase = 'p') :
    0 < e.syncPhase.state.hands (playerIndex e.syncPhase.state.side) := by
  unfold syncPhase at hphase ⊢
  rw [if_neg (by simp [houtcome, hobligations])] at hphase ⊢
  dsimp only at hphase ⊢
  split at hphase
  · cases hphase
  · rename_i hhands
    exact Nat.pos_of_ne_zero fun hzero => hhands (.inr hzero)

/-- Where the material decides nothing, it changes nothing. -/
theorem checkMaterial_undecided (h : e.checkMaterial.state.outcome = dash) :
    e.checkMaterial = e := by
  unfold checkMaterial at h ⊢
  dsimp only at h ⊢
  split at h
  · exact absurd h (terminal_outcome_ne_dash _ _ _)
  · exact absurd h (terminal_outcome_ne_dash _ _ _)
  · exact absurd h (terminal_outcome_ne_dash _ _ _)
  · rfl

theorem resolveNoLegal_total (h : e.manifest.Checked)
    (hplacing : e.state.phase = 'p' →
      isOneOf (some e.manifest.boardFull) ["disabled"] = true) :
        ∃ e', e.resolveNoLegal = .ok e' := by
  unfold resolveNoLegal
  by_cases hphase : e.state.phase = 'p'
  · rw [if_pos hphase]
    have hlisted := h.placing
    have henabled := h.enabled
    simp only [isOneOf, Option.any_some, List.any_cons, List.any_nil, Bool.or_false,
      Bool.or_eq_true,
      decide_eq_true_iff] at hlisted henabled hplacing
    rcases hlisted with happly | hloss | hdraw
    · exact absurd ⟨happly, hplacing hphase⟩ henabled
    · rw [if_pos hloss.symm]
      exact ⟨_, rfl⟩
    · split
      · exact ⟨_, rfl⟩
      · exact ⟨_, if_pos hdraw.symm⟩
  · rw [if_neg hphase]
    split
    · exact ⟨_, rfl⟩
    · exact ⟨_, rfl⟩

theorem observe_total (hroom : e.repetitionHistory.length < MAX_REPETITION_ENTRIES)
    (eventSeq : Option Nat) (sourceKind : String) :
    ∃ e', e.observe eventSeq sourceKind = .ok e' := by
  unfold observe
  split
  · unfold enforceResourceLimit
    rw [if_neg (Nat.not_lt.2 hroom)]
    exact ⟨_, rfl⟩
  · exact ⟨_, rfl⟩

theorem stabilize_total {eventSeq : Option Nat} {sourceKind : String} (h : e.manifest.Checked)
    (hroom : e.repetitionHistory.length < MAX_REPETITION_ENTRIES) :
    ∃ e', e.stabilize eventSeq sourceKind = .ok e' := by
  unfold stabilize
  by_cases hsettled : e.state.outcome ≠ dash ∨ e.state.obligations ≠ dash
  · rw [if_pos hsettled]
    exact ⟨_, rfl⟩
  rw [if_neg hsettled]
  obtain ⟨hmanifest, hhistory, hboard, hobligations⟩ := syncPhase_same e
  obtain ⟨full, hfull, hnone⟩ := checkFullBoard_total (e := e.syncPhase) (hmanifest.symm ▸ h)
  dsimp only
  rw [hfull]
  cases full with
  | some resolved => exact ⟨_, rfl⟩
  | none =>
    change ∃ e', (if e.syncPhase.checkMaterial.state.outcome ≠ dash then _ else _) = Except.ok e'
    by_cases hmaterial : e.syncPhase.checkMaterial.state.outcome = dash
    swap
    · rw [if_pos hmaterial]
      exact ⟨_, rfl⟩
    rw [if_neg (not_not.2 hmaterial), checkMaterial_undecided hmaterial]
    rw [checkMaterial_undecided hmaterial] at hmaterial
    have hdash : e.syncPhase.state.obligations = dash :=
      hobligations.trans (not_not.1 fun hne => hsettled (.inr hne))
    obtain ⟨hmanifest', hhistory', hboard', -⟩ := syncPhase_same e.syncPhase
    by_cases hlegal : e.syncPhase.syncPhase.legalPrimaryExists = false
    · rw [if_pos hlegal]
      refine resolveNoLegal_total ?_ ?_
      · rw [hmanifest', hmanifest]
        exact h
      · intro hphase
        have hhand := syncPhase_hand hmaterial hdash hphase
        rw [hmanifest']
        refine hnone rfl ?_
        -- with an empty point there would be a place to make
        by_contra hempty
        have hempty' : e.syncPhase.syncPhase.hasEmptyPoint = true := by
          unfold hasEmptyPoint
          rw [hboard']
          exact eq_true_of_ne_false hempty
        unfold legalPrimaryExists at hlegal
        dsimp only at hlegal
        rw [if_pos hphase, hempty', decide_eq_true hhand] at hlegal
        cases hlegal
    · rw [if_neg hlegal]
      obtain ⟨observed, hobserve⟩ := @observe_total e.syncPhase.syncPhase
        (by rw [hhistory', hhistory]; exact hroom) eventSeq sourceKind
      rw [hobserve]
      exact ⟨_, rfl⟩

/-! ## What the engine reads -/

theorem oneChar_ok_iff {text : Text} {field : String} {c : Char} :
    oneChar text field = .ok c ↔ text = [c] := by
  unfold oneChar
  split
  · constructor
    · intro h
      cases h
    · intro h
      cases h
  · rename_i d
    constructor
    · intro h
      rw [Except.ok.inj h]
    · intro h
      rw [(List.cons.inj h).1]
  · rename_i hnil hone
    constructor
    · intro h
      cases h
    · intro h
      exact absurd h (hone c)

theorem requireActor_ok_iff {c : Char} :
    e.requireActor actor seq = .ok c ↔ actor = [c] ∧ c = e.state.side := by
  unfold requireActor
  rw [Except.bind_ok_iff]
  constructor
  · rintro ⟨d, hd, h⟩
    split at h
    · cases h
    · rename_i hside
      obtain rfl := Except.ok.inj h
      exact ⟨oneChar_ok_iff.1 hd, not_not.1 hside⟩
  · rintro ⟨htext, hside⟩
    exact ⟨c, oneChar_ok_iff.2 htext, if_neg (not_not.2 hside)⟩

theorem memberText_eq_some_iff {member : String} {text : Text} :
    memberText event member = some text ↔ event.get member = some (.str text) := by
  unfold memberText
  rw [Option.bind_eq_some_iff]
  constructor
  · rintro ⟨found, hget, hstring⟩
    cases found with
    | str other =>
      obtain rfl : other = text := Option.some.inj hstring
      exact hget
    | null => cases hstring
    | bool _ => cases hstring
    | int _ => cases hstring
    | float _ => cases hstring
    | arr _ => cases hstring
    | obj _ => cases hstring
  · intro h
    exact ⟨_, h, rfl⟩

/-- An event without an actor has an empty one. -/
theorem actor_eq_iff {c : Char} :
    (memberText event "actor").getD [] = [c] ↔ event.get "actor" = some (ofChar c) := by
  refine Iff.trans ?_ memberText_eq_some_iff
  cases memberText event "actor" with
  | none =>
    constructor
    · intro h
      cases h
    · intro h
      cases h
  | some text =>
    constructor
    · intro h
      exact congrArg some h
    · intro h
      exact Option.some.inj h

theorem coordIndex_eq_some_iff {coord : Text} {point : Point} :
    coordIndex coord = some point ↔ COORDS.getD point.val [] = coord := by
  have hdistinct : ∀ a b : Point, COORDS.getD a.val [] = COORDS.getD b.val [] → a = b := by
    decide +kernel
  unfold coordIndex
  constructor
  · intro h
    simpa using List.find?_some h
  · intro h
    obtain ⟨found, hfound⟩ : ∃ found,
        (List.finRange 24).find? (fun point => COORDS.getD point.val [] = coord) = some found :=
      Option.isSome_iff_exists.1 (List.find?_isSome.2
        ⟨point, List.mem_finRange point, decide_eq_true h⟩)
    have hcoord : COORDS.getD found.val [] = coord := by simpa using List.find?_some hfound
    rw [hfound, hdistinct found point (hcoord.trans h.symm)]

theorem requireText_ok_iff {member missing message : String} {text : Text} :
    requireText event member missing message seq = .ok text
      ↔ event.get member = some (.str text) := by
  rw [← memberText_eq_some_iff]
  unfold requireText
  cases memberText event member with
  | none =>
    constructor
    · intro h
      cases h
    · intro h
      cases h
  | some other =>
    constructor
    · intro h
      exact congrArg some (Except.ok.inj h)
    · intro h
      exact congrArg Except.ok (Option.some.inj h)

theorem requirePoint_ok_iff {coord : Text} {message : String} {point : Point} :
    requirePoint coord message seq = .ok point ↔ COORDS.getD point.val [] = coord := by
  rw [← coordIndex_eq_some_iff]
  unfold requirePoint
  cases coordIndex coord with
  | none =>
    constructor
    · intro h
      cases h
    · intro h
      cases h
  | some other =>
    constructor
    · intro h
      exact congrArg some (Except.ok.inj h)
    · intro h
      exact congrArg Except.ok (Option.some.inj h)

theorem requireCoord_ok_iff {member missing message invalid : String} {point : Point} :
    requireCoord event member missing message invalid seq = .ok point
      ↔ event.get member = some (coordJson point) := by
  unfold requireCoord
  rw [Except.bind_ok_iff]
  constructor
  · rintro ⟨coord, htext, hpoint⟩
    obtain rfl := requirePoint_ok_iff.1 hpoint
    exact requireText_ok_iff.1 htext
  · intro h
    exact ⟨_, requireText_ok_iff.2 h, requirePoint_ok_iff.2 rfl⟩

/-! ## Accepted places and moves -/

theorem settlePrimary_total {player : Char} {formedMill : Bool} {kind : String}
    (h : e.manifest.Checked) (hroom : e.repetitionHistory.length < MAX_REPETITION_ENTRIES) :
    ∃ e', e.settlePrimary player formedMill kind seq = .ok e' := by
  unfold settlePrimary
  dsimp only
  split
  · exact ⟨_, rfl⟩
  · obtain ⟨hmanifest, hhistory, -, -⟩ :=
      syncPhase_same (e.setState { e.state with side := opponent player })
    refine stabilize_total ?_ ?_
    · rw [hmanifest]
      exact h
    · rw [hhistory]
      exact hroom

theorem resetRepetition_length (e : Engine) (reset : Bool) :
    (e.resetRepetition reset).manifest = e.manifest
      ∧ (e.resetRepetition reset).repetitionHistory.length ≤ e.repetitionHistory.length := by
  unfold resetRepetition
  split
  · exact ⟨rfl, Nat.zero_le _⟩
  · exact ⟨rfl, le_rfl⟩

theorem afterPrimary_total {player : Char} {destination : Point} {kind : String}
    (h : e.manifest.Checked) (hroom : e.repetitionHistory.length < MAX_REPETITION_ENTRIES) :
    ∃ e', e.afterPrimary player destination kind seq = .ok e' := by
  unfold afterPrimary
  dsimp only
  refine settlePrimary_total ?_ ?_
  · change (e.resetRepetition _).manifest.Checked
    rw [(resetRepetition_length e _).1]
    exact h
  · exact lt_of_le_of_lt (resetRepetition_length e _).2 hroom

theorem applyPlace_accepts_iff (h : e.manifest.Checked)
    (hroom : e.repetitionHistory.length < MAX_REPETITION_ENTRIES) :
    (∃ e', e.applyPlace event actor seq = .ok e')
      ↔ actor = [e.state.side] ∧ e.state.action = 'p' ∧ e.state.obligations = dash
        ∧ ∃ index, event.get "at" = some (coordJson index) ∧ e.state.board index = '.'
          ∧ e.state.hands (playerIndex e.state.side) ≠ 0 := by
  unfold applyPlace
  constructor
  · rintro ⟨e', hok⟩
    -- the guards of the source one after the other, each turned into what it checks
    obtain ⟨player, hplayer, hok⟩ := Except.bind_ok_iff.1 hok
    obtain ⟨hactor, rfl⟩ := requireActor_ok_iff.1 hplayer
    split at hok
    · cases hok
    rename_i haction
    obtain ⟨index, hindex, hok⟩ := Except.bind_ok_iff.1 hok
    split at hok
    · cases hok
    rename_i htarget
    exact ⟨hactor, not_not.1 fun hne => haction (.inl hne), not_not.1 fun hne => haction (.inr hne),
      index, requireCoord_ok_iff.1 hindex, not_not.1 fun hne => htarget (.inl hne),
      fun hzero => htarget (.inr hzero)⟩
  -- with every guard passed, what follows a primary action cannot fail
  · rintro ⟨hactor, haction, hobligations, index, hindex, hempty, hhand⟩
    have hallowed : ¬(e.state.action ≠ 'p' ∨ e.state.obligations ≠ dash) :=
      not_or.2 ⟨not_not.2 haction, not_not.2 hobligations⟩
    have hlegal : ¬(e.state.board index ≠ '.' ∨ e.state.hands (playerIndex e.state.side) = 0) :=
      not_or.2 ⟨not_not.2 hempty, hhand⟩
    rw [requireActor_ok_iff.2 ⟨hactor, rfl⟩]
    change ∃ e', (if e.state.action ≠ 'p' ∨ e.state.obligations ≠ dash then _ else _) = Except.ok e'
    rw [if_neg hallowed, requireCoord_ok_iff.2 hindex]
    change ∃ e', (if e.state.board index ≠ '.' ∨ e.state.hands (playerIndex e.state.side) = 0 then _
      else _) = Except.ok e'
    rw [if_neg hlegal]
    exact afterPrimary_total h hroom

theorem applyMove_accepts_iff (h : e.manifest.Checked)
    (hroom : e.repetitionHistory.length < MAX_REPETITION_ENTRIES) :
    (∃ e', e.applyMove event actor seq = .ok e')
      ↔ actor = [e.state.side]
        ∧ (e.state.action = 'm' ∨ (e.state.action = 'p' ∧ e.manifest.movementAllowed = true))
        ∧ e.state.obligations = dash
        ∧ ∃ source target, event.get "from" = some (coordJson source)
          ∧ event.get "to" = some (coordJson target) ∧ e.state.board source = e.state.side.toUpper
          ∧ e.state.board target = '.'
          ∧ (e.flying e.state.side = true ∨ target ∈ ADJACENCY source) := by
  unfold applyMove
  constructor
  · rintro ⟨e', hok⟩
    -- the guards in the order of the source: the actor, the action, both points, the rule
    obtain ⟨player, hplayer, hok⟩ := Except.bind_ok_iff.1 hok
    obtain ⟨hactor, rfl⟩ := requireActor_ok_iff.1 hplayer
    split at hok
    · cases hok
    rename_i haction
    obtain ⟨sourceText, hsourceText, hok⟩ := Except.bind_ok_iff.1 hok
    obtain ⟨targetText, htargetText, hok⟩ := Except.bind_ok_iff.1 hok
    obtain ⟨source, hsource, hok⟩ := Except.bind_ok_iff.1 hok
    obtain ⟨target, htarget, hok⟩ := Except.bind_ok_iff.1 hok
    have hsourceCoord := requirePoint_ok_iff.1 hsource
    have htargetCoord := requirePoint_ok_iff.1 htarget
    split at hok
    · cases hok
    rename_i hlegal
    refine ⟨hactor, not_not.1 fun hne => haction (.inl hne),
      not_not.1 fun hne => haction (.inr hne),
      source, target, ?_, ?_, not_not.1 fun hne => hlegal (.inl hne),
      not_not.1 fun hne => hlegal (.inr (.inl hne)), ?_⟩
    · unfold coordJson
      rw [hsourceCoord]
      exact requireText_ok_iff.1 hsourceText
    · unfold coordJson
      rw [htargetCoord]
      exact requireText_ok_iff.1 htargetText
    -- a piece that does not fly goes to a neighbour
    · by_contra hreach
      obtain ⟨hflying, hadjacent⟩ := not_or.1 hreach
      exact hlegal (.inr (.inr ⟨eq_false_of_ne_true hflying, hadjacent⟩))
  · rintro ⟨hactor, haction, hobligations, source, target, hsource, htarget, hpiece, hempty, hreach⟩
    have hallowed : ¬(¬(e.state.action = 'm'
        ∨ (e.state.action = 'p' ∧ e.manifest.movementAllowed = true))
        ∨ e.state.obligations ≠ dash) :=
      not_or.2 ⟨not_not.2 haction, not_not.2 hobligations⟩
    have hlegal : ¬(e.state.board source ≠ e.state.side.toUpper ∨ e.state.board target ≠ '.'
        ∨ (e.flying e.state.side = false ∧ target ∉ ADJACENCY source)) := by
      rintro (hne | hne | ⟨hflying, hadjacent⟩)
      · exact hne hpiece
      · exact hne hempty
      · rcases hreach with hfly | hmem
        · rw [hflying] at hfly
          cases hfly
        · exact hadjacent hmem
    have hsourceText : requireText event "from" "move-source-missing" "move event requires from" seq
        = .ok (COORDS.getD source.val []) := requireText_ok_iff.2 hsource
    have htargetText : requireText event "to" "move-target-missing" "move event requires to" seq
        = .ok (COORDS.getD target.val []) := requireText_ok_iff.2 htarget
    have hsourcePoint : requirePoint (COORDS.getD source.val []) "move source is invalid" seq
        = .ok source :=
      requirePoint_ok_iff.2 rfl
    have htargetPoint : requirePoint (COORDS.getD target.val []) "move target is invalid" seq
        = .ok target :=
      requirePoint_ok_iff.2 rfl
    rw [requireActor_ok_iff.2 ⟨hactor, rfl⟩]
    change ∃ e', (if ¬(e.state.action = 'm'
      ∨ (e.state.action = 'p' ∧ e.manifest.movementAllowed = true))
      ∨ e.state.obligations ≠ dash then _ else _) = Except.ok e'
    rw [if_neg hallowed, hsourceText, htargetText]
    change ∃ e', (requirePoint (COORDS.getD source.val []) "move source is invalid" seq >>= _)
      = Except.ok e'
    rw [hsourcePoint]
    change ∃ e', (requirePoint (COORDS.getD target.val []) "move target is invalid" seq >>= _)
      = Except.ok e'
    rw [htargetPoint]
    change ∃ e', (if e.state.board source ≠ e.state.side.toUpper ∨ e.state.board target ≠ '.'
      ∨ (e.flying e.state.side = false ∧ target ∉ ADJACENCY source) then _ else _) = Except.ok e'
    rw [if_neg hlegal]
    exact afterPrimary_total h hroom

/-! ## Accepted removals -/

/-- The first obligations of the branches. -/
def heads (branches : List (List Obligation)) : List Obligation := branches.filterMap List.head?

theorem find_branch (branches : List (List Obligation)) (p : Obligation → Bool) :
    (branches.find? fun branch => branch.head?.any p).bind List.head?
      = (heads branches).find? p := by
  unfold heads
  induction branches with
  | nil => rfl
  | cons branch rest ih =>
    cases branch with
    | nil =>
      rw [List.find?_cons_of_neg (by simp), ih]
      rfl
    | cons head later =>
      change _ = List.find? p (head :: List.filterMap List.head? rest)
      by_cases hp : p head = true
      · rw [List.find?_cons_of_pos (by simpa using hp), List.find?_cons_of_pos hp]
        rfl
      · rw [List.find?_cons_of_neg (by simpa using hp), List.find?_cons_of_neg hp, ih]

/-- The first obligation of the player that has the target is owed a piece of the player there. -/
def Removable (s : State) (branches : List (List Obligation)) (index : Point) : Prop :=
  ∃ head, (heads branches).find? (fun head => head.actor = s.side ∧ head.targets.getLsbD index.val)
      = some head ∧ s.board index = head.owner.toUpper

theorem checkMaterial_same (e : Engine) :
    e.checkMaterial.manifest = e.manifest
      ∧ e.checkMaterial.repetitionHistory = e.repetitionHistory := by
  unfold checkMaterial
  dsimp only
  split
  · exact ⟨rfl, rfl⟩
  · exact ⟨rfl, rfl⟩
  · exact ⟨rfl, rfl⟩
  · exact ⟨rfl, rfl⟩

theorem afterRemoval_total {branch : List Obligation} {after : Char} (h : e.manifest.Checked)
    (hroom : e.repetitionHistory.length < MAX_REPETITION_ENTRIES) :
    ∃ e', e.afterRemoval branch after seq = .ok e' := by
  cases branch with
  | cons next later => exact ⟨_, rfl⟩
  | nil =>
    unfold afterRemoval
    dsimp only
    obtain ⟨hmanifest, hhistory, -, -⟩ :=
      syncPhase_same (e.setState { e.state with side := after, obligations := dash })
    obtain ⟨hmanifest', hhistory'⟩ :=
      checkMaterial_same (e.setState { e.state with side := after, obligations := dash }).syncPhase
    refine stabilize_total ?_ ?_
    · rw [hmanifest', hmanifest]
      exact h
    · rw [hhistory', hhistory]
      exact hroom

theorem requireTarget_ok_iff {target : Json} :
    requireTarget event seq = .ok target ↔ event.get "target" = some target := by
  unfold requireTarget
  cases event.get "target" with
  | none =>
    constructor
    · intro h
      cases h
    · intro h
      cases h
  | some other =>
    constructor
    · intro h
      exact congrArg some (Except.ok.inj h)
    · intro h
      exact congrArg Except.ok (Option.some.inj h)

theorem applyRemove_accepts_iff (h : e.manifest.Checked)
    (hroom : e.repetitionHistory.length < MAX_REPETITION_ENTRIES) :
    (∃ e', e.applyRemove event actor seq = .ok e')
      ↔ actor = [e.state.side] ∧ e.state.action = 'r' ∧ e.state.obligations ≠ dash
        ∧ ∃ target index branches, event.get "target" = some target
          ∧ target.get "zone" = some (.ofString "board") ∧ target.get "at" = some (coordJson index)
          ∧ parseObligationBranches e.state.obligations = .ok branches
          ∧ Removable e.state branches index := by
  unfold applyRemove
  constructor
  · rintro ⟨e', hok⟩
    obtain ⟨player, hplayer, hok⟩ := Except.bind_ok_iff.1 hok
    obtain ⟨hactor, rfl⟩ := requireActor_ok_iff.1 hplayer
    split at hok
    · cases hok
    rename_i haction
    obtain ⟨target, htarget, hok⟩ := Except.bind_ok_iff.1 hok
    split at hok
    · cases hok
    rename_i hzone
    obtain ⟨index, hindex, hok⟩ := Except.bind_ok_iff.1 hok
    obtain ⟨branches, hbranches, hok⟩ := Except.bind_ok_iff.1 hok
    refine ⟨hactor, not_not.1 fun hne => haction (.inl hne),
      fun hdash => haction (.inr hdash), target,
      index, branches, requireTarget_ok_iff.1 htarget, memberText_eq_some_iff.1 (not_not.1 hzone),
      requireCoord_ok_iff.1 hindex, hbranches, ?_⟩
    -- the first branch whose head allows the target is the one that is used up
    split at hok
    · rename_i head rest hfound
      split at hok
      · cases hok
      rename_i hpiece
      refine ⟨head, ?_, not_not.1 hpiece⟩
      rw [← find_branch, hfound]
      rfl
    · cases hok
  · rintro ⟨hactor, haction, hobligations, target, index, branches, htarget, hzone,
      hindex, hbranches,
      head, hhead, hpiece⟩
    have hallowed : ¬(e.state.action ≠ 'r' ∨ e.state.obligations = dash) :=
      not_or.2 ⟨not_not.2 haction, hobligations⟩
    have hzone' : ¬memberText target "zone" ≠ some "board".toList :=
      not_not.2 (memberText_eq_some_iff.2 hzone)
    obtain ⟨rest, hfound⟩ : ∃ rest, (branches.find? fun branch => branch.head?.any fun head =>
        head.actor = e.state.side ∧ head.targets.getLsbD index.val) = some (head :: rest) := by
      rw [← find_branch, Option.bind_eq_some_iff] at hhead
      obtain ⟨branch, hbranch, hfirst⟩ := hhead
      cases branch with
      | nil => cases hfirst
      | cons first rest =>
        obtain rfl : first = head := Option.some.inj hfirst
        exact ⟨rest, hbranch⟩
    rw [requireActor_ok_iff.2 ⟨hactor, rfl⟩]
    change ∃ e', (if e.state.action ≠ 'r' ∨ e.state.obligations = dash then _ else _) = Except.ok e'
    rw [if_neg hallowed, requireTarget_ok_iff.2 htarget]
    change ∃ e', (if memberText target "zone" ≠ some "board".toList then _ else _) = Except.ok e'
    rw [if_neg hzone', requireCoord_ok_iff.2 hindex]
    change ∃ e', (parseObligationBranches e.state.obligations >>= _) = Except.ok e'
    rw [hbranches]
    dsimp only [bind, Except.bind]
    rw [hfound]
    change ∃ e', (if e.state.board index ≠ head.owner.toUpper then _ else _) = Except.ok e'
    rw [if_neg (not_not.2 hpiece)]
    -- the reset before the removal only shortens the history
    refine afterRemoval_total ?_ ?_
    · rw [(resetRepetition_length _ _).1]
      exact h
    · exact lt_of_le_of_lt (resetRepetition_length _ _).2 hroom

/-! ## The engine of a position -/

/-- The manifest of an engine stays, and its history grows by one entry at most. -/
def Grows (e e' : Engine) : Prop :=
  e'.manifest = e.manifest ∧ e'.repetitionHistory.length ≤ e.repetitionHistory.length + 1

theorem resolveFullBoard_same (hok : e.resolveFullBoard = .ok (some e')) :
    e'.manifest = e.manifest ∧ e'.repetitionHistory = e.repetitionHistory := by
  unfold resolveFullBoard at hok
  dsimp only at hok
  split_ifs at hok
  · cases hok
  all_goals
    obtain rfl := Option.some.inj (Except.ok.inj hok)
    exact ⟨rfl, rfl⟩

theorem resolveNoLegal_same (hok : e.resolveNoLegal = .ok e') :
    e'.manifest = e.manifest ∧ e'.repetitionHistory = e.repetitionHistory := by
  unfold resolveNoLegal at hok
  split_ifs at hok
  all_goals
    obtain rfl := Except.ok.inj hok
    exact ⟨rfl, rfl⟩

theorem observe_grows {eventSeq : Option Nat} {sourceKind : String}
    (hok : e.observe eventSeq sourceKind = .ok e') : e.Grows e' := by
  unfold observe at hok
  split at hok
  · obtain ⟨-, -, hok⟩ := Except.bind_ok_iff.1 hok
    obtain rfl := Except.ok.inj hok
    unfold applyRepetitionResult
    have hlength : (e.repetitionHistory ++ [e.observationEntry eventSeq sourceKind]).length
        ≤ e.repetitionHistory.length + 1 := by
      rw [List.length_append]
      rfl
    split_ifs
    · exact ⟨rfl, hlength⟩
    · exact ⟨rfl, hlength⟩
    · exact ⟨rfl, hlength⟩
  · obtain rfl := Except.ok.inj hok
    exact ⟨rfl, Nat.le_succ _⟩

theorem deriveClaimRights_same (e : Engine) :
    e.deriveClaimRights.manifest = e.manifest
      ∧ e.deriveClaimRights.repetitionHistory = e.repetitionHistory := by
  unfold deriveClaimRights
  split
  · exact ⟨rfl, rfl⟩
  · exact ⟨rfl, rfl⟩

theorem stabilize_grows {eventSeq : Option Nat} {sourceKind : String}
    (hok : e.stabilize eventSeq sourceKind = .ok e') : e.Grows e' := by
  unfold stabilize at hok
  split at hok
  · obtain rfl := Except.ok.inj hok
    exact ⟨rfl, Nat.le_succ _⟩
  -- every resolution ends the game; only an observation adds an entry to the history
  obtain ⟨hmanifest, hhistory, -, -⟩ := syncPhase_same e
  obtain ⟨full, hfull, hok⟩ := Except.bind_ok_iff.1 hok
  rcases full with _ | resolved
  · obtain ⟨hmanifest', hhistory'⟩ := checkMaterial_same e.syncPhase
    rw [hmanifest] at hmanifest'
    rw [hhistory] at hhistory'
    dsimp only at hok
    split at hok
    · obtain rfl := Except.ok.inj hok
      exact ⟨hmanifest', hhistory'.symm ▸ Nat.le_succ _⟩
    obtain ⟨hmanifest'', hhistory'', -, -⟩ := syncPhase_same e.syncPhase.checkMaterial
    rw [hmanifest'] at hmanifest''
    rw [hhistory'] at hhistory''
    split at hok
    · obtain ⟨hsame, hlist⟩ := resolveNoLegal_same hok
      refine ⟨hsame.trans hmanifest'', ?_⟩
      rw [hlist, hhistory'']
      exact Nat.le_succ _
    · obtain ⟨observed, hobserve, hok⟩ := Except.bind_ok_iff.1 hok
      obtain rfl := Except.ok.inj hok
      obtain ⟨hsame, hlength⟩ := observe_grows hobserve
      obtain ⟨hderived, hlist⟩ := deriveClaimRights_same observed
      refine ⟨hderived.trans (hsame.trans hmanifest''), ?_⟩
      rw [hlist]
      rw [hhistory''] at hlength
      exact hlength
  · obtain rfl := Except.ok.inj hok
    unfold checkFullBoard at hfull
    split at hfull
    · cases hfull
    obtain ⟨hsame, hlist⟩ := resolveFullBoard_same hfull
    refine ⟨hsame.trans hmanifest, ?_⟩
    rw [hlist, hhistory]
    exact Nat.le_succ _

/-- A position that the projection accepts is that of its engine. -/
theorem projectionState_engine {current : Text} {s : State}
    (h : projectionState identity manifest current = .ok s) :
    ∃ engine, Engine.new identity manifest current [] [] = .ok engine ∧ engine.state = s
      ∧ s.validateShape = .ok () ∧ engine.manifest = manifest
      ∧ engine.repetitionHistory.length < MAX_REPETITION_ENTRIES := by
  unfold projectionState at h
  obtain ⟨state, hparse, h⟩ := Except.bind_ok_iff.1 h
  split at h
  · cases h
  obtain ⟨engine, hnew, h⟩ := Except.bind_ok_iff.1 h
  split at h
  · cases h
  rename_i hsame
  obtain rfl := Except.ok.inj h
  -- the engine is built over an empty history, to which at most the first position is added
  have hstart := hnew
  unfold Engine.new at hstart
  obtain ⟨-, -, hstart⟩ := Except.bind_ok_iff.1 hstart
  obtain ⟨parsed, -, hstart⟩ := Except.bind_ok_iff.1 hstart
  obtain ⟨-, -, hstart⟩ := Except.bind_ok_iff.1 hstart
  obtain ⟨-, -, hstart⟩ := Except.bind_ok_iff.1 hstart
  obtain ⟨openOffer, -, hstart⟩ := Except.bind_ok_iff.1 hstart
  obtain ⟨stable, hstable, hstart⟩ := Except.bind_ok_iff.1 hstart
  obtain ⟨first, -, hstart⟩ := Except.bind_ok_iff.1 hstart
  obtain ⟨hmanifest, hlength⟩ := stabilize_grows hstable
  refine ⟨engine, hnew, not_not.1 hsame, parse_validateShape hparse, ?_, ?_⟩
  · rw [← Except.ok.inj hstart]
    exact hmanifest
  · rw [← Except.ok.inj hstart]
    refine lt_of_le_of_lt hlength ?_
    change (0 + 1 : Nat) < MAX_REPETITION_ENTRIES
    decide

end Engine

end Sanmill.Mif
