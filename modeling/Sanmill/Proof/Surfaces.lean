import Sanmill.Proof.CachedKey
import Sanmill.Proof.Symmetry.Session

/-!
# The search follows the game

Real play and the search change a state by the same function, but real play also records keys
and adjudicates the two draw rules, stores the state in a snapshot after each action and reads
it back. `search_follows_play` says that this is all: until one of the two rules ends the game,
a search that walks the line of a game is in the state of the game, up to its history.

The relation is the image under the identity: a state presents itself, and what the relation
leaves out is what the two surfaces keep differently.
-/

namespace Sanmill

open Bits

variable {r : MillRules} {s s' p q : MillState} {c : Side} {a : Action} {snap : GameStateSnapshot}

/-! ## The identity as a transform -/

theorem nodePerm_zero : nodePerm 0 = Equiv.refl Node :=
  Equiv.ext fun n => transform_zero n

theorem transformI8_zero (value : Int) : transformI8 0 value = value := by
  unfold transformI8
  cases hvalue : boardNode? value with
  | none => rfl
  | some n =>
    change (nodePerm 0 n).toI8 = value
    rw [nodePerm_zero]
    exact ((boardNode?_eq_some_iff value n).1 hvalue).symm

theorem transformAction_zero (a : Action) : transformAction 0 a = a := by
  unfold transformAction
  rw [transformI8_zero, transformI8_zero]

theorem nodeImage_zero_iff {m m' : Bitboard} : NodeImage 0 m m' ↔ m' = m := by
  have hself : NodeImage 0 m m := by
    intro i
    refine Fin.addCases (m := 24) (n := 8) (fun j => ?_) (fun j => ?_) i
    · rw [wordPerm, widen_low, nodePerm_zero]
      rfl
    · rw [wordPerm, widen_high]
  constructor
  · intro h
    exact h.unique hself
  · intro h
    rw [h]
    exact hself

/-- A state presents itself; only the bound on the intervention targets is asked of it. -/
theorem stateImage_refl (hpair : ∀ c, countOnes (s.interventionTargets c) ≤ 2) :
    StateImage 0 s s where
  position :=
    { board := fun n => by rw [nodePerm_zero]; rfl
      color := fun _ => nodeImage_zero_iff.2 rfl
      marks := nodeImage_zero_iff.2 rfl
      inHand := rfl
      onBoard := rfl }
  captures :=
    { custodianTargets := fun _ => nodeImage_zero_iff.2 rfl
      interventionTargets := fun _ => nodeImage_zero_iff.2 rfl
      leapTargets := fun _ => nodeImage_zero_iff.2 rfl
      custodianCount := rfl
      interventionCount := rfl
      leapCount := rfl
      pair := hpair }
  sideToMove := rfl
  phase := rfl
  action := rfl
  pendingRemovals := rfl
  flags := ⟨rfl, rfl, rfl, rfl⟩
  millAvailable := fun _ => rfl
  winner := rfl
  outcomeReason := rfl
  lastMillFrom := fun c => (transformI8_zero _).symm
  lastMillTo := fun c => (transformI8_zero _).symm
  formedMillsBb := fun _ => nodeImage_zero_iff.2 rfl

namespace StateImage

/-- Two states that present a third are two presentations of one. -/
theorem trans_zero (h : StateImage 0 s p) (h' : StateImage 0 p q) : StateImage 0 s q where
  position :=
    { board := fun n => by
        have hfirst := h.position.board n
        have hsecond := h'.position.board n
        rw [nodePerm_zero] at hfirst hsecond ⊢
        exact hsecond.trans hfirst
      color := fun c => nodeImage_zero_iff.2
        ((nodeImage_zero_iff.1 (h'.position.color c)).trans
          (nodeImage_zero_iff.1 (h.position.color c)))
      marks := nodeImage_zero_iff.2
        ((nodeImage_zero_iff.1 h'.position.marks).trans (nodeImage_zero_iff.1 h.position.marks))
      inHand := h'.position.inHand.trans h.position.inHand
      onBoard := h'.position.onBoard.trans h.position.onBoard }
  captures :=
    { custodianTargets := fun c => nodeImage_zero_iff.2
        ((nodeImage_zero_iff.1 (h'.captures.custodianTargets c)).trans
          (nodeImage_zero_iff.1 (h.captures.custodianTargets c)))
      interventionTargets := fun c => nodeImage_zero_iff.2
        ((nodeImage_zero_iff.1 (h'.captures.interventionTargets c)).trans
          (nodeImage_zero_iff.1 (h.captures.interventionTargets c)))
      leapTargets := fun c => nodeImage_zero_iff.2
        ((nodeImage_zero_iff.1 (h'.captures.leapTargets c)).trans
          (nodeImage_zero_iff.1 (h.captures.leapTargets c)))
      custodianCount := h'.captures.custodianCount.trans h.captures.custodianCount
      interventionCount := h'.captures.interventionCount.trans h.captures.interventionCount
      leapCount := h'.captures.leapCount.trans h.captures.leapCount
      pair := h.captures.pair }
  sideToMove := h'.sideToMove.trans h.sideToMove
  phase := h'.phase.trans h.phase
  action := h'.action.trans h.action
  pendingRemovals := h'.pendingRemovals.trans h.pendingRemovals
  flags :=
    ⟨h'.flags.stalemateRemoving.trans h.flags.stalemateRemoving,
      h'.flags.bothStalemateRemoving.trans h.flags.bothStalemateRemoving,
      h'.flags.removeOwnPiece.trans h.flags.removeOwnPiece,
      h'.flags.boardFullRemoving.trans h.flags.boardFullRemoving⟩
  millAvailable := fun hrun =>
    (h'.millAvailable (by rw [h.phase]; exact hrun)).trans (h.millAvailable hrun)
  winner := h'.winner.trans h.winner
  outcomeReason := h'.outcomeReason.trans h.outcomeReason
  lastMillFrom := fun c => by
    rw [h'.lastMillFrom, h.lastMillFrom, transformI8_zero]
  lastMillTo := fun c => by
    rw [h'.lastMillTo, h.lastMillTo, transformI8_zero]
  formedMillsBb := fun c => nodeImage_zero_iff.2
    ((nodeImage_zero_iff.1 (h'.formedMillsBb c)).trans (nodeImage_zero_iff.1 (h.formedMillsBb c)))

theorem target_pair (h : StateImage 0 s s') (c : Side) :
    countOnes (s'.interventionTargets c) ≤ 2 := by
  rw [nodeImage_zero_iff.1 (h.captures.interventionTargets c)]
  exact h.captures.pair c

end StateImage

/-! ## One action on both surfaces -/

/-- Real play has ended the game by repetition or by the inactivity rule. -/
def RuleDrawn (s : MillState) : Prop :=
  s.phase = .gameOver ∧ s.winner = 2
    ∧ (s.outcomeReason = .drawThreefold ∨ s.outcomeReason = .drawFiftyMove
      ∨ s.outcomeReason = .drawEndgameFiftyMove)

instance (s : MillState) : Decidable (RuleDrawn s) :=
  inferInstanceAs (Decidable (s.phase = .gameOver ∧ s.winner = 2
    ∧ (s.outcomeReason = .drawThreefold ∨ s.outcomeReason = .drawFiftyMove
      ∨ s.outcomeReason = .drawEndgameFiftyMove)))

/-- What the draw rules leave of a quiet move. -/
inductive Ruled (q : MillState) : MillState → Prop
  | goesOn (history : List Key) (len : Nat) :
      Ruled q { q with keyHistory := history, keyHistoryLen := len }
  | drawn {u : MillState} (h : RuleDrawn u) (captures : u.toMillCaptures = q.toMillCaptures) :
      Ruled q u

theorem ruled_push (q : MillState) (options : MillVariantOptions) (key : Key) :
    Ruled q (pushKeyAndCheckThreefoldWithKey q options true key) := by
  obtain ⟨history, len, heq | heq⟩ := pushKeyAndCheckThreefoldWithKey_cases q options true key
  · rw [heq]
    exact .goesOn history len
  · rw [heq]
    exact .drawn ⟨rfl, rfl, Or.inl rfl⟩ rfl

theorem Ruled.nMove (h : Ruled q s) (options : MillVariantOptions) :
    Ruled q (maybeDrawByNMoveRule s options true) := by
  have hcaptures : s.toMillCaptures = q.toMillCaptures := by
    cases h with
    | goesOn history len => rfl
    | drawn h captures => exact captures
  unfold maybeDrawByNMoveRule
  rw [if_neg (by decide)]
  split
  · exact h
  · split
    · refine .drawn ⟨rfl, rfl, Or.inr ?_⟩ hcaptures
      change (if isNMoveEndgame s options then MillOutcomeReason.drawEndgameFiftyMove
        else .drawFiftyMove) = .drawFiftyMove ∨ _ = MillOutcomeReason.drawEndgameFiftyMove
      split
      · exact Or.inr rfl
      · exact Or.inl rfl
    · exact h

theorem adjudicateQuiet_ruled (q : MillState) (key : Option Key) :
    Ruled (r.adjudicateQuiet q none false) (r.adjudicateQuiet q key true) := by
  have hruled : ∃ u, Ruled q u ∧ r.adjudicateQuiet q key true
      = (syncPhaseWithActiveHand u).syncActionState := by
    unfold MillRules.adjudicateQuiet
    refine ⟨_, Ruled.nMove ?_ r.options, rfl⟩
    simp only [if_true]
    cases key with
    | none => exact ruled_push q r.options _
    | some key => exact ruled_push q r.options key
  obtain ⟨u, hu, heq⟩ := hruled
  rw [heq]
  cases hu with
  | goesOn history len => exact .goesOn history len
  | drawn h captures =>
    refine .drawn ⟨?_, h.2⟩ captures
    change (if u.phase ≠ .placing ∧ u.phase ≠ .moving then u.phase else _) = MillPhase.gameOver
    rw [if_pos (by rw [h.1]; decide), h.1]

theorem applyMove_ruled (s : MillState) (source target : Node) (ctx : MillRules.KeyContext)
    (a : Action) :
    Ruled (r.applyMove s source target ctx a false).1
      (r.applyMove s source target ctx a true).1 := by
  have hself : ∀ u : MillState, Ruled u u := fun u => .goesOn u.keyHistory u.keyHistoryLen
  unfold MillRules.applyMove
  simp only
  generalize (if (r.options.leapCapture.enabled && r.options.leapCapture.inMovingPhase) = true then
    detectLeapTargets _ r.options source target else 0) = leap
  generalize (if (r.options.custodianCapture.enabled
    && r.options.custodianCapture.inMovingPhase) = true then
    detectCustodianTargets _ r.options target else 0) = custodian
  generalize (if (r.options.interventionCapture.enabled
    && r.options.interventionCapture.inMovingPhase) = true then
    detectInterventionTargets _ r.options target else 0) = intervention
  by_cases hleap : leap ≠ 0
  · rw [if_pos hleap, if_pos hleap]
    exact hself _
  rw [if_neg hleap, if_neg hleap]
  generalize usableMillBits _ r.options _ = bits
  by_cases hbits : bits ≠ 0
  · rw [if_pos hbits, if_pos hbits]
    exact hself _
  rw [if_neg hbits, if_neg hbits]
  by_cases hcapture : custodian ≠ 0 ∨ intervention ≠ 0
  · rw [if_pos hcapture, if_pos hcapture]
    exact hself _
  · rw [if_neg hcapture, if_neg hcapture]
    exact adjudicateQuiet_ruled _ _

/-- The branch of an action differs between the surfaces by the draw rules only. -/
theorem applyBranch_ruled (hstep : LegalStep r.options s c a) (ctx : MillRules.KeyContext) :
    Ruled (r.applyBranch s ctx a false).1 (r.applyBranch s ctx a true).1 := by
  have hself : ∀ u : MillState, Ruled u u := fun u => .goesOn u.keyHistory u.keyHistoryLen
  cases hstep with
  | place n =>
    rw [applyBranch_place, applyBranch_place]
    exact hself _
  | move source target =>
    rw [applyBranch_move, applyBranch_move]
    exact applyMove_ruled s source target ctx _
  | remove n =>
    rw [applyBranch_remove, applyBranch_remove]
    exact hself _

/-- A finished game has no stalemate. -/
theorem maybeHandleStalemate_over (hover : s.phase = .gameOver) :
    (maybeHandleStalemate s r.options).1 = s := by
  have hnone : isStalemated s r.options = false := by
    unfold isStalemated
    simp [hover]
  unfold maybeHandleStalemate
  rw [hnone]
  rfl

/-- The state after the action on one surface, and on the other. -/
inductive Follows (searched played : MillState) : Prop
  | goesOn (h : StateImage 0 searched played) : Follows searched played
  | drawn (h : RuleDrawn played) (pair : ∀ c, countOnes (played.interventionTargets c) ≤ 2) :
      Follows searched played

theorem applyGeneral_follows (hself : StateImage 0 s s) (h : StateInv r.options s)
    (hturn : TurnInv s c) (hstep : LegalStep r.options s c a) :
    Follows (r.applyGeneral s a false) (r.applyGeneral s a true) := by
  have hclock : SameClock r.options false s s := fun hfalse => absurd hfalse Bool.false_ne_true
  have hbranch := hself.applyBranch h h hturn hturn hstep hclock (.capture r s a)
    (.capture r s a)
  rw [transformAction_zero] at hbranch
  obtain ⟨key, heq⟩ := applyGeneral_eq r s a false
  obtain ⟨key', heq'⟩ := applyGeneral_eq r s a true
  rw [heq, heq']
  have hruled := applyBranch_ruled (r := r) hstep (.capture r s a)
  generalize (r.applyBranch s (.capture r s a) a true).1 = played at hruled ⊢
  cases hruled with
  | goesOn history len =>
    refine .goesOn ?_
    have hsame : StateImage 0 (r.applyBranch s (.capture r s a) a false).1
        { (r.applyBranch s (.capture r s a) a false).1 with
          keyHistory := history, keyHistoryLen := len } := { hbranch with }
    exact hsame.maybeHandleStalemate.withHistory _ _ _ _
  | drawn hdrawn captures =>
    rw [maybeHandleStalemate_over hdrawn.1]
    refine .drawn hdrawn fun c => ?_
    change countOnes (played.toMillCaptures.interventionTargets c) ≤ 2
    rw [captures]
    exact hbranch.captures.pair c

/-- **One action**: real play is where the search is, or a draw rule has ended the game. -/
theorem applyToStateUnchecked_follows (hself : StateImage 0 s s) (h : StateInv r.options s)
    (ha : LegalAction s r.options a) :
    Follows (r.applySearchToState s a) (r.applyToStateUnchecked s a true) := by
  obtain ⟨c, hturn, hstep⟩ := h.legalStep ha
  cases applyGeneral_follows hself h hturn hstep with
  | goesOn himage => exact .goesOn (himage.unchecked h h hturn hturn hstep hstep)
  | drawn hdrawn pair =>
    rcases applyToStateUnchecked_cases r h hturn hstep true with ⟨⟨key, heq⟩, -⟩ | ⟨hfalse, -⟩
    · rw [heq]
      exact .drawn hdrawn pair
    · cases hfalse

/-! ## Snapshots -/

/-- **One action of real play**, from snapshot to snapshot. -/
theorem applyWithHistory_follows (hself : Presents r false 0 s s)
    (hsnap : MillState.decodeWithOptions snap r.options = s) (ha : LegalAction s r.options a)
    (history : List GameStateSnapshot) :
    Follows (r.applySearchToState s a)
      (MillState.decodeWithOptions (r.applyWithHistory snap a history) r.options) := by
  obtain ⟨keys, len, heq⟩ := applyWithHistory_legal hself.source snap hsnap ha history
  have hhistory := hself.withHistory s.keyHistory keys s.keyHistoryLen len
  have hplayed := applyToStateUnchecked_inv r hhistory.target ha true
  rw [heq, decode_encode r.options hplayed.encodable]
  have hloaded := reloaded_position hplayed.position
  -- the search may start from the state with the rebuilt history as well
  have hsearched := (hhistory.apply ha).image
  rw [transformAction_zero] at hsearched
  cases applyToStateUnchecked_follows
    (stateImage_refl hhistory.image.target_pair) hhistory.target ha with
  | goesOn himage =>
    refine .goesOn (hsearched.trans_zero ?_)
    exact
      { himage with
        position := by
          rw [hloaded]
          exact himage.position
        flags := { himage.flags with } }
  | drawn hdrawn pair => exact .drawn hdrawn pair

/-- A reachable position presents itself. -/
theorem Reachable.presents_self (h : Reachable r snap) :
    Presents r false 0 (MillState.decodeWithOptions snap r.options)
      (MillState.decodeWithOptions snap r.options) := by
  have hpresents : ∀ {snap : GameStateSnapshot}, Reachable r snap →
      (∀ c, countOnes ((MillState.decodeWithOptions snap r.options).interventionTargets c) ≤ 2) →
      Presents r false 0 (MillState.decodeWithOptions snap r.options)
        (MillState.decodeWithOptions snap r.options) := fun hreach hpair =>
    { image := stateImage_refl hpair
      source := hreach.inv
      target := hreach.inv
      clock := fun hfalse => absurd hfalse Bool.false_ne_true }
  refine hpresents h ?_
  induction h with
  | initial =>
    change ∀ c, countOnes ((MillState.decodeWithOptions ((initialMillState r).encode r.options)
      r.options).interventionTargets c) ≤ 2
    rw [decode_encode r.options (initialMillState_inv r).encodable]
    exact fun _ => countOnes_zero_le
  | apply history h ha ih =>
    rw [mem_legalActions_iff] at ha
    cases applyWithHistory_follows (hpresents h ih) rfl ha history with
    | goesOn himage => exact himage.target_pair
    | drawn hdrawn pair => exact pair

/-! ## Games -/

/-- The search is where the game is. -/
structure InStep (r : MillRules) (s : MillState) (played : Played) : Prop where
  presents : Presents r false 0 s (MillState.decodeWithOptions played.state r.options)
  reachable : Reachable r played.state
  ply : (MillState.decodeWithOptions played.state r.options).plySinceCapture = s.plySinceCapture

/-- What a move of the game is to be for the search to follow it. -/
def PlaysOn (r : MillRules) (played : Played) (a : Action) : Prop :=
  r.gameRules.isLegal played.state a = true
    ∧ ¬RuleDrawn (MillState.decodeWithOptions (r.gameRules.advance played a).state r.options)

instance (r : MillRules) (played : Played) (a : Action) : Decidable (PlaysOn r played a) :=
  inferInstanceAs (Decidable (_ ∧ ¬_))

/-- The inactivity counter of the game, as the search counts it. -/
theorem applyWithHistory_plySinceCapture (h : Reachable r snap)
    (ha : LegalAction (MillState.decodeWithOptions snap r.options) r.options a)
    (history : List GameStateSnapshot) :
    (MillState.decodeWithOptions (r.applyWithHistory snap a history) r.options).plySinceCapture
      = if a.kindTag = MillActionKind.move.toI16 then
          (bumpPlySinceCapture (MillState.decodeWithOptions snap r.options)
            r.options).plySinceCapture
        else 0 := by
  obtain ⟨keys, len, heq⟩ := applyWithHistory_legal h.inv snap rfl ha history
  have hinv := h.inv.withHistory keys len
  have hplayed := applyToStateUnchecked_inv r hinv ha true
  have hbound := applyToStateUnchecked_ply hinv ha h.ply true
  obtain ⟨c, hturn, hstep⟩ := hinv.legalStep ha
  rw [heq, decode_encode r.options hplayed.encodable]
  change (r.applyToStateUnchecked _ a true).plySinceCapture % 65536 = _
  rw [Nat.mod_eq_of_lt (by omega), applyToStateUnchecked_plySinceCapture hinv hturn hstep true]
  rfl

/-- **A move of the game that plays on** keeps the search in step. -/
theorem InStep.step {played : Played} (h : InStep r s played) (ha : PlaysOn r played a) :
    LegalAction s r.options a
      ∧ InStep r (r.applySearchToState s a) (r.gameRules.advance played a) := by
  obtain ⟨hlegal, hundrawn⟩ := ha
  have hmem : a ∈ r.legalActions played.state := by
    unfold GameRules.isLegal at hlegal
    rwa [List.contains_iff_mem] at hlegal
  have hplayed := (mem_legalActions_iff r played.state a).1 hmem
  have hsearch : LegalAction s r.options a := by
    have hiff := h.presents.legal_iff a
    rw [transformAction_zero] at hiff
    exact hiff.1 hplayed
  have hnext := h.presents.apply hsearch
  rw [transformAction_zero] at hnext
  have hreach : Reachable r (r.gameRules.advance played a).state := h.reachable.apply _ hmem
  refine ⟨hsearch, ?_, hreach, ?_⟩
  · cases applyWithHistory_follows h.reachable.presents_self rfl hplayed played.history with
    | goesOn himage =>
      exact
        { image := hnext.image.trans_zero himage
          source := hnext.source
          target := hreach.inv
          clock := fun hfalse => absurd hfalse Bool.false_ne_true }
    | drawn hdrawn pair => exact absurd hdrawn hundrawn
  · obtain ⟨c, hturn, hstep⟩ := h.presents.source.legalStep hsearch
    refine (applyWithHistory_plySinceCapture h.reachable hplayed played.history).trans ?_
    have hsearched := applyToStateUnchecked_plySinceCapture h.presents.source hturn hstep false
    unfold MillRules.applySearchToState
    rw [hsearched]
    unfold bumpPlySinceCapture
    rw [h.presents.image.isMoveCountingPhase_eq, h.ply]

theorem Reachable.inStep (h : Reachable r snap) (history : List GameStateSnapshot) :
    InStep r (MillState.decodeWithOptions snap r.options) ⟨history, snap⟩ :=
  ⟨h.presents_self, h, rfl⟩

/-- **The search follows the game.** Along any line of real play that neither draw rule ends, a
search from the first position that makes the same moves makes legal moves, and ends in the
position of the game: the same board, obligations and inactivity count, the same legal moves,
and the same value at every depth. Only what each surface keeps for itself may differ. -/
theorem search_follows_play (h : Reachable r snap) (history : List GameStateSnapshot)
    {line : List Action} (hline : Run.Every r.gameRules.advance (PlaysOn r) ⟨history, snap⟩ line) :
    let searched := Run.last r.applySearchToState (MillState.decodeWithOptions snap r.options) line
    let final := (Run.last r.gameRules.advance ⟨history, snap⟩ line).state
    let played := MillState.decodeWithOptions final r.options
    SearchLine r (MillState.decodeWithOptions snap r.options) line
      ∧ StateImage 0 searched played ∧ played.plySinceCapture = searched.plySinceCapture
      ∧ (∀ a, a ∈ r.legalActions final ↔ LegalAction searched r.options a)
      ∧ ∀ weights reset ctx n stack,
          Searcher.minimaxPlies (MillGame.game weights reset) ctx n ⟨r, played, []⟩
            = Searcher.minimaxPlies (MillGame.game weights reset) ctx n ⟨r, searched, stack⟩ := by
  intro searched final played
  obtain ⟨hsearch, hlast⟩ : SearchLine r (MillState.decodeWithOptions snap r.options) (line.map id)
      ∧ InStep r (Run.last r.applySearchToState (MillState.decodeWithOptions snap r.options)
          (line.map id)) (Run.last r.gameRules.advance ⟨history, snap⟩ line) :=
    hline.followed (R := fun p s => InStep r s p) (fun p s a hin ha => hin.step ha)
      (h.inStep history)
  rw [List.map_id] at hsearch hlast
  refine ⟨hsearch, hlast.presents.image, hlast.ply, fun a => ?_,
    fun _ _ _ n _ => minimaxPlies_image n rfl rfl hlast.presents⟩
  rw [mem_legalActions_iff]
  have hiff := hlast.presents.legal_iff a
  rwa [transformAction_zero] at hiff

/-- The theorem along two flights, a mill and the removal that decides the game. -/
theorem search_follows_play_lastFlights :
    SearchLine laskerRules (MillState.decodeWithOptions threeLeft laskerRules.options) lastFlights
      ∧ StateImage 0
          (Run.last laskerRules.applySearchToState
            (MillState.decodeWithOptions threeLeft laskerRules.options) lastFlights)
          (MillState.decodeWithOptions
            (Run.last laskerRules.gameRules.advance ⟨[], threeLeft⟩ lastFlights).state
            laskerRules.options) := by
  have hline : Run.Every laskerRules.gameRules.advance (PlaysOn laskerRules) ⟨[], threeLeft⟩
      lastFlights := by decide +kernel
  have hfollow := search_follows_play threeLeft_reachable [] hline
  exact ⟨hfollow.1, hfollow.2.1⟩

end Sanmill
