import Sanmill.Proof.Kernel
import Sanmill.Proof.Reach
import Sanmill.Session.RulesPort

/-!
# Every game ends

With an inactivity limit in force, `playRank` bounds how long a game can go on. A placement
and a removal lower `weight`, which counts a piece in hand twice and a piece on the board
once; a move leaves it alone and runs the inactivity counter up. What makes the two fit is
`Clock`: whenever a side may move freely the counter is still below the limit. A quiet move
that reaches the limit ends the game, and a move that earns a removal is followed by one.
-/

namespace Sanmill

open Bits

variable {r : MillRules} {s t p : MillState} {c : Side} {a : Action}

/-! ## The measure -/

/-- A placement takes two off and puts one back. -/
def MillPosition.weight (position : MillPosition) : Nat :=
  2 * (position.piecesInHand 0 + position.piecesInHand 1)
    + (position.piecesOnBoard 0 + position.piecesOnBoard 1)

/-- What the side to move still owes. -/
def MillState.owed (state : MillState) : Nat := state.pendingRemovals (sideIndex state.sideToMove)

/-- The moves that are left before the inactivity rule ends the game; a side that owes a
removal has no move at all. -/
def MillState.patience (state : MillState) (limit : Nat) : Nat :=
  if state.owed = 0 then limit - state.plySinceCapture else 0

def playRank (limit : Nat) (state : MillState) : Nat :=
  state.weight * (limit + 1) + state.patience limit

/-- A side that may move freely has not used up the limit. -/
def Clock (limit : Nat) (state : MillState) : Prop :=
  state.phase ≠ .gameOver → state.owed = 0 → state.plySinceCapture < limit

theorem Side.sum_eq (c : Side) (f : Side → Nat) : f 0 + f 1 = f c + f c.opponent := by
  rcases Side.eq_or_eq_opponent 0 c with rfl | rfl
  · rfl
  · exact Nat.add_comm _ _

theorem weight_eq (position : MillPosition) (c : Side) :
    position.weight
      = 2 * (position.piecesInHand c + position.piecesInHand c.opponent)
        + (position.piecesOnBoard c + position.piecesOnBoard c.opponent) := by
  unfold MillPosition.weight
  rw [Side.sum_eq c position.piecesInHand, Side.sum_eq c position.piecesOnBoard]

theorem patience_le (state : MillState) (limit : Nat) : state.patience limit ≤ limit := by
  unfold MillState.patience
  split <;> omega

/-- Less weight is a lower rank, whatever the counter says. -/
theorem playRank_lt_of_weight {limit : Nat} (h : t.weight < s.weight) :
    playRank limit t < playRank limit s := by
  have hpatience := patience_le t limit
  have hmul : (t.weight + 1) * (limit + 1) ≤ s.weight * (limit + 1) := Nat.mul_le_mul_right _ h
  rw [Nat.add_mul, Nat.one_mul] at hmul
  unfold playRank
  omega

/-- Less patience is a lower rank, unless weight was put on. -/
theorem playRank_lt_of_patience {limit : Nat} (hweight : t.weight ≤ s.weight)
    (h : t.patience limit < s.patience limit) : playRank limit t < playRank limit s := by
  have hmul : t.weight * (limit + 1) ≤ s.weight * (limit + 1) := Nat.mul_le_mul_right _ hweight
  unfold playRank
  omega

/-! ## What the board writes weigh -/

/-- The turn's control operations may empty the hands and touch nothing else that counts. -/
theorem Keeps.weight {options : MillVariantOptions} (h : Keeps options p t) :
    t.weight ≤ p.weight := by
  have h0 := h.hands 0
  have h1 := h.hands 1
  unfold MillPosition.weight
  rw [h.piecesOnBoard]
  omega

theorem placePiece_weight {n : Node} (hhand : 0 < s.piecesInHand c) :
    (r.placePiece s n c).weight < s.weight := by
  have hhands : (r.placePiece s n c).piecesInHand
      = setAt s.piecesInHand c (s.piecesInHand c - 1) := rfl
  have hboard : (r.placePiece s n c).piecesOnBoard
      = setAt s.piecesOnBoard c (s.piecesOnBoard c + 1) := rfl
  have hne := Side.opponent_ne c
  rw [weight_eq _ c, weight_eq s.toMillPosition c, hhands, hboard, setAt_self, setAt_self,
    setAt_of_ne hne, setAt_of_ne hne]
  omega

theorem removed_weight {n : Node} {targetColor : Side} {mark : Bool} {k : MillCaptures}
    {owed : Nat} {flags : MillStateFlags} (hboard : 0 < s.piecesOnBoard targetColor) :
    (removed r s n c targetColor mark k owed flags).weight < s.weight := by
  have hcounts : (removed r s n c targetColor mark k owed flags).piecesOnBoard
      = setAt s.piecesOnBoard targetColor (s.piecesOnBoard targetColor - 1) := by
    cases mark <;> rfl
  have hhands : (removed r s n c targetColor mark k owed flags).piecesInHand
      = s.piecesInHand := by
    cases mark <;> rfl
  rw [weight_eq _ targetColor, weight_eq s.toMillPosition targetColor, hcounts, hhands,
    setAt_self, setAt_of_ne (Side.opponent_ne targetColor)]
  omega

/-- A side with a live piece has one on the board. -/
theorem PositionInv.count_pos {options : MillVariantOptions} {position : MillPosition}
    (h : PositionInv options position) {n : Node}
    (hlive : testBit (position.byColorBb c) n = true) : 0 < position.piecesOnBoard c := by
  rw [h.counts c]
  exact (countOnes_pos_iff _).2 ((ne_zero_iff_testBit _).2 ⟨n, hlive⟩)

/-! ## The draw rule -/

theorem nMoveThreshold_le (s : MillState) (options : MillVariantOptions) :
    nMoveThreshold s options ≤ options.nMoveRule := by
  unfold nMoveThreshold isNMoveEndgame
  split
  · rename_i hendgame
    simp only [Bool.and_eq_true, decide_eq_true_eq] at hendgame
    omega
  · exact Nat.le_refl _

theorem nMoveThreshold_pos {options : MillVariantOptions} (hlimit : 0 < options.nMoveRule)
    (s : MillState) : 0 < nMoveThreshold s options := by
  unfold nMoveThreshold isNMoveEndgame
  split
  · rename_i hendgame
    simp only [Bool.and_eq_true, decide_eq_true_eq] at hendgame
    omega
  · exact hlimit

/-- In a phase that counts moves, a game that goes on is below the limit. -/
theorem maybeDrawByNMoveRule_clock {options : MillVariantOptions}
    (hlimit : 0 < options.nMoveRule) (hcounting : isMoveCountingPhase s options = true) :
    (maybeDrawByNMoveRule s options true).phase = .gameOver
      ∨ (maybeDrawByNMoveRule s options true).plySinceCapture < options.nMoveRule := by
  have hpos := nMoveThreshold_pos hlimit s
  have hle := nMoveThreshold_le s options
  unfold maybeDrawByNMoveRule
  rw [hcounting]
  by_cases hdue : nMoveThreshold s options ≤ s.plySinceCapture
  · exact Or.inl (by simp only [Bool.not_true, Bool.false_eq_true, if_false, hpos, hdue,
      and_self, if_true]; rfl)
  · refine Or.inr ?_
    simp only [Bool.not_true, Bool.false_eq_true, if_false, ge_iff_le, hdue, and_false]
    omega

theorem maybeDrawByNMoveRule_over {options : MillVariantOptions} (hover : s.phase = .gameOver) :
    (maybeDrawByNMoveRule s options true).phase = .gameOver := by
  rcases maybeDrawByNMoveRule_cases s options true with heq | ⟨reason, heq⟩
  · rw [heq, hover]
  · rw [heq]
    rfl

/-- **A quiet move of real play** ends the game or leaves the counter below the limit. -/
theorem adjudicateQuiet_clock (hlimit : 0 < r.options.nMoveRule)
    (hcounting : isMoveCountingPhase s r.options = true) (key : Option Key) :
    (r.adjudicateQuiet s key true).phase = .gameOver
      ∨ (r.adjudicateQuiet s key true).plySinceCapture < r.options.nMoveRule := by
  -- the phase sync that follows the draw rules leaves a finished game finished
  have hsync : ∀ u : MillState,
      u.phase = .gameOver ∨ u.plySinceCapture < r.options.nMoveRule →
      (syncPhaseWithActiveHand u).syncActionState.phase = .gameOver
        ∨ (syncPhaseWithActiveHand u).syncActionState.plySinceCapture < r.options.nMoveRule := by
    intro u hu
    rcases hu with hover | hply
    · refine Or.inl ?_
      change (syncPhaseWithActiveHand u).phase = .gameOver
      unfold syncPhaseWithActiveHand
      simp [hover]
    · exact Or.inr hply
  unfold MillRules.adjudicateQuiet
  simp only [if_true]
  refine hsync _ ?_
  have hpushed : ∀ u, Adjudicated s u →
      (maybeDrawByNMoveRule u r.options true).phase = .gameOver
        ∨ (maybeDrawByNMoveRule u r.options true).plySinceCapture < r.options.nMoveRule := by
    intro u hu
    cases hu with
    | goesOn history len => exact maybeDrawByNMoveRule_clock hlimit hcounting
    | drawn history len reason => exact Or.inl (maybeDrawByNMoveRule_over rfl)
  cases key with
  | none => exact hpushed _ (adjudicated_push s r.options true _)
  | some key => exact hpushed _ (adjudicated_push s r.options true key)

/-! ## Moves -/

theorem owed_armRemovals (hactive : s.sideToMove = c.toI8) (count : Nat) (millAvailable : Bool) :
    (MillRules.armRemovals s c count millAvailable).owed = count := by
  change setAt s.pendingRemovals c count (sideIndex s.sideToMove) = count
  rw [hactive, Side.sideIndex_toI8, setAt_self]

/-- Published captures are owed in full. -/
theorem captureTotal_pos {custodian intervention : Bitboard} (hactive : s.sideToMove = c.toI8)
    (hsome : custodian ≠ 0 ∨ intervention ≠ 0) :
    0 < (s.activateCaptureState custodian intervention 0).captureTotal := by
  rw [activateCaptureState_eq hactive]
  simp only [MillState.captureTotal, hactive, Side.toI8_inRange_lt, not_true_eq_false, if_false,
    Side.sideIndex_toI8, publishedCaptures, setAt_self, bitCount_zero, saturatingAddU8]
  rcases hsome with hcustodian | hintervention
  · rw [if_neg hcustodian]
    omega
  · have hcount := bitCount_pos hintervention
    omega

/-- **After a move of real play** the clock is right, with whatever the move has earned. -/
theorem applyMove_clock (hlimit : 0 < r.options.nMoveRule) (h : TurnInv s c)
    (hcounting : isMoveCountingPhase s r.options = true) (source target : Node)
    (ctx : MillRules.KeyContext) (action : Action) :
    Clock r.options.nMoveRule (r.applyMove s source target ctx action true).1 := by
  have hactive : (r.movePiece s source target c).sideToMove = c.toI8 := h.active
  unfold MillRules.applyMove
  simp only [h.active, Side.sideIndex_toI8]
  generalize (if (r.options.custodianCapture.enabled
      && r.options.custodianCapture.inMovingPhase) = true then
    detectCustodianTargets (r.movePiece s source target c) r.options target else 0) = custodian
  generalize (if (r.options.interventionCapture.enabled
      && r.options.interventionCapture.inMovingPhase) = true then
    detectInterventionTargets (r.movePiece s source target c) r.options target else 0)
    = intervention
  generalize (if (r.options.leapCapture.enabled && r.options.leapCapture.inMovingPhase) = true then
    detectLeapTargets (r.movePiece s source target c) r.options source target else 0) = leap
  generalize usableMillBits (r.movePiece s source target c) r.options _ = usableBits
  split
  · -- a leap owes one removal
    intro _ hzero
    have howed := owed_armRemovals
      (s := (r.movePiece s source target c).activateCaptureState 0 0 leap) hactive 1 false
    exact absurd (howed.symm.trans hzero) Nat.one_ne_zero
  · split
    · -- a mill owes as many as the rules count
      intro _ hzero
      have hcount := (removalCountForBits_bounds usableBits r.options).1
      have howed := owed_armRemovals hactive (removalCountForBits usableBits r.options) true
      have hnone := howed.symm.trans hzero
      omega
    · split
      · -- a capture owes what it has published
        rename_i hsome
        intro _ hzero
        have hcount := captureTotal_pos hactive hsome
        have howed := owed_armRemovals
          (s := (r.movePiece s source target c).activateCaptureState custodian intervention 0)
          hactive
          ((r.movePiece s source target c).activateCaptureState custodian intervention
            0).captureTotal
          false
        have hnone := howed.symm.trans hzero
        omega
      · -- a quiet move is adjudicated
        intro hrun _
        rcases adjudicateQuiet_clock (s := MillRules.moveQuiet (r.movePiece s source target c) c)
          hlimit hcounting _ with hover | hply
        · exact absurd hover hrun
        · exact hply

/-! ## One step -/

/-- The stalemate rule and the key update leave the clock right. -/
theorem Clock.general {limit : Nat} {adjudicate : Bool}
    (h : Clock limit (r.applyBranch s (.capture r s a) a adjudicate).1)
    (hturn : SomeTurn (r.applyBranch s (.capture r s a) a adjudicate).1) :
    Clock limit (r.applyGeneral s a adjudicate) := by
  obtain ⟨key, heq⟩ := applyGeneral_eq r s a adjudicate
  rw [heq]
  rcases maybeHandleStalemate_cases (r.applyBranch s (.capture r s a) a adjudicate).1 r.options with
    ⟨-, hsame⟩ | ⟨hstale, hfired⟩
  · rw [hsame]
    exact h
  · -- only a side that owes nothing is stalemated, so the counter was below the limit before
    have hkeeps := maybeHandleStalemate_keeps
      (r.applyBranch s (.capture r s a) a adjudicate).1 r.options
    have hrun : (r.applyBranch s (.capture r s a) a adjudicate).1.phase ≠ .gameOver := by
      intro hover
      unfold isStalemated at hstale
      simp [hover] at hstale
    obtain ⟨e, he⟩ := hturn hrun
    obtain ⟨-, hnone, -⟩ := isStalemated_spec he.active hstale
    intro _ _
    change (maybeHandleStalemate _ r.options).1.plySinceCapture < limit
    rw [hkeeps.plySinceCapture]
    refine h hrun ?_
    unfold MillState.owed
    rw [he.active, Side.sideIndex_toI8]
    exact hnone

/-- A step has run the clock down or put weight off. -/
structure Advanced (limit : Nat) (s t : MillState) : Prop where
  clock : Clock limit t
  ply : t.plySinceCapture < 65536
  rank : t.phase ≠ .gameOver → playRank limit t < playRank limit s

theorem Advanced.of_weight {limit : Nat} (hlimit : 0 < limit) (hweight : t.weight < s.weight)
    (hply : t.plySinceCapture = 0) : Advanced limit s t where
  clock _ _ := by omega
  ply := by omega
  rank _ := playRank_lt_of_weight hweight

/-- A move that is one more towards the limit. -/
theorem Advanced.of_move {limit : Nat} (hbound : limit ≤ 200) (hclock : Clock limit t)
    (hbefore : s.plySinceCapture < limit) (hfree : s.owed = 0) (hweight : t.weight ≤ s.weight)
    (hply : t.plySinceCapture = min 65535 (s.plySinceCapture + 1)) : Advanced limit s t where
  clock := hclock
  ply := by omega
  rank hrun := by
    refine playRank_lt_of_patience hweight ?_
    unfold MillState.patience
    rw [if_pos hfree]
    split
    · rename_i howed
      have hafter := hclock hrun howed
      omega
    · omega

theorem counting_of_move {allowFly : Bool}
    (hphase : (s.phase = .moving ∧ allowFly = true)
      ∨ (s.phase = .placing ∧ r.options.mayMoveInPlacingPhase = true ∧ allowFly = false)) :
    isMoveCountingPhase s r.options = true := by
  unfold isMoveCountingPhase
  rcases hphase with ⟨hmoving, -⟩ | ⟨hplacing, hmay, -⟩
  · simp [hmoving]
  · simp [hplacing, hmay]

/-- What the board writes of a legal action have done to the measure. -/
inductive Spent (r : MillRules) (s : MillState) (c : Side) : Action → MillState → Prop
  | weight {a : Action} {p : MillState} (hweight : p.weight < s.weight)
      (hply : p.plySinceCapture = 0) : Spent r s c a p
  | move {p : MillState} (source target : Node) (hnone : s.pendingRemovals c = 0)
      (hcounting : isMoveCountingPhase s r.options = true) (hweight : p.weight = s.weight)
      (hply : p.plySinceCapture = min 65535 (s.plySinceCapture + 1)) :
      Spent r s c (moveAction source target) p

theorem Written.spent {adjudicate : Bool} (hpos : PositionInv r.options s.toMillPosition)
    (hstep : LegalStep r.options s c a) (h : Written r s c adjudicate a p) : Spent r s c a p := by
  cases h with
  | place n =>
    generalize ha : placeAction n = b at hstep
    cases hstep with
    | place m hnone hphase hhand hempty => exact .weight (placePiece_weight hhand) rfl
    | move => simp [placeAction, moveAction, MillActionKind.toI16] at ha
    | remove => simp [placeAction, removeAction, MillActionKind.toI16] at ha
  | move source target history hsearch =>
    generalize ha : moveAction source target = b at hstep
    cases hstep with
    | move source' target' allowFly hnone hphase hlive hempty htarget =>
      have hcounting := counting_of_move hphase
      rw [← ha]
      refine .move source target hnone hcounting rfl ?_
      change (bumpPlySinceCapture _ r.options).plySinceCapture = _
      unfold bumpPlySinceCapture
      exact if_pos hcounting
    | place => simp [placeAction, moveAction, MillActionKind.toI16] at ha
    | remove => simp [removeAction, moveAction, MillActionKind.toI16] at ha
  | remove n mark k owed flags hmark =>
    generalize ha : removeAction n = b at hstep
    cases hstep with
    | remove m howed hlive htarget => exact .weight (removed_weight (hpos.count_pos hlive)) rfl
    | place => simp [placeAction, removeAction, MillActionKind.toI16] at ha
    | move => simp [moveAction, removeAction, MillActionKind.toI16] at ha

theorem applyGeneral_advanced (hlimit : 0 < r.options.nMoveRule) (h : StateInv r.options s)
    (hclock : Clock r.options.nMoveRule s) (hturn : TurnInv s c)
    (hstep : LegalStep r.options s c a) :
    Advanced r.options.nMoveRule s (r.applyGeneral s a true) := by
  obtain ⟨p, hwritten, hdone⟩ := applyGeneral_done r h hturn hstep true
  have hweight := hdone.keeps.weight
  have hply := hdone.keeps.plySinceCapture
  cases hwritten.spent h.position hstep with
  | weight hspent hzero =>
    exact .of_weight hlimit (lt_of_le_of_lt hweight hspent) (hply.trans hzero)
  | move source target hnone hcounting hsame hbump =>
    have hfree : s.owed = 0 := by
      unfold MillState.owed
      rw [hturn.active, Side.sideIndex_toI8]
      exact hnone
    obtain ⟨q, -, hq⟩ := applyBranch_done r h hturn hstep
      (.capture r s (moveAction source target)) true
    have hbranch : Clock r.options.nMoveRule
        (r.applyGeneral s (moveAction source target) true) := by
      refine Clock.general ?_ hq.turn
      rw [applyBranch_move]
      exact applyMove_clock hlimit hturn hcounting source target _ _
    exact .of_move (r.valid.nMoveRule hlimit).2 hbranch (hclock hturn.not_over hfree) hfree
      (hweight.trans_eq hsame) (hply.trans hbump)

theorem Advanced.of_sameButKey {limit : Nat} {u : MillState} (hsame : SameButKey t u)
    (h : Advanced limit s u) : Advanced limit s t := by
  obtain ⟨key, rfl⟩ := hsame
  exact { clock := h.clock, ply := h.ply, rank := h.rank }

/-- **Every legal step of real play advances the game.** -/
theorem applyToStateUnchecked_advanced (hlimit : 0 < r.options.nMoveRule)
    (h : StateInv r.options s) (hclock : Clock r.options.nMoveRule s)
    (ha : LegalAction s r.options a) :
    Advanced r.options.nMoveRule s (r.applyToStateUnchecked s a true) := by
  obtain ⟨c, hturn, hstep⟩ := h.legalStep ha
  have hgeneral := applyGeneral_advanced hlimit h hclock hturn hstep
  rcases applyToStateUnchecked_cases r h hturn hstep true with ⟨hsame, -⟩ | ⟨hsearch, -⟩
  · exact hgeneral.of_sameButKey hsame
  · cases hsearch

/-! ## Sessions -/

/-- What `decode` derives or cuts short does not enter the measure. -/
theorem ply_reloaded {options : MillVariantOptions} (h : s.plySinceCapture < 65536) :
    (reloaded options s).plySinceCapture = s.plySinceCapture := Nat.mod_eq_of_lt h

theorem playRank_reloaded {options : MillVariantOptions} (h : s.plySinceCapture < 65536)
    (limit : Nat) : playRank limit (reloaded options s) = playRank limit s := by
  unfold playRank MillState.patience
  rw [ply_reloaded h]
  rfl

theorem Clock.reload {options : MillVariantOptions} {limit : Nat}
    (hply : s.plySinceCapture < 65536) (h : Clock limit s) :
    Clock limit (reloaded options s) := by
  intro hrun howed
  rw [ply_reloaded hply]
  exact h hrun howed

/-- A position of a game, with its clock running. -/
structure Ticking (r : MillRules) (played : Played) : Prop where
  reachable : Reachable r played.state
  clock : Clock r.options.nMoveRule (MillState.decodeWithOptions played.state r.options)

theorem ticking_initial (hlimit : 0 < r.options.nMoveRule) :
    Ticking r ⟨[], r.initialState⟩ where
  reachable := .initial
  clock := by
    change Clock _ (MillState.decodeWithOptions ((initialMillState r).encode r.options) r.options)
    rw [decode_encode r.options (initialMillState_inv r).encodable]
    exact Clock.reload (Nat.zero_lt_succ _) fun _ _ => hlimit

/-- The rank of a snapshot is that of the state it holds. -/
def snapshotRank (r : MillRules) (played : Played) : Nat :=
  playRank r.options.nMoveRule (MillState.decodeWithOptions played.state r.options)

/-- One action of a session: the step on states, read through the codec. -/
theorem Ticking.advance (hlimit : 0 < r.options.nMoveRule) {played : Played}
    (h : Ticking r played) (ha : r.gameRules.isLegal played.state a = true) :
    Ticking r (r.gameRules.advance played a)
      ∧ ∀ b, r.gameRules.isLegal (r.gameRules.advance played a).state b = true →
        snapshotRank r (r.gameRules.advance played a) < snapshotRank r played := by
  have hmem : a ∈ r.legalActions played.state := List.contains_iff_mem.1 ha
  have hreachable : Reachable r (r.gameRules.advance played a).state :=
    h.reachable.apply played.history hmem
  have hinv := h.reachable.inv
  have hlegal := (mem_legalActions_iff r played.state a).1 hmem
  obtain ⟨keys, len, heq⟩ := applyWithHistory_legal hinv played.state rfl hlegal played.history
  -- the state the rules compute, before it is encoded
  generalize hs : ({ MillState.decodeWithOptions played.state r.options with
    keyHistory := keys, keyHistoryLen := len } : MillState) = s at heq
  have hsinv : StateInv r.options s := hs ▸ hinv.withHistory keys len
  have hsclock : Clock r.options.nMoveRule s := hs ▸ h.clock
  have hslegal : LegalAction s r.options a := hs ▸ hlegal
  have hrank : playRank r.options.nMoveRule s = snapshotRank r played := by
    rw [← hs]
    rfl
  have hadvanced := applyToStateUnchecked_advanced hlimit hsinv hsclock hslegal
  have hafter := applyToStateUnchecked_inv r hsinv hslegal true
  have hdecode : MillState.decodeWithOptions (r.gameRules.advance played a).state r.options
      = reloaded r.options (r.applyToStateUnchecked s a true) := by
    change MillState.decodeWithOptions (r.applyWithHistory played.state a played.history) r.options
      = _
    rw [heq, decode_encode r.options hafter.encodable]
  refine ⟨⟨hreachable, ?_⟩, ?_⟩
  · rw [hdecode]
    exact hadvanced.clock.reload hadvanced.ply
  · intro b hb
    have hb' := (mem_legalActions_iff r _ b).1 (List.contains_iff_mem.1 hb)
    rw [hdecode] at hb'
    have hrun : (r.applyToStateUnchecked s a true).phase ≠ .gameOver := fun hover =>
      not_legal_of_over (s := reloaded r.options (r.applyToStateUnchecked s a true)) hover hb'
    unfold snapshotRank
    rw [hdecode, playRank_reloaded hadvanced.ply, ← snapshotRank, ← hrank]
    exact hadvanced.rank hrun

theorem snapshotRank_initial (r : MillRules) :
    snapshotRank r ⟨[], r.initialState⟩
      = 4 * r.options.pieceCount * (r.options.nMoveRule + 1) + r.options.nMoveRule := by
  have hdecode : MillState.decodeWithOptions r.initialState r.options
      = reloaded r.options (initialMillState r) :=
    decode_encode r.options (initialMillState_inv r).encodable
  have hweight : (initialMillState r).weight = 4 * r.options.pieceCount := by
    change 2 * (r.options.pieceCount + r.options.pieceCount) + (0 + 0) = _
    omega
  have hpatience : (initialMillState r).patience r.options.nMoveRule = r.options.nMoveRule := rfl
  unfold snapshotRank
  rw [hdecode, playRank_reloaded (Nat.zero_lt_succ _)]
  unfold playRank
  rw [hweight, hpatience]

/-- **No line of legal play is longer than this.** -/
theorem legalLine_length_le (hlimit : 0 < r.options.nMoveRule) {actions : List Action}
    (h : r.gameRules.LegalLine r.initialState actions) :
    actions.length ≤ (4 * r.options.pieceCount + 1) * (r.options.nMoveRule + 1) := by
  have hlength : actions.length ≤ snapshotRank r ⟨[], r.initialState⟩ + 1 :=
    Run.Every.length_le (I := Ticking r)
      (fun _ _ hin hlegal => (hin.advance hlimit hlegal).1)
      (fun _ _ b hin hlegal hnext => (hin.advance hlimit hlegal).2 b hnext)
      (ticking_initial hlimit) h
  rw [snapshotRank_initial] at hlength
  rw [Nat.add_mul, Nat.one_mul]
  omega

/-- **A session never holds a longer game**: with an inactivity limit, whatever is applied,
undone and redone in whatever order, the moves behind and ahead of the cursor are bounded. -/
theorem session_finite (hlimit : 0 < r.options.nMoveRule) (commands : List KernelCommand)
    (hchecked : ∀ command ∈ commands, command.checked = true) :
    (Run.last (GameKernel.step r.gameRules) (GameKernel.new r.gameRules) commands).undoDepth
        + (Run.last (GameKernel.step r.gameRules) (GameKernel.new r.gameRules) commands).redoDepth
      ≤ (4 * r.options.pieceCount + 1) * (r.options.nMoveRule + 1) := by
  have hlegal := @Timeline.legal_run r.gameRules _ hchecked
  rw [← Timeline.toKernel_start, Timeline.last_toKernel]
  generalize Run.last (Timeline.step r.gameRules) (Timeline.start r.gameRules) commands = t
    at hlegal ⊢
  have hline := hlegal.line
  rw [hlegal.root] at hline
  have hlength := legalLine_length_le hlimit hline
  rw [List.length_append] at hlength
  unfold GameKernel.undoDepth GameKernel.redoDepth Timeline.toKernel
  rw [r.gameRules.length_replay_history, List.length_reverse, r.gameRules.length_positionsAfter]
  exact hlength

/-- Place, take back, and place again: the default rules. -/
theorem session_finite_replayed :
    let commands : List KernelCommand :=
      [.apply (placeAction 0), .apply (placeAction 1), .undo, .apply (placeAction 2), .undo, .redo]
    let rules : MillRules := ⟨{}, by decide⟩
    0 < rules.options.nMoveRule ∧ (∀ command ∈ commands, command.checked = true)
      ∧ (Run.last (GameKernel.step rules.gameRules) (GameKernel.new rules.gameRules)
            commands).undoDepth
          + (Run.last (GameKernel.step rules.gameRules) (GameKernel.new rules.gameRules)
            commands).redoDepth
        ≤ (4 * rules.options.pieceCount + 1) * (rules.options.nMoveRule + 1) := by
  refine ⟨by decide, ?_, session_finite (by decide) _ ?_⟩
  · simp [KernelCommand.checked]
  · simp [KernelCommand.checked]

end Sanmill
