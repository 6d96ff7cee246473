import Mathlib.Tactic.Linarith
import Sanmill.Mill.GameImpls
import Sanmill.Proof.Capacity
import Sanmill.Proof.MoveOrder
import Sanmill.Proof.Reload
import Sanmill.Proof.Search.Embedding
import Sanmill.Proof.Search.RootMinimax
import Sanmill.Proof.Symmetry.Play
import Sanmill.Proof.Undo

/-!
# Alpha-beta on Mill

The results on the generic search, for the rules. The workbenches a search of Mill meets are
`Searching`: loaded from a position of a game, then moved on. On these the undo law holds, so
the search puts back what it has moved (`mill_alphaBeta_restores`) and, where nothing cuts it
short, bounds the minimax value of the position (`mill_alphaBeta_minimax`).

Two hooks of the rules reach further than the search that asks them. A finished game scores
more the more depth remains, and the inactivity rule raises alpha to the draw; the second
result is for searches shallow enough for neither to matter. Two others may panic: the list of the
search may overflow and the undo stack may be full (`HooksReturn`). The second result is for every
game that answers as the rules do where they answer, so it speaks of no panic at all.
-/

namespace Sanmill

open Bits

variable {r : MillRules} {s : MillState} {weights : MillEvalWeights} {reset : Bool}

/-! ## The workbenches of a search -/

inductive Searching (r : MillRules) : MillWorkbench → Prop
  | loaded {snap : GameStateSnapshot} (rootRepetitionHistory : List Key) {wb : MillWorkbench}
      (h : Reachable r snap)
      (hwb : MillGame.buildWorkbench ⟨r.options, rootRepetitionHistory⟩ snap = some wb) :
      Searching r wb
  | moved {wb : MillWorkbench} {a : Action} (h : Searching r wb)
      (ha : LegalAction wb.state r.options a) : Searching r (wb.push a)

namespace Searching

variable {wb : MillWorkbench} {a : Action}

theorem rules (h : Searching r wb) : wb.rules = r := by
  induction h with
  | loaded rootRepetitionHistory h hwb => exact (buildWorkbench_eq hwb).1
  | moved h ha ih => exact ih

theorem reachable (h : Searching r wb) : SearchReachable r wb.state := by
  induction h with
  | loaded rootRepetitionHistory h hwb => exact .load rootRepetitionHistory h hwb
  | moved h ha ih =>
    unfold MillWorkbench.push
    rw [h.rules]
    exact .doMove ih ha

/-- Taking a legal move back restores the whole workbench. -/
theorem undo_push (h : Searching r wb) (ha : LegalAction wb.state r.options a) :
    (wb.push a).undoMove = wb := by
  have hrules := h.rules
  obtain ⟨rules, state, stack⟩ := wb
  simp only at hrules
  subst hrules
  unfold MillWorkbench.push MillWorkbench.undoMove
  simp only
  rw [undoState_restore h.reachable.inv ha]

theorem undo (h : Searching r wb) : Searching r wb.undoMove := by
  cases h with
  | loaded rootRepetitionHistory h hwb =>
    have hempty : wb.undoMove = wb := by
      unfold MillWorkbench.undoMove
      rw [(buildWorkbench_eq hwb).2.1]
    rw [hempty]
    exact .loaded rootRepetitionHistory h hwb
  | moved h ha =>
    rw [h.undo_push ha]
    exact h

end Searching

theorem legalPushes_legal {wb : MillWorkbench} (h : Searching r wb) (ctx : MoveOrderContext)
    {a : Action} (ha : a ∈ MillGame.legalPushes wb ctx) :
    LegalAction wb.state r.options a := by
  rw [mem_legalPushes, h.rules] at ha
  exact ha

/-- The rules meet what the search needs of a game. -/
theorem searching_keptBy (weights : MillEvalWeights) (reset : Bool) :
    (MillGame.game weights reset).KeptBy (Searching r)
      (fun wb a => LegalAction wb.state r.options a) where
  legal _ ctx h _ ha := legalPushes_legal h ctx ha
  tactical wb ctx kind h _ ha :=
    legalPushes_legal h ctx (quiescencePushes_subset wb ctx kind ha)
  doMove _ _ h ha := h.moved ha
  undoMove _ h := h.undo
  back _ _ h ha := h.undo_push ha

/-! ## Scores -/

/-- Weights far inside `i32`; the tuner's are below ten. -/
def MillPhaseEvalWeights.Moderate (w : MillPhaseEvalWeights) : Prop :=
  ∀ x ∈ [w.pieceValue, w.mobility, w.millCount, w.positionValue, w.cardinalMill, w.nearFlyBonus],
    -1000000 ≤ x ∧ x ≤ 1000000

instance (w : MillPhaseEvalWeights) : Decidable w.Moderate :=
  inferInstanceAs (Decidable (∀ x ∈ _, _))

def MillEvalWeights.Moderate (w : MillEvalWeights) : Prop :=
  w.placing.Moderate ∧ w.movingOpen.Moderate ∧ w.preFly.Moderate ∧ w.flying.Moderate

instance (w : MillEvalWeights) : Decidable w.Moderate :=
  inferInstanceAs (Decidable (_ ∧ _ ∧ _ ∧ _))

/-- A weighted difference of at most `bound` either way. -/
theorem weighted_bounds {w x bound : Int} (hw : -1000000 ≤ w ∧ w ≤ 1000000)
    (hx : -bound ≤ x ∧ x ≤ bound) :
    -(1000000 * bound) ≤ w * x ∧ w * x ≤ 1000000 * bound := by
  obtain ⟨hwlo, hwhi⟩ := hw
  obtain ⟨hxlo, hxhi⟩ := hx
  refine ⟨?_, ?_⟩
  · nlinarith [mul_nonneg (sub_nonneg.2 hwhi) (sub_nonneg.2 hxhi),
      mul_nonneg (sub_nonneg.2 hwlo) (sub_nonneg.2 hxlo)]
  · nlinarith [mul_nonneg (sub_nonneg.2 hwhi) (sub_nonneg.2 hxlo),
      mul_nonneg (sub_nonneg.2 hwlo) (sub_nonneg.2 hxhi)]

/-- The features of a sound position are small. -/
structure FeaturesSmall (f : MillEvalFeatureSet) : Prop where
  materialDiff : -25 ≤ f.materialDiff ∧ f.materialDiff ≤ 25
  mobilityDiff : -768 ≤ f.mobilityDiff ∧ f.mobilityDiff ≤ 768
  millCountDiff : -32 ≤ f.millCountDiff ∧ f.millCountDiff ≤ 32
  positionValueDiff : -96 ≤ f.positionValueDiff ∧ f.positionValueDiff ≤ 96
  cardinalMillDiff : -4 ≤ f.cardinalMillDiff ∧ f.cardinalMillDiff ≤ 4
  nearFlyDiff : -1 ≤ f.nearFlyDiff ∧ f.nearFlyDiff ≤ 1

theorem positionValue_bounds (colorBb : Bitboard) :
    0 ≤ positionValue colorBb ∧ positionValue colorBb ≤ 96 := by
  have hcross := countOnes_le_width (colorBb &&& degree4NodeMask)
  have hcorner := countOnes_le_width (colorBb &&& degree3NodeMask)
  unfold positionValue
  omega

theorem cardinalMills_le (colorBb : Bitboard) : cardinalMills colorBb ≤ 4 :=
  List.countP_le_length

/-- The count view moves one piece from a side to the other at most. -/
theorem legacyRemovalCountView_le (options : MillVariantOptions) {bound : Nat}
    (h : ∀ c, s.piecesOnBoard c ≤ bound) (c : Side) :
    legacyRemovalCountView s options c ≤ bound + 1 := by
  have hc := h c
  unfold legacyRemovalCountView
  dsimp only
  split
  · omega
  cases legacyPendingSide s with
  | none => exact Nat.le_succ_of_le hc
  | some pending =>
    have hpending := h pending
    by_cases hother : c = pending.opponent
    · have hopponent := h pending.opponent
      rw [hother]
      simp only [setAt_self]
      unfold saturatingAddU8
      by_cases hsame : pending.opponent = pending
      · rw [hsame, setAt_self]
        omega
      · rw [setAt_of_ne hsame]
        omega
    · simp only [setAt_of_ne hother]
      by_cases hself : c = pending
      · rw [hself, setAt_self]
        omega
      · rw [setAt_of_ne hself]
        omega

theorem evalFeatures_small (h : StateInv r.options s) :
    FeaturesSmall (evalFeatures s r.options) where
  -- each feature is bounded by what a position with twelve pieces a side can have
  materialDiff := by
    have hmaterial : ∀ c, s.piecesOnBoard c + s.piecesInHand c ≤ 12 := fun c =>
      (h.position.material c).trans r.valid.pieceCount.2
    have hboard : ∀ c, s.piecesOnBoard c ≤ 12 := fun c => by
      have := hmaterial c
      omega
    have hwhite := legacyRemovalCountView_le r.options hboard 0
    have hblack := legacyRemovalCountView_le r.options hboard 1
    have hhand := hmaterial 0
    have hhand' := hmaterial 1
    unfold evalFeatures
    dsimp only
    split <;> omega
  mobilityDiff := by
    change -768 ≤ s.mobilityDiff ∧ s.mobilityDiff ≤ 768
    rw [h.position.mobility]
    exact mobilityTerm_bounds _ r.options
  millCountDiff := by
    have hwhite := countOnes_le_width (s.formedMillsBb 0)
    have hblack := countOnes_le_width (s.formedMillsBb 1)
    change -32 ≤ millsPiecesCountDifference s ∧ millsPiecesCountDifference s ≤ 32
    unfold millsPiecesCountDifference
    omega
  positionValueDiff := by
    have hwhite := positionValue_bounds (s.byColorBb 0)
    have hblack := positionValue_bounds (s.byColorBb 1)
    change -96 ≤ positionValueDiff s ∧ positionValueDiff s ≤ 96
    unfold positionValueDiff
    omega
  cardinalMillDiff := by
    have hwhite := cardinalMills_le (s.byColorBb 0)
    have hblack := cardinalMills_le (s.byColorBb 1)
    change -4 ≤ cardinalMillDiff s ∧ cardinalMillDiff s ≤ 4
    unfold cardinalMillDiff
    omega
  nearFlyDiff := by
    change -1 ≤ nearFlyDiff s r.options ∧ nearFlyDiff s r.options ≤ 1
    unfold nearFlyDiff
    split
    · omega
    · split <;> split <;> omega

theorem phaseWeights_moderate (s : MillState) (options : MillVariantOptions)
    (h : weights.Moderate) : (phaseWeights s options weights).Moderate := by
  unfold phaseWeights
  split
  · exact h.1
  · split
    · exact h.2.2.2
    · split
      · exact h.2.2.1
      · exact h.2.1
  · exact h.2.1

/-- **Scores stay inside the root window**, so no score of a sound position wraps. -/
theorem millScore_bounds (h : StateInv r.options s) (hweights : weights.Moderate) :
    -1436000000 ≤ millScore s r.options weights ∧ millScore s r.options weights ≤ 1436000000 := by
  have hw := phaseWeights_moderate s r.options hweights
  have hf := evalFeatures_small h
  have hpiece := hw _ (by simp : (phaseWeights s r.options weights).pieceValue ∈ _)
  have hmobility := hw _ (by simp : (phaseWeights s r.options weights).mobility ∈ _)
  have hmill := hw _ (by simp : (phaseWeights s r.options weights).millCount ∈ _)
  have hposition := hw _ (by simp : (phaseWeights s r.options weights).positionValue ∈ _)
  have hcardinal := hw _ (by simp : (phaseWeights s r.options weights).cardinalMill ∈ _)
  have hfly := hw _ (by simp : (phaseWeights s r.options weights).nearFlyBonus ∈ _)
  have hremovals : -510 ≤ signedPendingRemovalsDiff s ∧ signedPendingRemovalsDiff s ≤ 510 := by
    have hwhite := h.sane.pendingRemovals 0
    have hblack := h.sane.pendingRemovals 1
    unfold signedPendingRemovalsDiff
    dsimp only
    split <;> split <;> omega
  -- weight times feature, term by term; their sum keeps far from the ends of an `i32`
  have hmaterial := weighted_bounds hpiece hf.materialDiff
  have howed := weighted_bounds hpiece hremovals
  have hmobile := weighted_bounds hmobility hf.mobilityDiff
  have hmills := weighted_bounds hmill hf.millCountDiff
  have hsquares := weighted_bounds hposition hf.positionValueDiff
  have hcardinals := weighted_bounds hcardinal hf.cardinalMillDiff
  have hflying := weighted_bounds hfly hf.nearFlyDiff
  have hover : -80 ≤ gameoverValue s r.options 80 0 ∧ gameoverValue s r.options 80 0 ≤ 80 := by
    unfold gameoverValue
    dsimp only
    split
    · split <;> omega
    · split
      · split <;> omega
      · split
        · omega
        · split <;> omega
  have hwhite : -1436000000 ≤ whiteScore s r.options weights
      ∧ whiteScore s r.options weights ≤ 1436000000 := by
    unfold whiteScore evaluateFeatures
    dsimp only
    split
    · omega
    · split
      · split <;> omega
      · split
        · omega
        · split <;> omega
    · split
      · omega
      · split <;> omega
    · omega
  unfold millScore
  split <;> omega

/-! ## Shallow searches -/

/-- No soft draw comes up within `n` plies: each raises the inactivity count by one at most. -/
def Calm (options : MillVariantOptions) (n : Nat) (s : MillState) : Prop :=
  options.nMoveRule = 0 ∨
    (s.plySinceCapture + n ≤ options.nMoveRule
      ∧ (0 < options.endgameNMoveRule → options.endgameNMoveRule < options.nMoveRule →
        s.plySinceCapture + n < options.endgameNMoveRule))

instance (options : MillVariantOptions) (n : Nat) (s : MillState) : Decidable (Calm options n s) :=
  inferInstanceAs (Decidable (_ ∨ (_ ∧ (_ → _ → _))))

theorem Calm.noOverride {options : MillVariantOptions} {n : Nat} (h : Calm options n s) :
    searchNMoveDrawAlphaOverride s options = none := by
  unfold searchNMoveDrawAlphaOverride
  split
  · rfl
  split
  · rfl
  dsimp only
  rcases h with hoff | ⟨hmain, hendgame⟩
  · simp [hoff]
  · split
    · rename_i hcond
      rw [decide_eq_true_eq] at hcond
      have := hendgame hcond.1 hcond.2.1
      rw [if_neg (by rw [decide_eq_true_eq]; omega)]
    · rw [if_neg (by rw [decide_eq_true_eq]; omega)]

/-- One ply spends one of the `n`. -/
theorem Calm.push {wb : MillWorkbench} {a : Action} {n : Nat} (h : Searching r wb)
    (ha : LegalAction wb.state r.options a) (hcalm : Calm r.options (n + 1) wb.state) :
    Calm r.options n (wb.push a).state := by
  have hinv := h.reachable.inv
  obtain ⟨c, hturn, hstep⟩ := hinv.legalStep ha
  have hply : (wb.push a).state.plySinceCapture ≤ wb.state.plySinceCapture + 1 := by
    change (wb.rules.applyToStateUnchecked wb.state a false).plySinceCapture ≤ _
    rw [h.rules, applyToStateUnchecked_plySinceCapture hinv hturn hstep]
    split
    · unfold bumpPlySinceCapture
      dsimp only
      split <;> omega
    · exact Nat.zero_le _
  rcases hcalm with hoff | ⟨hmain, hendgame⟩
  · exact .inl hoff
  · refine .inr ⟨by omega, ?_⟩
    intro hpos hlt
    have := hendgame hpos hlt
    omega

/-! ## Hooks that panic -/

/-- The list of the search holds the actions of every position fewer than `n` plies away. -/
def ListsFit (ctx : MoveOrderContext) : Nat → MillWorkbench → Prop
  | 0, _ => True
  | n + 1, wb =>
    (MillGame.legalPushes wb ctx).length ≤ searchActionCapacity
      ∧ ∀ a, LegalAction wb.state wb.rules.options a → ListsFit ctx n (wb.push a)

/-- No hook panics in a search of `n` plies: the lists hold the actions, and the undo stack has room
for the moves. -/
structure HooksReturn (ctx : MoveOrderContext) (n : Nat) (wb : MillWorkbench) : Prop where
  fits : ListsFit ctx n wb
  room : wb.undoStack.length + n ≤ millSearchStackCapacity

theorem HooksReturn.push {ctx : MoveOrderContext} {n : Nat} {wb : MillWorkbench} {a : Action}
    (h : HooksReturn ctx (n + 1) wb) (ha : LegalAction wb.state wb.rules.options a) :
    HooksReturn ctx n (wb.push a) where
  fits := h.fits.2 a ha
  room := by
    have hroom := h.room
    change (wb.undoStack.length + 1) + n ≤ millSearchStackCapacity
    omega

theorem HooksReturn.doMove_eq {ctx : MoveOrderContext} {n : Nat} {wb : MillWorkbench}
    (h : HooksReturn ctx (n + 1) wb) (a : Action) : wb.doMove a = some (wb.push a) := by
  have hroom := h.room
  rw [MillWorkbench.doMove_eq, if_pos (by omega)]

theorem HooksReturn.generateLegalCtx_eq {ctx : MoveOrderContext} {n : Nat} {wb : MillWorkbench}
    (h : HooksReturn ctx (n + 1) wb) :
    MillGame.generateLegalCtx wb ctx = some (MillGame.legalPushes wb ctx) := by
  rw [Sanmill.generateLegalCtx_eq, if_pos h.fits.1]

/-- Where flying starts at three pieces, as the standard rules have it, every list fits. -/
theorem listsFit_of_flyPieceCount (hfew : r.options.flyPieceCount ≤ 3) (ctx : MoveOrderContext)
    (n : Nat) {wb : MillWorkbench} (h : Searching r wb) : ListsFit ctx n wb := by
  induction n generalizing wb with
  | zero => trivial
  | succ n ih =>
    unfold ListsFit
    rw [h.rules]
    refine ⟨?_, fun a ha => ih (h.moved ha)⟩
    unfold MillGame.legalPushes
    rw [h.rules, legalPushesCtx_fit_iff h.reachable.inv.position]
    rintro ⟨-, -, hfly⟩
    have hown : wb.state.piecesOnBoard (sideIndex wb.state.sideToMove)
        ≤ r.options.flyPieceCount := by
      unfold canFly at hfly
      simp only [Bool.and_eq_true, decide_eq_true_eq] at hfly
      exact hfly.2
    have hempty : wb.state.emptySquareCount ≤ 24 := Nat.sub_le _ _
    unfold searchActionCapacity
    calc wb.state.piecesOnBoard (sideIndex wb.state.sideToMove) * wb.state.emptySquareCount
        ≤ 3 * 24 := Nat.mul_le_mul (hown.trans hfew) hempty
      _ ≤ 72 := by decide

/-- A game whose hooks never panic is one of the games with hooks that panic. -/
theorem gameWith_pushes (weights : MillEvalWeights) (reset : Bool) :
    MillGame.gameWith ⟨MillWorkbench.push, MillGame.legalPushes, MillGame.quiescencePushes⟩ weights
      reset = MillGame.game weights reset := by
  have hmove : ∀ (wb : MillWorkbench) (a : Action), (wb.doMove a).getD (wb.push a) = wb.push a := by
    intro wb a
    rw [MillWorkbench.doMove_eq]
    split <;> rfl
  have hlegal : ∀ (wb : MillWorkbench) (ctx : MoveOrderContext),
      (MillGame.generateLegalCtx wb ctx).getD (MillGame.legalPushes wb ctx)
        = MillGame.legalPushes wb ctx := by
    intro wb ctx
    rw [Sanmill.generateLegalCtx_eq]
    split <;> rfl
  have hquiet : ∀ (wb : MillWorkbench) (ctx : MoveOrderContext) (kindTag : Int),
      (MillGame.generateQuiescenceCtx wb ctx kindTag).getD
          (MillGame.quiescencePushes wb ctx kindTag)
        = MillGame.quiescencePushes wb ctx kindTag := by
    intro wb ctx kindTag
    unfold MillGame.generateQuiescenceCtx MillGame.quiescencePushes
    rw [Sanmill.generateLegalCtx_eq, ActionList.pushAll_nil]
    split <;> split <;> rfl
  unfold MillGame.gameWith
  simp only [hmove, hlegal, hquiet]
  rfl

/-- Where the hooks of the rules are as in `shallowGame`. -/
def Shallow (r : MillRules) (ctx : MoveOrderContext) (depth : Int)
    (wb : {wb : MillWorkbench // Searching r wb}) : Prop :=
  0 ≤ depth ∧ depth ≤ repetitionStackCapacity ∧ Calm r.options depth.toNat wb.1.state
    ∧ HooksReturn ctx depth.toNat wb.1

/-- The part of the rules a shallow search meets, with every score inside the root window. -/
noncomputable def shallowGame (r : MillRules) (weights : MillEvalWeights) (reset : Bool) :
    Game {wb : MillWorkbench // Searching r wb} :=
  { (MillGame.game weights reset).restrict (searching_keptBy (r := r) weights reset) with
    terminalScore := fun wb player depth =>
      if depth ≤ repetitionStackCapacity then MillGame.terminalScore wb.1 player depth
      else none
    searchAlphaOverride := fun _ => none }

theorem shallowGame_reversible (r : MillRules) (weights : MillEvalWeights) (reset : Bool) :
    (shallowGame r weights reset).Reversible :=
  have law := (searching_keptBy (r := r) weights reset).reversible
  ⟨law.legal, law.quiescence⟩

theorem shallowGame_scoresInside (hweights : weights.Moderate) :
    Searcher.ScoresInside (shallowGame r weights reset) where
  score wb := by
    have hinv : StateInv wb.1.rules.options wb.1.state := by
      rw [wb.2.rules]
      exact wb.2.reachable.inv
    have hscore := millScore_bounds hinv hweights
    change -(i32Max - 1) ≤ millScore wb.1.state wb.1.rules.options weights
      ∧ millScore wb.1.state wb.1.rules.options weights ≤ i32Max - 1
    unfold i32Max
    omega
  terminal wb player depth v hterminal := by
    change (if depth ≤ repetitionStackCapacity then
      MillGame.terminalScore wb.1 player depth else none) = some v at hterminal
    unfold repetitionStackCapacity at hterminal
    split at hterminal
    · unfold MillGame.terminalScore at hterminal
      unfold MillGame.repetitionDrawBias MillGame.millTerminalWinScore at hterminal
      unfold i32Max
      split at hterminal
      · split at hterminal <;> cases hterminal <;> omega
      split at hterminal
      · cases hterminal
      split at hterminal <;> cases hterminal <;> omega
    · cases hterminal

theorem shallowGame_embeds (r : MillRules) (weights : MillEvalWeights) (reset : Bool)
    (panics : MillGame.Panics) {o : SearchOptions} (hplain : o.depthExtension = false) :
    (shallowGame r weights reset).Embeds (MillGame.gameWith panics weights reset) Subtype.val o 0
      (Shallow r o.moveOrderContext) :=
  -- the hooks that cannot fail are those of the game before; the others return as long as the tree
  -- is shallow
  have part := (searching_keptBy (r := r) weights reset).embeds o 0
  have hooks {depth : Int} {wb : {wb : MillWorkbench // Searching r wb}} (hdeep : 0 < depth)
      (hnear : Shallow r o.moveOrderContext depth wb) :
      HooksReturn o.moveOrderContext (depth.toNat - 1 + 1) wb.1 := by
    rw [Nat.sub_add_cancel (by omega)]
    exact hnear.2.2.2
  { key := part.key
    sideToMove := part.sideToMove
    isTerminal := part.isTerminal
    score := part.score
    hasCurrentRepetition := part.hasCurrentRepetition
    undoMove := part.undoMove
    generateLegalCtx := fun depth wb hdeep hnear => by
      change (MillGame.generateLegalCtx wb.1 _).getD _ = MillGame.legalPushes wb.1 _
      rw [(hooks hdeep hnear).generateLegalCtx_eq, Option.getD_some]
    generateQuiescenceCtx := fun depth wb kind hhorizon hasked => by omega
    doMove := fun depth wb hdeep hnear a ha => by
      change (wb.1.doMove a).getD _ = _
      rw [(hooks hdeep hnear).doMove_eq, Option.getD_some]
      exact part.doMove depth wb hdeep trivial a ha
    doTactical := fun depth wb kind hhorizon hasked => by omega
    moveOrderScoresCtx := part.moveOrderScoresCtx
    nullMoveTerminalGuard := part.nullMoveTerminalGuard
    repetitionDrawBias := part.repetitionDrawBias
    actionResetsRepetition := part.actionResetsRepetition
    packTtAction := part.packTtAction
    unpackTtAction := part.unpackTtAction
    terminalScore := fun depth wb player hnear => by
      have hdepth := hnear.2.1
      change MillGame.terminalScore wb.1 player depth
        = if depth ≤ repetitionStackCapacity then MillGame.terminalScore wb.1 player depth else none
      rw [if_pos hdepth]
    searchAlphaOverride := fun depth wb hnear => by
      change searchNMoveDrawAlphaOverride wb.1.state wb.1.rules.options = none
      rw [wb.2.rules]
      exact hnear.2.2.1.noOverride
    near := by
      intro depth wb hdeep hnear a ha
      have hlegal : LegalAction wb.1.state r.options a := legalPushes_legal wb.2 _ ha
      have hmoved : ((shallowGame r weights reset).doMove wb a).1 = wb.1.push a :=
        (searching_keptBy weights reset).restrict_doMove wb hlegal
      have hpush := (hooks hdeep hnear).push (a := a) (by rwa [wb.2.rules])
      obtain ⟨-, hbound, hcalm, -⟩ := hnear
      have hn : (depth - 1).toNat = depth.toNat - 1 := by omega
      -- a move uses up one of the actions that are known to go well, and one ply of the depth
      refine ⟨by omega, by omega, ?_, ?_⟩
      · rw [hmoved, hn]
        refine Calm.push wb.2 hlegal ?_
        rwa [Nat.sub_add_cancel (by omega)]
      · rw [hmoved, hn]
        exact hpush
    nearExtended := by
      intro hext
      rw [hplain] at hext
      cases hext
    nearTactical := fun depth wb kind hhorizon hasked => by omega }

/-! ## The searches -/

variable {wb : MillWorkbench} {ctx : MoveOrderContext} {s s' : Searcher}

theorem shallow_start (h : Searching r wb) {n : Nat} (hcalm : Calm r.options n wb.state)
    (hhooks : HooksReturn ctx n wb)
    (hroom : s.repetitionStack.length + n ≤ repetitionStackCapacity) : Shallow r ctx n ⟨wb, h⟩ := by
  have hbound : n ≤ repetitionStackCapacity := by omega
  refine ⟨by omega, by exact_mod_cast hbound, ?_⟩
  rw [Int.toNat_natCast]
  exact ⟨hcalm, hhooks⟩

/-- A shallow search of Mill is the search of its part, and comes back. -/
theorem mill_alphaBeta_part (h : Searching r wb) (panics : MillGame.Panics)
    (weights : MillEvalWeights) (reset : Bool) {n : Nat} (hcalm : Calm r.options n wb.state)
    (hhooks : HooksReturn ctx n wb) (hplain : Searcher.PlainSettings ctx s)
    (hroom : s.repetitionStack.length + n ≤ repetitionStackCapacity) {fuel : Nat}
    (hfuel : n + 2 ≤ fuel) (alpha beta : Int) :
    ∃ v s', Searcher.alphaBeta (shallowGame r weights reset) fuel n alpha beta s ⟨wb, h⟩
          = some (v, s', ⟨wb, h⟩)
      ∧ Searcher.alphaBeta (MillGame.gameWith panics weights reset) fuel n alpha beta s wb
          = some (v, s', wb) := by
  have hlaw := shallowGame_reversible r weights reset
  rw [← hplain.context] at hhooks
  have hwhole := Searcher.alphaBeta_embedded
    (shallowGame_embeds r weights reset panics hplain.depthExtension) hlaw fuel n alpha beta s
    ⟨wb, h⟩ ⟨⟨rfl, hplain.qsearchMaxDepth⟩, shallow_start h hcalm hhooks hroom⟩
  have hreturns := Searcher.alphaBeta_returns hlaw n fuel hfuel n (Int.toNat_natCast n) alpha beta
    s ⟨wb, h⟩ hplain hroom
  obtain ⟨⟨v, s', w⟩, hrun⟩ := Option.isSome_iff_exists.1 hreturns
  obtain ⟨-, rfl⟩ := Searcher.alphaBeta_restores hlaw fuel n hrun
  refine ⟨v, s', hrun, ?_⟩
  rw [hwhole, hrun]
  rfl

/-- **The search of Mill puts back what it moved.** Whatever the table answers, the options allow
and the clock cuts off, a search that returns leaves the workbench and the stack of ancestors as
they were. -/
theorem mill_alphaBeta_restores (h : Searching r wb) {fuel : Nat} {depth alpha beta v : Int}
    {wb' : MillWorkbench}
    (hrun : Searcher.alphaBeta (MillGame.game weights reset) fuel depth alpha beta s wb
      = some (v, s', wb')) :
    Searcher.Kept s s' ∧ wb' = wb :=
  (searching_keptBy weights reset).alphaBeta_restores h hrun

theorem threeLeftWorkbench_searching : Searching laskerRules threeLeftWorkbench :=
  .loaded [] threeLeft_reachable (buildWorkbench_nil laskerRules threeLeft)

theorem threeLeftWorkbench_hooksReturn : HooksReturn {} 4 threeLeftWorkbench where
  fits := listsFit_of_flyPieceCount (by decide) {} 4 threeLeftWorkbench_searching
  room := by decide

/-- The theorem for a search four plies deep after seven mills; Black flies with its last three
pieces. -/
theorem mill_alphaBeta_restores_threeLeft :
    let game := MillGame.game .tuned false
    let s : Searcher := { options := { depthExtension := false } }
    ∃ v s', Searcher.alphaBeta game 6 4 (-100) 100 s threeLeftWorkbench
        = some (v, s', threeLeftWorkbench)
      ∧ Searcher.Kept s s' := by
  have hplain : Searcher.PlainSettings {} { options := { depthExtension := false } } :=
    ⟨rfl, rfl, rfl, rfl⟩
  obtain ⟨v, s', -, hrun⟩ := mill_alphaBeta_part (n := 4) threeLeftWorkbench_searching
    ⟨MillWorkbench.push, MillGame.legalPushes, MillGame.quiescencePushes⟩ .tuned false
    (by decide +kernel) threeLeftWorkbench_hooksReturn hplain (by decide) (Nat.le_refl 6) (-100) 100
  rw [gameWith_pushes] at hrun
  exact ⟨v, s', hrun, (mill_alphaBeta_restores threeLeftWorkbench_searching hrun).1⟩

/-- **Alpha-beta on Mill computes minimax.** A search with plain settings in whose reach no list
overflows comes back as soon as the stacks have room, and where no table entry answered, no
repetition was cut and no abort was noticed it bounds the minimax value of the position. -/
theorem mill_alphaBeta_minimax (h : Searching r wb) (hweights : weights.Moderate) {n : Nat}
    (hcalm : Calm r.options n wb.state) (hhooks : HooksReturn ctx n wb)
    (hplain : Searcher.PlainSettings ctx s)
    (hroom : s.repetitionStack.length + n ≤ repetitionStackCapacity) {fuel : Nat}
    (hfuel : n + 2 ≤ fuel) {alpha beta : Int} (halpha : Searcher.Negatable alpha)
    (hbeta : Searcher.Negatable beta) (hlt : alpha < beta) (panics : MillGame.Panics) :
    ∃ v s', Searcher.alphaBeta (MillGame.gameWith panics weights reset) fuel n alpha beta s wb
          = some (v, s', wb)
      ∧ (Searcher.Undisturbed s s' →
        FailSoft alpha beta v (Searcher.minimaxPlies (MillGame.game weights reset) ctx n wb)) := by
  obtain ⟨v, s', hpart, hwhole⟩ := mill_alphaBeta_part h panics weights reset hcalm hhooks hplain
    hroom hfuel alpha beta
  refine ⟨v, s', hwhole, ?_⟩
  intro hquiet
  have hbounds := (Searcher.alphaBeta_bounds (shallowGame_reversible r weights reset)
    (shallowGame_scoresInside hweights) (fun _ => rfl) fuel n hpart hplain hquiet halpha hbeta
    hlt).1
  have hcontext := hplain.context
  subst hcontext
  have hvalue := Searcher.minimaxPlies_embedded
    (shallowGame_embeds r weights reset
      ⟨MillWorkbench.push, MillGame.legalPushes, MillGame.quiescencePushes⟩ hplain.depthExtension)
    n (shallow_start h hcalm hhooks hroom)
  rw [gameWith_pushes] at hvalue
  rw [hvalue]
  exact hbounds

/-- The theorem for the search from the same position. -/
theorem mill_alphaBeta_minimax_threeLeft :
    let panics : MillGame.Panics := ⟨fun wb _ => wb, fun _ _ => [], fun _ _ _ => []⟩
    let game := MillGame.gameWith panics .tuned false
    let s : Searcher := { options := { depthExtension := false } }
    ∃ v s', Searcher.alphaBeta game 6 4 (-100) 100 s threeLeftWorkbench
        = some (v, s', threeLeftWorkbench)
      ∧ (Searcher.Undisturbed s s' →
        FailSoft (-100) 100 v
          (Searcher.minimaxPlies (MillGame.game .tuned false) {} 4 threeLeftWorkbench)) :=
  mill_alphaBeta_minimax (n := 4) threeLeftWorkbench_searching (by decide) (by decide +kernel)
    threeLeftWorkbench_hooksReturn ⟨rfl, rfl, rfl, rfl⟩ (by decide) (Nat.le_refl 6)
    (by unfold Searcher.Negatable; decide) (by unfold Searcher.Negatable; decide) (by decide)
    ⟨fun wb _ => wb, fun _ _ => [], fun _ _ _ => []⟩

end Sanmill
