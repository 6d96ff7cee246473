import Sanmill.Lib.Run
import Sanmill.Mill.GameImpls
import Sanmill.Proof.MoveOrder
import Sanmill.Proof.Reach
import Sanmill.Proof.Search.Minimax
import Sanmill.Proof.Symmetry.Step

/-!
# Play is symmetric

The image of a sound state is sound, so a transform is a bisimulation of the game: a line of
play from a state and the image of the line from the image state are legal together and end in
corresponding states. With the identity as the transform the same statement says that the
search does not look at the history of a state.
-/

namespace Sanmill

open Bits

variable {t : BoardTransform} {options : MillVariantOptions} {s s' : MillState} {r : MillRules}
  {c : Side} {adjudicate : Bool}

/-! ## What the evaluator reads -/

theorem nodeSet_image {a b : Bitboard} (h : NodeImage t a b) :
    nodeSet b = (nodeSet a).map (nodePerm t).toEmbedding := by
  ext n'
  obtain ⟨n, rfl⟩ := (nodePerm t).surjective n'
  rw [mem_nodeSet, h.node]
  simp

theorem mobilityPairs_image (diagonal : Bool) (A E : Finset Node) :
    mobilityPairs diagonal (A.map (nodePerm t).toEmbedding) (E.map (nodePerm t).toEmbedding)
      = mobilityPairs diagonal A E := by
  unfold mobilityPairs
  rw [Finset.sum_map]
  refine Finset.sum_congr rfl fun a _ => ?_
  rw [Finset.sum_map]
  refine Finset.sum_congr rfl fun e _ => ?_
  simp only [Equiv.coe_toEmbedding, adjacent_image]

theorem PositionImage.mobilityTerm_eq {p q : MillPosition} (h : PositionImage t p q) :
    mobilityTerm q options = mobilityTerm p options := by
  have hempty : liveEmptySet q = (liveEmptySet p).map (nodePerm t).toEmbedding := by
    ext n'
    obtain ⟨n, rfl⟩ := (nodePerm t).surjective n'
    simp only [liveEmptySet, Finset.mem_filter, Finset.mem_univ, true_and, (h.color _).node,
      Finset.mem_map_equiv, Equiv.symm_apply_apply]
  unfold mobilityTerm
  rw [calculateMobilityDiff_eq, calculateMobilityDiff_eq, nodeSet_image (h.color 0),
    nodeSet_image (h.color 1), hempty, mobilityPairs_image, mobilityPairs_image]

/-- A fixed mask that every transform maps onto itself. -/
theorem nodeImage_fixed {m : Bitboard} (hbelow : ∀ i : Fin 32, testBit m i = true → i.val < 24)
    (hfixed : ((List.finRange 16).all fun t => (List.finRange 24).all fun n =>
      testBit m (transformOpeningBookNode n t) == testBit m n) = true) (t : BoardTransform) :
    NodeImage t m m := by
  have hbits : ∀ i, testBit m i = true → i < 24 := fun i hi => hbelow ⟨i, testBit_lt hi⟩ hi
  refine nodeImage_of (fun n => ?_) hbits hbits
  rw [List.all_eq_true] at hfixed
  have hrow := hfixed t (List.mem_finRange t)
  rw [List.all_eq_true] at hrow
  exact beq_iff_eq.1 (hrow n (List.mem_finRange n))

theorem nodeImage_degree4 (t : BoardTransform) : NodeImage t degree4NodeMask degree4NodeMask :=
  nodeImage_fixed (by decide) (by decide +kernel) t

theorem nodeImage_degree3 (t : BoardTransform) : NodeImage t degree3NodeMask degree3NodeMask :=
  nodeImage_fixed (by decide) (by decide +kernel) t

theorem positionValue_image {a b : Bitboard} (h : NodeImage t a b) :
    positionValue b = positionValue a := by
  unfold positionValue
  rw [(h.and (nodeImage_degree4 t)).countOnes_eq, (h.and (nodeImage_degree3 t)).countOnes_eq]

/-- The cardinal lines are the lines of the plain board through squares of degree three and four
only. -/
theorem cardinalMills_eq (colorBb : Bitboard) :
    cardinalMills colorBb = (millLineMasks {}).countP fun m =>
      decide (colorBb &&& m = m)
        && decide ((degree4NodeMask ||| degree3NodeMask) &&& m = m) := by
  have hlines : cardinalLineMasks.Perm ((millLineMasks {}).filter fun m =>
      decide ((degree4NodeMask ||| degree3NodeMask) &&& m = m)) :=
    List.isPerm_iff.1 (by decide +kernel)
  unfold cardinalMills
  rw [hlines.countP_eq, List.countP_filter]

theorem cardinalMills_image {a b : Bitboard} (h : NodeImage t a b) :
    cardinalMills b = cardinalMills a := by
  rw [cardinalMills_eq, cardinalMills_eq]
  refine countP_lineMasks_image (t := t) fun m m' hm => ?_
  have hsquares := (nodeImage_degree4 t).or (nodeImage_degree3 t)
  rw [covers_image h hm, covers_image hsquares hm]

namespace StateImage

variable {weights : MillEvalWeights}

theorem legacyRemovalCountView_eq (h : StateImage t s s') :
    legacyRemovalCountView s' options = legacyRemovalCountView s options := by
  unfold legacyRemovalCountView legacyPendingSide
  rw [h.phase, h.position.onBoard, h.flags.removeOwnPiece, h.pendingRemovals]

theorem evalFeatures_eq (h : StateImage t s s') (hmobility : s'.mobilityDiff = s.mobilityDiff) :
    evalFeatures s' options = evalFeatures s options := by
  unfold evalFeatures positionValueDiff cardinalMillDiff millsPiecesCountDifference nearFlyDiff
  rw [h.legacyRemovalCountView_eq, h.phase, h.position.inHand, h.position.onBoard, hmobility,
    positionValue_image (h.position.color 0), positionValue_image (h.position.color 1),
    cardinalMills_image (h.position.color 0), cardinalMills_image (h.position.color 1),
    (h.formedMillsBb 0).countOnes_eq, (h.formedMillsBb 1).countOnes_eq]

theorem gameoverValue_eq (h : StateImage t s s') (mate draw : Int) :
    gameoverValue s' options mate draw = gameoverValue s options mate draw := by
  unfold gameoverValue
  rw [h.position.onBoard, h.phase, h.pendingRemovals, h.sideToMove,
    (h.legalImage options).isAllSurrounded_eq]

/-- **The evaluator scores a position and its image alike.** -/
theorem millScore_eq (h : StateImage t s s') (hmobility : s'.mobilityDiff = s.mobilityDiff) :
    millScore s' options weights = millScore s options weights := by
  have hweights : phaseWeights s' options weights = phaseWeights s options weights := by
    unfold phaseWeights flyingPhaseActive preFlyPhaseActive
    rw [h.phase, h.position.onBoard]
  have hfocus : shouldFocusOnBlockingPaths s' options = shouldFocusOnBlockingPaths s options := by
    unfold shouldFocusOnBlockingPaths
    rw [h.phase, h.sideToMove, h.position.onBoard]
  have hremovals : signedPendingRemovalsDiff s' = signedPendingRemovalsDiff s := by
    unfold signedPendingRemovalsDiff
    rw [h.flags.removeOwnPiece, h.pendingRemovals]
  have hwhite : whiteScore s' options weights = whiteScore s options weights := by
    unfold whiteScore
    rw [hweights, hfocus, hremovals, h.evalFeatures_eq hmobility, h.gameoverValue_eq, h.phase,
      h.pendingRemovals]
  unfold millScore
  rw [hwhite, h.sideToMove]

end StateImage

/-! ## One step -/

theorem SameButKey.stateImage {u u' v v' : MillState} (hv : SameButKey v u)
    (hv' : SameButKey v' u') (h : StateImage t u u') : StateImage t v v' := by
  obtain ⟨key, rfl⟩ := hv
  obtain ⟨key', rfl⟩ := hv'
  exact { h with }

/-- The mill flag of a finished game may differ. -/
theorem StateImage.dropFlag {u u' : MillState} (h : StateImage t u u')
    (hover : u.phase = .gameOver) (b b' : Bool) :
    StateImage t (u.setMillAvailableAtRemoval b) (u'.setMillAvailableAtRemoval b') :=
  { h with
    flags := { h.flags with }
    millAvailable := fun hrun => absurd hover hrun }

/-- How long ago the last capture or placement was, after a general step. -/
theorem applyGeneral_ply (hinv : StateInv r.options s) (hturn : TurnInv s c) {a : Action}
    (hstep : LegalStep r.options s c a) (adjudicate : Bool) :
    (r.applyGeneral s a adjudicate).plySinceCapture
      = if a.kindTag = MillActionKind.move.toI16 then
        (bumpPlySinceCapture s r.options).plySinceCapture
        else 0 := by
  obtain ⟨p, hwritten, hdone⟩ := applyGeneral_done r hinv hturn hstep adjudicate
  rw [hdone.keeps.plySinceCapture]
  cases hwritten with
  | place n => rfl
  | move source target history _ => rfl
  | remove n mark k owed flags _ => rfl

/-- How long ago the last capture or placement was, after any step. -/
theorem applyToStateUnchecked_plySinceCapture (hinv : StateInv r.options s) (hturn : TurnInv s c)
    {a : Action} (hstep : LegalStep r.options s c a) (adjudicate : Bool) :
    (r.applyToStateUnchecked s a adjudicate).plySinceCapture
      = if a.kindTag = MillActionKind.move.toI16 then
        (bumpPlySinceCapture s r.options).plySinceCapture
        else 0 := by
  rw [← applyGeneral_ply hinv hturn hstep adjudicate]
  rcases applyToStateUnchecked_cases r hinv hturn hstep adjudicate with
    ⟨⟨key, heq⟩, -⟩ | ⟨-, -, ⟨key, heq⟩, -, -⟩
  · rw [heq]
  · rw [heq]
    rfl

/-- The fast paths keep the image: one of them may drop the mill flag of a game it ends. -/
theorem StateImage.unchecked {a a' : Action} {adjudicate adjudicate' : Bool} {c' : Side}
    (h : StateImage t (r.applyGeneral s a adjudicate) (r.applyGeneral s' a' adjudicate'))
    (hinv : StateInv r.options s) (hinv' : StateInv r.options s') (hturn : TurnInv s c)
    (hturn' : TurnInv s' c') (hstep : LegalStep r.options s c a)
    (hstep' : LegalStep r.options s' c' a') :
    StateImage t (r.applyToStateUnchecked s a adjudicate)
      (r.applyToStateUnchecked s' a' adjudicate') := by
  rcases applyToStateUnchecked_cases r hinv hturn hstep adjudicate with
    ⟨hsame, -⟩ | ⟨-, -, hsame, -, hover⟩
  · rcases applyToStateUnchecked_cases r hinv' hturn' hstep' adjudicate' with
      ⟨hsame', -⟩ | ⟨-, -, hsame', -, hover'⟩
    · exact hsame.stateImage hsame' h
    · rw [h.phase] at hover'
      exact hsame.stateImage hsame' (h.dropFlag hover'
        (r.applyGeneral s a adjudicate).flags.millAvailableAtRemoval false)
  · rcases applyToStateUnchecked_cases r hinv' hturn' hstep' adjudicate' with
      ⟨hsame', -⟩ | ⟨-, -, hsame', -, -⟩
    · exact hsame.stateImage hsame' (h.dropFlag hover false
        (r.applyGeneral s' a' adjudicate').flags.millAvailableAtRemoval)
    · exact hsame.stateImage hsame' (h.dropFlag hover false false)

/-- Two sound presentations of one state. -/
structure Presents (r : MillRules) (adjudicate : Bool) (t : BoardTransform) (s s' : MillState) :
    Prop where
  image : StateImage t s s'
  source : StateInv r.options s
  target : StateInv r.options s'
  clock : SameClock r.options adjudicate s s'

namespace Presents

variable {a : Action}

theorem legal_iff (h : Presents r adjudicate t s s') (a : Action) :
    LegalAction s' r.options (transformAction t a) ↔ LegalAction s r.options a :=
  (h.image.legalImage r.options).legalAction_iff a

/-- **A legal action and its image keep the presentations together.** -/
theorem apply (h : Presents r adjudicate t s s') (ha : LegalAction s r.options a) :
    Presents r adjudicate t (r.applyToStateUnchecked s a adjudicate)
      (r.applyToStateUnchecked s' (transformAction t a) adjudicate) := by
  have ha' := (h.legal_iff a).2 ha
  obtain ⟨c, hturn, hstep⟩ := h.source.legalStep ha
  obtain ⟨c', hturn', hstep'⟩ := h.target.legalStep ha'
  obtain rfl : c' = c :=
    Side.toI8_injective (hturn'.active.symm.trans (h.image.sideToMove.trans hturn.active))
  have hgeneral := h.image.applyGeneral h.source h.target hturn hturn' hstep h.clock
  refine
    { image := hgeneral.unchecked h.source h.target hturn hturn' hstep hstep'
      source := applyToStateUnchecked_inv r h.source ha adjudicate
      target := applyToStateUnchecked_inv r h.target ha' adjudicate
      clock := fun hadjudicate => ⟨(h.clock hadjudicate).1, ?_⟩ }
  have hply := (h.clock hadjudicate).2
  rw [applyToStateUnchecked_plySinceCapture h.source hturn hstep,
    applyToStateUnchecked_plySinceCapture h.target hturn' hstep']
  unfold bumpPlySinceCapture
  rw [h.image.isMoveCountingPhase_eq, hply]
  rfl

/-- Every legal action of the image is the image of a legal action. -/
theorem legal_onto (h : Presents r adjudicate t s s') {a' : Action}
    (ha' : LegalAction s' r.options a') :
    ∃ a, LegalAction s r.options a ∧ a' = transformAction t a := by
  have hform : ∃ a, a' = transformAction t a := by
    obtain ⟨c, -, hstep⟩ := h.target.legalStep ha'
    cases hstep with
    | place n =>
      exact ⟨placeAction ((nodePerm t).symm n), by
        rw [transformAction_place, Equiv.apply_symm_apply]⟩
    | move source target =>
      exact ⟨moveAction ((nodePerm t).symm source) ((nodePerm t).symm target), by
        rw [transformAction_move, Equiv.apply_symm_apply, Equiv.apply_symm_apply]⟩
    | remove n =>
      exact ⟨removeAction ((nodePerm t).symm n), by
        rw [transformAction_remove, Equiv.apply_symm_apply]⟩
  obtain ⟨a, rfl⟩ := hform
  exact ⟨a, (h.legal_iff a).1 ha', rfl⟩

theorem mobilityDiff_eq (h : Presents r adjudicate t s s') : s'.mobilityDiff = s.mobilityDiff := by
  rw [h.target.position.mobility, h.source.position.mobility, h.image.position.mobilityTerm_eq]

end Presents

/-! ## Lines of play -/

/-- A line of the search: each action is legal where the search applies it. -/
def SearchLine (r : MillRules) (s : MillState) (line : List Action) : Prop :=
  Run.Every r.applySearchToState (fun s a => LegalAction s r.options a) s line

/-- **The search cannot tell a state from its image.** -/
theorem Presents.searchLine (h : Presents r false t s s') (line : List Action) :
    (SearchLine r s' (line.map (transformAction t)) ↔ SearchLine r s line)
      ∧ (SearchLine r s line → Presents r false t (Run.last r.applySearchToState s line)
          (Run.last r.applySearchToState s' (line.map (transformAction t)))) :=
  Run.bisimilar (R := Presents r false t) (fun _ _ a hs => hs.legal_iff a)
    (fun _ _ _ hs ha => hs.apply ha) h line

/-! ## The value of a position -/

theorem terminalScore_image {wb wb' : MillWorkbench} (h : StateImage t wb.state wb'.state)
    (player depth : Int) :
    MillGame.terminalScore wb' player depth = MillGame.terminalScore wb player depth := by
  unfold MillGame.terminalScore
  rw [h.phase, h.winner, h.outcomeReason]

/-- The maximum depends on the members only. -/
theorem max?_congr {l l' : List Int} (h : ∀ x, x ∈ l ↔ x ∈ l') : l.max? = l'.max? := by
  have hnone : l.max? = none ↔ l'.max? = none := by
    rw [List.max?_eq_none_iff, List.max?_eq_none_iff, List.eq_nil_iff_forall_not_mem,
      List.eq_nil_iff_forall_not_mem]
    simp only [h]
  cases hmax : l.max? with
  | none => exact (hnone.1 hmax).symm
  | some m =>
    rw [List.max?_eq_some_iff] at hmax
    exact (List.max?_eq_some_iff.2 ⟨(h m).1 hmax.1, fun x hx => hmax.2 x ((h x).2 hx)⟩).symm

/-- **A position and its image are worth the same**, at every depth and under every order of the
moves. -/
theorem minimaxPlies_image {weights : MillEvalWeights} {reset reset' : Bool}
    {ctx ctx' : MoveOrderContext} (n : Nat) {wb wb' : MillWorkbench} (hrules : wb.rules = r)
    (hrules' : wb'.rules = r) (h : Presents r false t wb.state wb'.state) :
    Searcher.minimaxPlies (MillGame.game weights reset') ctx' n wb'
      = Searcher.minimaxPlies (MillGame.game weights reset) ctx n wb := by
  have hscore : ∀ {v v' : MillWorkbench}, v.rules = r → v'.rules = r →
      Presents r false t v.state v'.state →
      (MillGame.game weights reset').score v' = (MillGame.game weights reset).score v := by
    intro v v' hv hv' himage
    change millScore v'.state v'.rules.options weights = millScore v.state v.rules.options weights
    rw [hv, hv']
    exact himage.image.millScore_eq himage.mobilityDiff_eq
  induction n generalizing wb wb' with
  | zero =>
    unfold Searcher.minimaxPlies Searcher.horizonValue
    rw [hscore hrules hrules' h]
    change (MillGame.terminalScore wb' wb'.state.sideToMove 0).getD _
      = (MillGame.terminalScore wb wb.state.sideToMove 0).getD _
    rw [terminalScore_image h.image, h.image.sideToMove]
  | succ n ih =>
    unfold Searcher.minimaxPlies
    rw [hscore hrules hrules' h]
    have hterminal : ∀ depth, (MillGame.game weights reset').terminalScore wb'
          ((MillGame.game weights reset').sideToMove wb') depth
        = (MillGame.game weights reset).terminalScore wb
          ((MillGame.game weights reset).sideToMove wb) depth := by
      intro depth
      change MillGame.terminalScore wb' wb'.state.sideToMove depth
        = MillGame.terminalScore wb wb.state.sideToMove depth
      rw [terminalScore_image h.image, h.image.sideToMove]
    rw [hterminal]
    -- the moves of the image are the images of the moves, and each pair is worth the same
    have hchild : ∀ a, LegalAction wb.state r.options a →
        Searcher.perspective wb'.state.sideToMove (wb'.push (transformAction t a)).state.sideToMove
            (Searcher.minimaxPlies (MillGame.game weights reset') ctx' n
              (wb'.push (transformAction t a)))
          = Searcher.perspective wb.state.sideToMove (wb.push a).state.sideToMove
              (Searcher.minimaxPlies (MillGame.game weights reset) ctx n (wb.push a)) := by
      intro a ha
      have happly := h.apply ha
      have hpush : Presents r false t (wb.push a).state
          (wb'.push (transformAction t a)).state := by
        unfold MillWorkbench.push MillRules.applySearchToState
        rw [hrules, hrules']
        exact happly
      have hnext : (wb.push a).rules = r := hrules
      have hnext' : (wb'.push (transformAction t a)).rules = r := hrules'
      rw [ih hnext hnext' hpush, h.image.sideToMove, hpush.image.sideToMove]
    have hvalues : ∀ x,
        x ∈ (MillGame.legalPushes wb' ctx').map (fun a =>
            Searcher.perspective wb'.state.sideToMove (wb'.push a).state.sideToMove
              (Searcher.minimaxPlies (MillGame.game weights reset') ctx' n (wb'.push a)))
          ↔ x ∈ (MillGame.legalPushes wb ctx).map (fun a =>
            Searcher.perspective wb.state.sideToMove (wb.push a).state.sideToMove
              (Searcher.minimaxPlies (MillGame.game weights reset) ctx n (wb.push a))) := by
      intro x
      simp only [List.mem_map, mem_legalPushes, hrules, hrules']
      constructor
      · intro hx
        obtain ⟨a', ha', rfl⟩ := hx
        obtain ⟨a, ha, rfl⟩ := h.legal_onto ha'
        exact ⟨a, ha, (hchild a ha).symm⟩
      · intro hx
        obtain ⟨a, ha, rfl⟩ := hx
        exact ⟨transformAction t a, (h.legal_iff a).2 ha, hchild a ha⟩
    have hmax := max?_congr hvalues
    cases (MillGame.game weights reset).terminalScore wb
      ((MillGame.game weights reset).sideToMove wb) _ with
    | some score => rfl
    | none => exact congrArg (fun best : Option Int => best.getD _) hmax

theorem capturesImage_none (t : BoardTransform) : CapturesImage t {} {} where
  custodianTargets _ := nodeImage_zero t
  interventionTargets _ := nodeImage_zero t
  leapTargets _ := nodeImage_zero t
  custodianCount := rfl
  interventionCount := rfl
  leapCount := rfl
  pair _ := countOnes_zero_le

/-- The empty board is its own image. -/
theorem initial_presents (r : MillRules) (t : BoardTransform)
    (hoff : adjudicate = true → r.options.threefoldRepetitionRule = false) :
    Presents r adjudicate t (initialMillState r) (initialMillState r) where
  image :=
    { position :=
        { board := fun _ => rfl
          color := fun _ => nodeImage_zero t
          marks := nodeImage_zero t
          inHand := rfl
          onBoard := rfl }
      captures := capturesImage_none t
      sideToMove := rfl
      phase := rfl
      action := rfl
      pendingRemovals := rfl
      flags := ⟨rfl, rfl, rfl, rfl⟩
      millAvailable := fun _ => rfl
      winner := rfl
      outcomeReason := rfl
      lastMillFrom := fun _ => transformI8_neg_one.symm
      lastMillTo := fun _ => transformI8_neg_one.symm
      formedMillsBb := fun _ => nodeImage_zero t }
  source := initialMillState_inv r
  target := initialMillState_inv r
  clock hadjudicate := ⟨hoff hadjudicate, rfl⟩

/-- **The search is symmetric.** From the empty board a line of the search is legal exactly when
its image is; the two end in images of each other, which are worth the same at every depth. -/
theorem search_symmetric (r : MillRules) (t : BoardTransform) (line : List Action) :
    let start := initialMillState r
    let image := line.map (transformAction t)
    let last := Run.last r.applySearchToState start line
    let last' := Run.last r.applySearchToState start image
    (SearchLine r start image ↔ SearchLine r start line)
      ∧ (SearchLine r start line →
        StateImage t last last'
          ∧ (∀ a, LegalAction last' r.options (transformAction t a) ↔ LegalAction last r.options a)
          ∧ ∀ weights reset reset' ctx ctx' n stack stack',
            Searcher.minimaxPlies (MillGame.game weights reset') ctx' n ⟨r, last', stack'⟩
              = Searcher.minimaxPlies (MillGame.game weights reset) ctx n ⟨r, last, stack⟩) := by
  have hstart : Presents r false t (initialMillState r) (initialMillState r) :=
    initial_presents r t (fun h => absurd h Bool.false_ne_true)
  obtain ⟨hlegal, hend⟩ := hstart.searchLine line
  refine ⟨hlegal, fun hline => ?_⟩
  have hlast := hend hline
  exact ⟨hlast.image, hlast.legal_iff, fun _ _ _ _ _ n _ _ => minimaxPlies_image n rfl rfl hlast⟩

end Sanmill
