import Mathlib.Data.List.Chain
import Sanmill.Mill.MoveOrder
import Sanmill.Proof.Generators

/-!
# A list is scored as its actions are

The batch scorer shares work between the actions of a list. Every loop pushes the score of one
action after another (`ScoreLoop.After`), a cached block score is the score it stands for, and
a list of the generator holds removals only or no removal. So each slot gets the score of its
action alone.
-/

namespace Sanmill

open Bits MillMoveOrderScorer

/-! ## The loop -/

/-- The loop has gone through the scores `l`. -/
structure ScoreLoop.After (loop : ScoreLoop) (l : List Int) : Prop where
  written : loop.written = l.map packMoveOrderScore
  last : l.getLast? = if loop.hasPrevious then some loop.previousScore else none
  needsSort : loop.needsSort = false ↔ l.IsChain fun a b => b ≤ a

namespace ScoreLoop

variable {loop : ScoreLoop} {l : List Int}

theorem After.start : ({} : ScoreLoop).After [] :=
  ⟨rfl, rfl, iff_of_true rfl List.isChain_nil⟩

theorem After.push (h : loop.After l) (score : Int) : (loop.push score).After (l ++ [score]) := by
  refine ⟨?_, ?_, ?_⟩
  · show loop.written ++ [packMoveOrderScore score] = _
    rw [h.written, List.map_append]
    rfl
  · rw [List.getLast?_concat]
    rfl
  · show (loop.needsSort || (loop.hasPrevious && decide (loop.previousScore < score))) = false ↔ _
    rw [Bool.or_eq_false_iff, h.needsSort, List.isChain_append, h.last]
    refine and_congr_right fun _ => ?_
    cases loop.hasPrevious <;> simp

theorem After.foldl {f : Action → Int} (actions : List Action) (h : loop.After l) :
    (actions.foldl (fun loop action => loop.push (f action)) loop).After (l ++ actions.map f) := by
  induction actions generalizing loop l with
  | nil =>
    rw [List.map_nil, List.append_nil]
    exact h
  | cons action rest ih =>
    rw [List.foldl_cons, List.map_cons, List.append_cons]
    exact ih (h.push (f action))

/-- A cache that stays `Good` changes no score. -/
theorem foldl_cached {κ : Type} {step : κ → Action → Int × κ} {f : Action → Int}
    {Good : κ → Prop} {actions : List Action}
    (hstep : ∀ cache, ∀ a ∈ actions, Good cache → (step cache a).1 = f a ∧ Good (step cache a).2)
    (loop : ScoreLoop) {cache : κ} (hgood : Good cache) :
    (actions.foldl (fun (loop : ScoreLoop × κ) action =>
        (loop.1.push (step loop.2 action).1, (step loop.2 action).2)) (loop, cache)).1
      = actions.foldl (fun loop action => loop.push (f action)) loop := by
  induction actions generalizing loop cache with
  | nil => rfl
  | cons action rest ih =>
    obtain ⟨hscore, hnext⟩ := hstep cache action List.mem_cons_self hgood
    rw [List.foldl_cons, List.foldl_cons, hscore]
    exact ih (fun cache a ha => hstep cache a (List.mem_cons_of_mem _ ha)) _ hnext

end ScoreLoop

/-! ## The scores fit their slots -/

theorem packMoveOrderScore_eq {score : Int} (h : -100 ≤ score ∧ score ≤ 100) :
    packMoveOrderScore score = score := by
  unfold packMoveOrderScore
  exact Int.bmod_eq_of_le (by omega) (by omega)

theorem length_peerMasks_le (options : MillVariantOptions) (node : Node) :
    (millLinePeerMasksForNode options node).length ≤ 3 := by
  have htable : ∀ node : Node, (buildMillLinePeerMasksByNode diagonalMillLines node).length ≤ 3
      ∧ (buildMillLinePeerMasksByNode standardMillLines node).length ≤ 3 := by decide
  unfold millLinePeerMasksForNode millLines
  split
  · exact (htable node).1
  · exact (htable node).2

theorem potentialMillsCountStandardUnrestricted_le (colorBb : Bitboard) (target : Node)
    (source : Option Node) : potentialMillsCountStandardUnrestricted colorBb target source ≤ 3 := by
  have hslot (p : Prop) [Decidable p] : (if p then 1 else 0) ≤ 1 := by split <;> omega
  unfold potentialMillsCountStandardUnrestricted
  dsimp only
  exact (Nat.add_le_add (hslot _) (hslot _)).trans (by omega)

theorem potentialMillsCountAt_le (state : MillState) (options : MillVariantOptions)
    (target : Node) (side : Int) (source : Option Node) :
    potentialMillsCountAt state options target side source ≤ 3 := by
  unfold potentialMillsCountAt
  split
  · omega
  · dsimp only
    split
    · exact potentialMillsCountStandardUnrestricted_le _ _ _
    · exact (List.countP_le_length).trans (length_peerMasks_le options target)

theorem countOnes_le_width (mask : Bitboard) : countOnes mask ≤ 32 :=
  countOnes_le_of_below mask 32 fun _ hi => testBit_lt hi

theorem removeMoveScore_bounds (state : MillState) (options : MillVariantOptions)
    (target : Node) :
    -100 ≤ removeMoveScore state options target ∧ removeMoveScore state options target ≤ 100 := by
  have hour := countOnes_le_width
    (neighborMaskFor target options.hasDiagonalLines &&& state.byColorBb
      (sideIndex state.sideToMove))
  have htheir := countOnes_le_width (neighborMaskFor target options.hasDiagonalLines
    &&& state.byColorBb (sideIndex state.sideToMove).opponent)
  have hempty := countOnes_le_width
    (neighborMaskFor target options.hasDiagonalLines &&& ~~~state.boardOccupiedBitboard)
  unfold removeMoveScore surroundedPiecesCount
  dsimp only
  split
  · omega
  · dsimp only
    repeat' split
    all_goals omega

theorem lineScore_bounds (scorer : MillMoveOrderScorer) (target : Node) {ourMills theirMills : Nat}
    (hour : ourMills ≤ 3) (htheir : theirMills ≤ 3) (canBlockMill starBonus : Bool) :
    -100 ≤ scorer.lineScore target ourMills theirMills canBlockMill starBonus
      ∧ scorer.lineScore target ourMills theirMills canBlockMill starBonus ≤ 100 := by
  unfold lineScore ratingOneMill ratingBlockOneMill ratingStarSquare
  dsimp only
  repeat' split
  all_goals omega

theorem nodeScores_bounds (scorer : MillMoveOrderScorer) (canFormMill canBlockMill : Bool)
    (target : Node) :
    -100 ≤ scorer.nodeScores canFormMill canBlockMill target
      ∧ scorer.nodeScores canFormMill canBlockMill target ≤ 100 := by
  have hours := potentialMillsCountStandardUnrestricted_le scorer.sideBb target none
  have htheirs := potentialMillsCountStandardUnrestricted_le scorer.opponentBb target none
  have hrating {ourMills theirMills : Nat} (hour : ourMills ≤ 3) (htheir : theirMills ≤ 3) :
      -100 ≤ (if ourMills > 0 then ratingOneMill * ourMills else ratingBlockOneMill * theirMills)
        ∧ (if ourMills > 0 then ratingOneMill * ourMills else ratingBlockOneMill * theirMills)
          ≤ 100 := by
    unfold ratingOneMill ratingBlockOneMill
    split <;> omega
  cases canFormMill with
  | false => cases canBlockMill <;> exact hrating (Nat.zero_le 3) htheirs
  | true =>
    cases canBlockMill with
    | false => exact hrating hours (Nat.zero_le 3)
    | true => exact hrating hours htheirs

theorem score_bounds (scorer : MillMoveOrderScorer) (action : Action) :
    -100 ≤ scorer.score action ∧ scorer.score action ≤ 100 := by
  have hcapped {n : Nat} (p : Prop) [Decidable p] (hn : n ≤ 3) : (if p then n else 0) ≤ 3 := by
    split <;> omega
  unfold score
  split
  · omega
  split
  · exact removeMoveScore_bounds _ _ _
  split
  · omega
  split
  · omega
  dsimp only
  generalize (if decide (action.kindTag = MillActionKind.place.toI16) = true
    then decide (scorer.sidePieceCount ≥ 2) else decide (scorer.sidePieceCount ≥ 3)) = canFormMill
  split
  · -- a placement on the standard board
    split
    · omega
    · exact nodeScores_bounds scorer canFormMill _ _
  split
  · exact lineScore_bounds _ _ (hcapped _ (potentialMillsCountStandardUnrestricted_le _ _ _))
      (potentialMillsCountStandardUnrestricted_le _ _ _) _ _
  · exact lineScore_bounds _ _ (hcapped _ (potentialMillsCountAt_le _ _ _ _ _))
      (potentialMillsCountAt_le _ _ _ _ _) _ _

/-! ## The kinds of a generated list -/

section Kinds

variable {s : MillState} {options : MillVariantOptions} {a b : Action}

theorem LegalAction.isValidSide (h : LegalAction s options a) :
    isValidSide s.sideToMove = true := by
  have hside : s.sideToMove = 0 ∨ s.sideToMove = 1 := by
    refine side_of_actionForLegalGeneration fun hover => ?_
    unfold LegalAction at h
    rw [hover] at h
    exact h
  unfold Sanmill.isValidSide
  rcases hside with h | h <;> rw [h] <;> rfl

/-- Removals are generated alone. -/
theorem LegalAction.remove_iff (ha : LegalAction s options a) (hb : LegalAction s options b) :
    a.kindTag = MillActionKind.remove.toI16 ↔ b.kindTag = MillActionKind.remove.toI16 := by
  have hmove : MillActionKind.move.toI16 ≠ MillActionKind.remove.toI16 := by decide
  have hplace : MillActionKind.place.toI16 ≠ MillActionKind.remove.toI16 := by decide
  have hkind : ∀ c, LegalAction s options c →
      (c.kindTag = MillActionKind.remove.toI16 ↔ s.actionForLegalGeneration = .remove) := by
    intro c hc
    unfold LegalAction at hc
    cases haction : s.actionForLegalGeneration with
    | remove =>
      rw [haction] at hc
      obtain ⟨-, target, rfl, -⟩ := hc
      exact iff_of_true rfl rfl
    | place =>
      rw [haction] at hc
      rcases hc with ⟨target, rfl, -⟩ | ⟨-, source, target, rfl, -⟩
      · exact iff_of_false hplace MillActionState.noConfusion
      · exact iff_of_false hmove MillActionState.noConfusion
    | select =>
      rw [haction] at hc
      obtain ⟨-, source, target, rfl, -⟩ := hc
      exact iff_of_false hmove MillActionState.noConfusion
    | gameOver =>
      rw [haction] at hc
      exact hc.elim
  rw [hkind a ha, hkind b hb]

/-- While placing without board moves, what is no removal is a placement. -/
theorem LegalAction.place_of_placing (h : LegalAction s options a) (hphase : s.phase = .placing)
    (hmay : options.mayMoveInPlacingPhase = false)
    (hkind : a.kindTag ≠ MillActionKind.remove.toI16) :
    a.kindTag = MillActionKind.place.toI16 := by
  unfold LegalAction at h
  split at h
  · obtain ⟨-, target, rfl, -⟩ := h
    exact absurd rfl hkind
  · rcases h with ⟨target, rfl, -⟩ | ⟨hmoves, -⟩
    · rfl
    · rw [hmay] at hmoves
      exact absurd hmoves Bool.false_ne_true
  · rw [hphase] at h
    exact absurd h.1 MillPhase.noConfusion
  · exact h.elim

/-- In the moving phase, what is no removal is a move. -/
theorem LegalAction.move_of_moving (h : LegalAction s options a) (hphase : s.phase = .moving)
    (hkind : a.kindTag ≠ MillActionKind.remove.toI16) :
    a.kindTag = MillActionKind.move.toI16 := by
  unfold LegalAction at h
  split at h
  · obtain ⟨-, target, rfl, -⟩ := h
    exact absurd rfl hkind
  · rename_i haction
    -- no placement is generated in this phase
    unfold MillState.actionForLegalGeneration MillState.syncedAction at haction
    rw [hphase] at haction
    repeat' split at haction
    all_goals simp_all
  · obtain ⟨-, source, target, rfl, -⟩ := h
    rfl
  · exact h.elim

end Kinds

/-! ## Removals -/

theorem opponent_of_valid {side : Int} (h : isValidSide side = true) :
    sideIndex (xorOne side) = (sideIndex side).opponent := by
  have hside : side = 0 ∨ side = 1 := by
    unfold isValidSide at h
    have := of_decide_eq_true h
    omega
  rcases hside with rfl | rfl <;> rfl

theorem removeOrderScorer_score (state : MillState) (options : MillVariantOptions)
    (target : Node) :
    (MillRemoveOrderScorer.new state options).score target
      = removeMoveScore state options target := by
  cases hvalid : isValidSide state.sideToMove with
  | false => simp [MillRemoveOrderScorer.score, MillRemoveOrderScorer.new, removeMoveScore, hvalid]
  | true =>
    have hopponent := opponent_of_valid hvalid
    simp only [MillRemoveOrderScorer.score, MillRemoveOrderScorer.new, removeMoveScore,
      surroundedPiecesCount, neighborMaskFor, hvalid, hopponent, decide_eq_true_eq]
    rfl

/-! ## Placements and moves -/

section Pointwise

variable {scorer : MillMoveOrderScorer} {a : Action} {source target : Node}

theorem score_off_board (hto : boardNode? a.toNode = none) : scorer.score a = 0 := by
  unfold score
  rw [hto]

theorem score_remove (hto : boardNode? a.toNode = some target)
    (hkind : a.kindTag = MillActionKind.remove.toI16) :
    scorer.score a = removeMoveScore scorer.state scorer.options target := by
  unfold score
  rw [hto]
  exact if_pos hkind

theorem score_place (hto : boardNode? a.toNode = some target)
    (hkind : a.kindTag = MillActionKind.place.toI16) (hvalid : scorer.validSide = true)
    (hstandard : scorer.standardPlaceNoMove = true) :
    scorer.score a
      = if !decide (scorer.sidePieceCount ≥ 2) ∧ !decide (scorer.opponentPieceCount ≥ 2) then 0
        else scorer.nodeScores (scorer.sidePieceCount ≥ 2) (scorer.opponentPieceCount ≥ 2)
          target := by
  unfold score
  rw [hto, hkind, hvalid, hstandard]
  rfl

theorem boardNode?_emod {value : Int} (h : boardNode? value = some source) :
    boardNode? (value % 32) = some source := by
  have hrange : 0 ≤ value ∧ value < 24 := by
    unfold boardNode? at h
    split at h
    · assumption
    · exact absurd h (by simp)
  rwa [Int.emod_eq_of_lt hrange.1 (by omega)]

theorem score_move (hto : boardNode? a.toNode = some target)
    (hkind : a.kindTag = MillActionKind.move.toI16) (hvalid : scorer.validSide = true)
    (hstandard : scorer.standardNoDiagonalNoOneTime = true) :
    scorer.score a
      = scorer.lineScore target
          (if scorer.sidePieceCount ≥ 3 then
            potentialMillsCountStandardUnrestricted scorer.sideBb target
              (boardNode? (a.fromNode % 32)) else 0)
          (potentialMillsCountStandardUnrestricted scorer.opponentBb target none)
          (scorer.opponentPieceCount ≥ 2) scorer.algorithmIsMcts := by
  have hplace : MillActionKind.move.toI16 ≠ MillActionKind.place.toI16 := by decide
  unfold score
  rw [hto, hkind, hvalid, hstandard]
  simp only [hplace, decide_false, Bool.false_eq_true, decide_eq_true_eq,
    false_and, if_false, Bool.not_true, if_true]
  rfl

end Pointwise

/-! ## The cache of block scores -/

/-- The block score at `target`, computed afresh. -/
def freshBlockScore (opponentBb : Bitboard) (target : Node) : Int :=
  (standardMovingBlockScore (fun _ => standardBlockScoreUnknown) opponentBb target).1

/-- Every cached score is the one a fresh computation gives. -/
def BlockScoresSound (opponentBb : Bitboard) (cache : Node → Int) : Prop :=
  ∀ target, cache target = standardBlockScoreUnknown
    ∨ cache target = freshBlockScore opponentBb target

theorem standardMovingBlockScore_spec {opponentBb : Bitboard} {cache : Node → Int}
    (h : BlockScoresSound opponentBb cache) (target : Node) :
    (standardMovingBlockScore cache opponentBb target).1 = freshBlockScore opponentBb target
      ∧ BlockScoresSound opponentBb (standardMovingBlockScore cache opponentBb target).2 := by
  by_cases hcached : cache target = standardBlockScoreUnknown
  · have hout : standardMovingBlockScore cache opponentBb target
        = (freshBlockScore opponentBb target,
          setAt cache target (freshBlockScore opponentBb target)) := by
      unfold freshBlockScore standardMovingBlockScore
      rw [if_neg (not_not_intro hcached), if_neg (not_not_intro rfl)]
    rw [hout]
    refine ⟨rfl, fun other => ?_⟩
    by_cases hother : other = target
    · exact .inr (by rw [hother]; exact Function.update_self _ _ _)
    · have hkept : setAt cache target (freshBlockScore opponentBb target) other = cache other :=
        Function.update_of_ne hother _ _
      show setAt _ _ _ other = _ ∨ setAt _ _ _ other = _
      rw [hkept]
      exact h other
  · have hout : standardMovingBlockScore cache opponentBb target = (cache target, cache) := by
      unfold standardMovingBlockScore
      exact if_pos hcached
    rw [hout]
    exact ⟨(h target).resolve_left hcached, h⟩

section Moving

variable {wb : MillWorkbench} {ctx : MoveOrderContext}

/-- In the moving phase of the standard board the general score is the cached one. -/
theorem lineScore_moving (hvalid : (new wb ctx).validSide = true)
    (hstandard : (new wb ctx).standardNoDiagonalNoOneTime = true)
    (hphase : wb.state.phase = .moving) (target : Node) (ourMills : Nat)
    (canBlockMill starBonus : Bool) :
    (new wb ctx).lineScore target ourMills
        (potentialMillsCountStandardUnrestricted (new wb ctx).opponentBb target none)
        canBlockMill starBonus
      = if ourMills > 0 then ratingOneMill * ourMills
        else if canBlockMill then freshBlockScore (new wb ctx).opponentBb target else 0 := by
  have hdiagonal : wb.rules.options.hasDiagonalLines = false := by
    have hboth : (!wb.rules.options.hasDiagonalLines && !wb.rules.options.oneTimeUseMill) = true :=
      hstandard
    rw [Bool.and_eq_true, Bool.not_eq_true'] at hboth
    exact hboth.1
  have hside : isValidSide wb.state.sideToMove = true := hvalid
  have hstate : (new wb ctx).state = wb.state := rfl
  have hoptions : (new wb ctx).options = wb.rules.options := rfl
  have hopponent : (new wb ctx).opponentBb
      = wb.state.byColorBb (sideIndex wb.state.sideToMove).opponent := rfl
  unfold lineScore freshBlockScore standardMovingBlockScore surroundedPiecesCount
  rw [hstate, hoptions, hphase, hside, hdiagonal, hopponent]
  simp only [reduceCtorEq, false_and, if_false, true_or, and_true, ne_eq, not_true_eq_false,
    Bool.not_true, Bool.false_eq_true, neighborMaskFor]
  -- own mills come first; only without one does blocking count
  split
  · rfl
  split
  · split
    · rename_i hblock
      rw [if_neg (by omega), if_pos hblock.2]
    · rename_i hblock
      split
      · rfl
      · rw [if_neg fun hmatch => hblock ⟨by omega, hmatch⟩]
  · rfl

theorem scoreStandardMove_spec (hvalid : (new wb ctx).validSide = true)
    (hstandard : (new wb ctx).standardNoDiagonalNoOneTime = true)
    (hphase : wb.state.phase = .moving) {a : Action}
    (hkind : a.kindTag = MillActionKind.move.toI16) {cache : Node → Int}
    (hcache : BlockScoresSound (new wb ctx).opponentBb cache) :
    ((new wb ctx).scoreStandardMove ((new wb ctx).sidePieceCount ≥ 3)
        ((new wb ctx).opponentPieceCount ≥ 2) cache a).1 = (new wb ctx).score a
      ∧ BlockScoresSound (new wb ctx).opponentBb
          ((new wb ctx).scoreStandardMove ((new wb ctx).sidePieceCount ≥ 3)
            ((new wb ctx).opponentPieceCount ≥ 2) cache a).2 := by
  unfold scoreStandardMove
  split
  · rename_i target source hto hfrom
    rw [score_move hto hkind hvalid hstandard, lineScore_moving hvalid hstandard hphase,
      boardNode?_emod hfrom]
    simp only [decide_eq_true_eq]
    generalize (if (new wb ctx).sidePieceCount ≥ 3 then
      potentialMillsCountStandardUnrestricted (new wb ctx).sideBb target (some source) else 0)
      = ourMills
    split
    · exact ⟨rfl, hcache⟩
    split
    · exact standardMovingBlockScore_spec hcache target
    · exact ⟨rfl, hcache⟩
  · exact ⟨rfl, hcache⟩

/-! ## The batch -/

/-- The batch scores `actions` as each of them is scored alone. -/
structure ScoresPointwise (wb : MillWorkbench) (ctx : MoveOrderContext) (actions : List Action) :
    Prop where
  /-- The slots hold the single scores, or nothing is written and the single scores are equal. -/
  written : (MillGame.moveOrderScoresCtx wb actions ctx).1
        = actions.map (fun a => MillGame.moveOrderBiasCtx wb a ctx)
    ∨ MillGame.moveOrderScoresCtx wb actions ctx = ([], false)
      ∧ ∀ a ∈ actions, ∀ b ∈ actions,
          MillGame.moveOrderBiasCtx wb a ctx = MillGame.moveOrderBiasCtx wb b ctx
  needsSort : (MillGame.moveOrderScoresCtx wb actions ctx).2 = true ↔
    ∃ (i : Nat) (h : i + 1 < actions.length),
      MillGame.moveOrderBiasCtx wb actions[i] ctx < MillGame.moveOrderBiasCtx wb actions[i + 1] ctx

variable {actions : List Action}

theorem scoresPointwise_of_loop {f : Action → Int}
    (hout : MillGame.moveOrderScoresCtx wb actions ctx
      = (actions.foldl (fun loop a => loop.push (f a)) ({} : ScoreLoop)).finish)
    (hf : ∀ a ∈ actions, f a = MillGame.moveOrderBiasCtx wb a ctx) :
    ScoresPointwise wb ctx actions := by
  have hscores : actions.map f = actions.map fun a => MillGame.moveOrderBiasCtx wb a ctx :=
    List.map_congr_left hf
  have hrun := ScoreLoop.After.start.foldl (f := f) actions
  rw [List.nil_append, hscores] at hrun
  refine ⟨.inl ?_, ?_⟩
  · rw [hout]
    show ScoreLoop.written _ = _
    rw [hrun.written, List.map_map]
    exact List.map_congr_left fun a _ => packMoveOrderScore_eq (score_bounds _ a)
  · rw [hout]
    show ScoreLoop.needsSort _ = true ↔ _
    rw [← Bool.not_eq_false, hrun.needsSort, List.isChain_iff_getElem]
    simp only [List.length_map, List.getElem_map, not_forall, Int.not_le]

theorem scoresPointwise_of_zero (hout : MillGame.moveOrderScoresCtx wb actions ctx = ([], false))
    (hzero : ∀ a ∈ actions, MillGame.moveOrderBiasCtx wb a ctx = 0) :
    ScoresPointwise wb ctx actions := by
  refine ⟨.inr ⟨hout, fun a ha b hb => (hzero a ha).trans (hzero b hb).symm⟩, ?_⟩
  rw [hout]
  refine iff_of_false Bool.false_ne_true ?_
  rintro ⟨i, hi, hlt⟩
  rw [hzero _ (List.getElem_mem _), hzero _ (List.getElem_mem _)] at hlt
  exact lt_irrefl 0 hlt

/-- Only removals. -/
theorem scoresPointwise_removals
    (hout : MillGame.moveOrderScoresCtx wb actions ctx
      = scoreRemoveActions wb.state wb.rules.options actions)
    (hkinds : ∀ a ∈ actions, a.kindTag = MillActionKind.remove.toI16) :
    ScoresPointwise wb ctx actions := by
  refine scoresPointwise_of_loop hout fun a ha => ?_
  cases hto : boardNode? a.toNode with
  | none => exact (score_off_board hto).symm
  | some target =>
    have hscore : (new wb ctx).score a = removeMoveScore wb.state wb.rules.options target :=
      score_remove hto (hkinds a ha)
    exact (removeOrderScorer_score _ _ _).trans hscore.symm

/-- Only placements, on the standard board without board moves. -/
theorem scoresPointwise_placements
    (hout : MillGame.moveOrderScoresCtx wb actions ctx
      = (new wb ctx).scoreStandardPlaceNoMoveActions actions)
    (hstandard : (new wb ctx).standardPlaceNoMove = true)
    (hkinds : ∀ a ∈ actions, a.kindTag = MillActionKind.place.toI16)
    (hvalid : ∀ a ∈ actions, (new wb ctx).validSide = true) :
    ScoresPointwise wb ctx actions := by
  unfold scoreStandardPlaceNoMoveActions at hout
  dsimp only at hout
  split at hout
  · rename_i hfew
    refine scoresPointwise_of_zero hout fun a ha => ?_
    cases hto : boardNode? a.toNode with
    | none => exact score_off_board hto
    | some target =>
      exact (score_place hto (hkinds a ha) (hvalid a ha) hstandard).trans (if_pos hfew)
  · rename_i hsome
    refine scoresPointwise_of_loop hout fun a ha => ?_
    cases hto : boardNode? a.toNode with
    | none => rfl
    | some target =>
      have hscore := score_place hto (hkinds a ha) (hvalid a ha) hstandard
      rw [if_neg hsome] at hscore
      exact (if_pos (hkinds a ha)).trans hscore.symm

/-- Only moves, in the moving phase of the standard board. -/
theorem scoresPointwise_moves
    (hout : MillGame.moveOrderScoresCtx wb actions ctx
      = (new wb ctx).scoreStandardMovingActions actions)
    (hvalid : (new wb ctx).validSide = true)
    (hstandard : (new wb ctx).standardNoDiagonalNoOneTime = true)
    (hphase : wb.state.phase = .moving)
    (hkinds : ∀ a ∈ actions, a.kindTag = MillActionKind.move.toI16) :
    ScoresPointwise wb ctx actions := by
  unfold scoreStandardMovingActions at hout
  dsimp only at hout
  split at hout
  · rename_i hfew
    simp only [Bool.not_eq_true', decide_eq_false_iff_not] at hfew
    refine scoresPointwise_of_zero hout fun a ha => ?_
    cases hto : boardNode? a.toNode with
    | none => exact score_off_board hto
    | some target =>
      show (new wb ctx).score a = 0
      rw [score_move hto (hkinds a ha) hvalid hstandard, lineScore_moving hvalid hstandard hphase,
        if_neg hfew.1, decide_eq_false hfew.2]
      rfl
  · rw [ScoreLoop.foldl_cached (fun cache a ha hcache =>
      scoreStandardMove_spec hvalid hstandard hphase (hkinds a ha) hcache) _
      (fun _ => .inl rfl)] at hout
    exact scoresPointwise_of_loop hout fun a _ => rfl

/-- Only moves, or no standard board. -/
theorem scoresPointwise_actions
    (hout : MillGame.moveOrderScoresCtx wb actions ctx = (new wb ctx).scoreActions actions)
    (hlegal : ∀ a ∈ actions, LegalAction wb.state wb.rules.options a)
    (hkinds : ∀ a ∈ actions, a.kindTag ≠ MillActionKind.remove.toI16) :
    ScoresPointwise wb ctx actions := by
  unfold scoreActions at hout
  extract_lets startsWithMove at hout
  split at hout
  · rename_i hstandard
    have hplacing : wb.state.phase = .placing ∧ wb.rules.options.mayMoveInPlacingPhase = false := by
      obtain ⟨hphase, -, hmay, -⟩ := of_decide_eq_true hstandard
      exact ⟨hphase, by simpa using hmay⟩
    refine scoresPointwise_placements hout hstandard (fun a ha => ?_) fun a ha =>
      (hlegal a ha).isValidSide
    exact (hlegal a ha).place_of_placing hplacing.1 hplacing.2 (hkinds a ha)
  split at hout
  · rename_i hmoving
    obtain ⟨hstandard, hvalid, hphase, -⟩ := hmoving
    exact scoresPointwise_moves hout hvalid hstandard hphase fun a ha =>
      (hlegal a ha).move_of_moving hphase (hkinds a ha)
  · exact scoresPointwise_of_loop hout fun a _ => rfl

/-- Whatever list is made of legal actions of the state, in whatever order. -/
theorem scoresPointwise_of_legal (hlegal : ∀ a ∈ actions, LegalAction wb.state wb.rules.options a) :
    ScoresPointwise wb ctx actions := by
  cases actions with
  | nil =>
    exact scoresPointwise_actions rfl hlegal fun a ha => absurd ha List.not_mem_nil
  | cons first rest =>
    have hfirst := hlegal first List.mem_cons_self
    by_cases hremove : first.kindTag = MillActionKind.remove.toI16
    · refine scoresPointwise_removals (if_pos (decide_eq_true hremove)) fun a ha => ?_
      exact (hfirst.remove_iff (hlegal a ha)).1 hremove
    · refine scoresPointwise_actions (if_neg ?_) hlegal fun a ha hkind => hremove ?_
      · rw [Bool.not_eq_true]
        exact decide_eq_false hremove
      · exact (hfirst.remove_iff (hlegal a ha)).2 hkind

end Moving

/-! ## The lists of the generator -/

theorem mem_legalPushes (wb : MillWorkbench) (order : MoveOrderContext) (a : Action) :
    a ∈ MillGame.legalPushes wb order ↔ LegalAction wb.state wb.rules.options a :=
  mem_legalActionsWithPriority
    (fun n => (priorityForCtx_perm wb.rules.options order).mem_iff.2 (List.mem_finRange n)) a

theorem quiescencePushes_subset (wb : MillWorkbench) (order : MoveOrderContext) (kind : Int) :
    MillGame.quiescencePushes wb order kind ⊆ MillGame.legalPushes wb order := by
  by_cases hkind : kind = MillActionKind.remove.toI16
  · rw [hkind, quiescencePushes_remove]
    exact List.filter_subset_self _
  · have hpath : MillGame.hasRemovalPath wb kind = false := by
      unfold MillGame.hasRemovalPath
      exact decide_eq_false fun h => hkind h.1
    unfold MillGame.quiescencePushes
    rw [hpath]
    exact List.filter_subset_self _

/--
**A batch scores as single actions are scored.** A list of generated actions gets, slot by slot,
the score of each action alone; only where these are all equal may the buffer be left alone.
The flag says whether some action scores higher than the one before it.
-/
theorem moveOrderScoresCtx_pointwise (wb : MillWorkbench) (ctx order : MoveOrderContext)
    (actions : List Action)
    (h : actions ⊆ MillGame.legalPushes wb order
      ∨ ∃ kind, actions ⊆ MillGame.quiescencePushes wb order kind) :
    ScoresPointwise wb ctx actions := by
  refine scoresPointwise_of_legal fun a ha => (mem_legalPushes wb order a).1 ?_
  rcases h with hlegal | ⟨kind, hquiet⟩
  · exact hlegal ha
  · exact quiescencePushes_subset wb order kind (hquiet ha)

def millThreatBoard (node : Node) : Int :=
  if node ∈ ([0, 1, 6, 20] : List Node) then 1
  else if node ∈ ([4, 12, 17] : List Node) then 2
  else 0

/-- White to move, one step from a mill. -/
def millThreat : MillWorkbench :=
  { rules := ⟨{ mayFly := false }, by decide⟩
    state :=
      { board := millThreatBoard
        byColorBb := bitboardsFromBoard millThreatBoard 0
        piecesOnBoard := perSide 4 3
        phase := .moving
        action := .select }
    undoStack := [] }

/-- The theorem where one move completes a mill and the list is out of order. -/
theorem moveOrderScoresCtx_pointwise_millThreat :
    ScoresPointwise millThreat {} (MillGame.legalPushes millThreat {})
      ∧ MillGame.moveOrderScoresCtx millThreat (MillGame.legalPushes millThreat {}) {}
        = ([0, 0, 11, 0, 0, 0, 0, 0], true) :=
  ⟨moveOrderScoresCtx_pointwise millThreat {} {} _ (.inl (List.Subset.refl _)), by decide +kernel⟩

end Sanmill
