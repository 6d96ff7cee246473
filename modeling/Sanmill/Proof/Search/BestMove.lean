import Sanmill.Mill.MoveOrder
import Sanmill.Proof.Search.Mcts

/-!
# When a root search has a move

A root search answers "no move" exactly at a root that is finished or leaves the player
without moves, whatever the depth, the table and the abort do: every root loop starts with a
legal move and only ever exchanges it for another one.
-/

namespace Sanmill

/-- What the search relies on in its game: moves can be taken back and are not the null
action, and whether a position is finished does not depend on the depth. -/
structure Game.Playable {W : Type} (g : Game W) : Prop where
  reversible : g.Reversible
  real : ∀ wb ctx, ∀ a ∈ g.generateLegalCtx wb ctx, a.isNone = false
  finished : ∀ wb player depth depth',
    (g.terminalScore wb player depth).isSome = (g.terminalScore wb player depth').isSome

namespace Searcher

variable {W : Type} {g : Game W}

/-- There is nothing to search at this root. -/
def RootFinished (g : Game W) (ctx : MoveOrderContext) (wb : W) : Prop :=
  (g.terminalScore wb (g.sideToMove wb) 0).isSome = true ∨ g.generateLegalCtx wb ctx = []

theorem rootFinished_of_terminal (hg : g.Playable) {ctx : MoveOrderContext} {wb : W}
    {depth score : Int}
    (h : g.terminalScore wb (g.sideToMove wb) depth = some score) : RootFinished g ctx wb := by
  left
  rw [hg.finished wb _ 0 depth, h]
  rfl

theorem not_rootFinished (hg : g.Playable) {ctx : MoveOrderContext} {wb : W} {depth : Int}
    {action : Action} (hterm : g.terminalScore wb (g.sideToMove wb) depth = none)
    (haction : action ∈ g.generateLegalCtx wb ctx) : ¬ RootFinished g ctx wb := by
  rintro (hsome | hnil)
  · rw [hg.finished wb _ 0 depth, hterm] at hsome
    cases hsome
  · rw [hnil] at haction
    cases haction

/-- The answer of the prologue, or what it hands on. -/
theorem rootStart_cases (hg : g.Playable) (shuffles : Bool) (depth : Int) (s : Searcher) (wb : W) :
    match rootStart g shuffles depth s wb with
    | .done result _ =>
      result.bestAction.isNone = true ↔ RootFinished g s.options.moveOrderContext wb
    | .moves moves t => ¬ RootFinished g s.options.moveOrderContext wb
      ∧ moves.headD .none ∈ g.generateLegalCtx wb s.options.moveOrderContext
      ∧ (∀ a ∈ moves, a ∈ g.generateLegalCtx wb s.options.moveOrderContext)
      ∧ t.options = s.options := by
  obtain ⟨hshuffled, rng, hstate⟩ := shuffleRootMoves_spec (s.beginRootSearchAt g wb) shuffles
    (g.generateLegalCtx wb s.options.moveOrderContext)
  have hcontext : (s.beginRootSearchAt g wb).options.moveOrderContext
      = s.options.moveOrderContext := rfl
  unfold rootStart
  simp only [hcontext]
  cases hterm : g.terminalScore wb (g.sideToMove wb) depth with
  | some score => exact iff_of_true rfl (rootFinished_of_terminal hg hterm)
  | none =>
    simp only
    rw [hstate]
    -- the root moves are the legal ones in another order
    have hperm := (orderMoves_perm g { s.beginRootSearchAt g wb with rngState := rng } wb (g.key wb)
      ((s.beginRootSearchAt g wb).shuffleRootMoves shuffles
        (g.generateLegalCtx wb s.options.moveOrderContext)).1).trans hshuffled
    generalize orderMoves g { s.beginRootSearchAt g wb with rngState := rng } wb (g.key wb)
      ((s.beginRootSearchAt g wb).shuffleRootMoves shuffles
        (g.generateLegalCtx wb s.options.moveOrderContext)).1 = moves at hperm
    cases moves with
    | nil => exact iff_of_true rfl (Or.inr hperm.nil_eq.symm)
    | cons action rest =>
      have hmem : ∀ a ∈ action :: rest, a ∈ g.generateLegalCtx wb s.options.moveOrderContext :=
        fun a ha => hperm.mem_iff.1 ha
      have haction := hmem action List.mem_cons_self
      have hlive := not_rootFinished hg hterm haction
      -- a single legal move is answered at once, and it is a real move
      cases rest with
      | nil =>
        refine iff_of_false ?_ hlive
        rw [hg.real wb _ action haction]
        exact Bool.false_ne_true
      | cons other rest => exact ⟨hlive, haction, hmem, rfl⟩

/-! ## The root loops -/

theorem searchLoop_answer {child : WindowSearch W} {rootKey : BitVec 64} {moves : List Action}
    {best score : Int} {act bestAction : Action} {s s' : Searcher} {wb wb' : W}
    (hrun : searchLoop g child rootKey moves best act s wb = some ((score, bestAction), s', wb')) :
    bestAction = act ∨ bestAction ∈ moves := by
  induction moves generalizing best act s wb with
  | nil =>
    obtain ⟨⟨-, rfl⟩, -, -⟩ := by simpa [searchLoop] using hrun
    exact Or.inl rfl
  | cons action rest ih =>
    unfold searchLoop at hrun
    simp only at hrun
    split at hrun
    · obtain ⟨⟨-, rfl⟩, -, -⟩ := by simpa using hrun
      exact Or.inl rfl
    split at hrun
    · cases hrun
    split at hrun
    · rcases ih hrun with rfl | hmem
      · exact Or.inr List.mem_cons_self
      · exact Or.inr (List.mem_cons_of_mem _ hmem)
    · exact (ih hrun).imp_right (List.mem_cons_of_mem _)

/-- **Plain alpha-beta** has a move unless the root is finished. -/
theorem search_finds (hg : g.Playable) {fuel : Nat} {s s' : Searcher} {wb wb' : W} {depth : Int}
    {result : SearchResult} (hrun : search g fuel s wb depth = some (result, s', wb')) :
    result.bestAction.isNone = true ↔ RootFinished g s.options.moveOrderContext wb := by
  have hstart := rootStart_cases hg true depth s wb
  unfold search at hrun
  split at hrun
  · rename_i hdone
    rw [hdone] at hstart
    obtain ⟨rfl, -, -⟩ := by simpa using hrun
    exact hstart
  · rename_i moves t hmoves
    rw [hmoves] at hstart
    obtain ⟨hlive, hhead, hmem, -⟩ := hstart
    obtain ⟨⟨⟨w, move⟩, x, xb⟩, hloop, heq⟩ := Option.map_eq_some_iff.1 hrun
    obtain ⟨rfl, -, -⟩ := by simpa using heq
    refine iff_of_false ?_ hlive
    have hlegal : move ∈ g.generateLegalCtx wb s.options.moveOrderContext := by
      rcases searchLoop_answer hloop with rfl | hmove
      · exact hhead
      · exact hmem _ hmove
    rw [hg.real wb _ move hlegal]
    exact Bool.false_ne_true

theorem mtdfRootLoop_answer {child : WindowSearch W} (hrestore : Restores child)
    {rootKey : BitVec 64} {beta : Int} {moves : List Action} {alpha best v : Int}
    {action bestAction : Action} {s s' : Searcher} {wb wb' : W}
    (hundo : ∀ a ∈ moves, g.undoMove (g.doMove wb a) = wb)
    (hrun : mtdfRootLoop g child rootKey beta moves alpha best action s wb
      = some ((v, bestAction), s', wb')) :
    Kept s s' ∧ wb' = wb ∧ (bestAction = action ∨ bestAction ∈ moves) := by
  induction moves generalizing alpha best action s with
  | nil =>
    obtain ⟨⟨-, rfl⟩, rfl, rfl⟩ := by simpa [mtdfRootLoop] using hrun
    exact ⟨Kept.refl s, rfl, Or.inl rfl⟩
  | cons move rest ih =>
    unfold mtdfRootLoop at hrun
    rcases hcheck : s.checkAbort best action with ⟨stop, t⟩
    obtain ⟨-, hkept⟩ := checkAbort_cases s hcheck
    simp only [hcheck] at hrun
    split at hrun
    · obtain ⟨⟨-, rfl⟩, rfl, rfl⟩ := by simpa using hrun
      exact ⟨hkept, rfl, Or.inl rfl⟩
    split at hrun
    · cases hrun
    rename_i score x xb hmove
    obtain ⟨hsub, hxb, -⟩ := searchRootMove_cases (searchAfterMove_restoresChild hrestore _ _)
      (hundo move List.mem_cons_self) hmove
    subst xb
    have hhead := hkept.trans (hsub.trans
      (Kept.recordRootMove x move score (x.nodes - t.nodes) (decide (beta ≤ score))))
    generalize x.recordRootMove move score (x.nodes - t.nodes) (decide (beta ≤ score)) = y
      at hrun hhead
    have hrest : ∀ a ∈ rest, g.undoMove (g.doMove wb a) = wb := fun a ha =>
      hundo a (List.mem_cons_of_mem _ ha)
    -- a move that raises alpha becomes the answer, any other leaves it
    split at hrun
    · have hnote := hhead.trans (Kept.note y (.chosen move score y.struck))
      split at hrun
      · obtain ⟨⟨-, rfl⟩, rfl, rfl⟩ := by simpa using hrun
        exact ⟨hnote, rfl, Or.inr List.mem_cons_self⟩
      · obtain ⟨hloop, hwb, hbest⟩ := ih hrest hrun
        refine ⟨hnote.trans hloop, hwb, Or.inr ?_⟩
        rcases hbest with rfl | hmem
        · exact List.mem_cons_self
        · exact List.mem_cons_of_mem _ hmem
    · obtain ⟨hloop, hwb, hbest⟩ := ih hrest hrun
      exact ⟨hhead.trans hloop, hwb, hbest.imp_right (List.mem_cons_of_mem _)⟩

/-- One probe keeps the move or exchanges it for a legal one. -/
theorem mtdfRootTraced_answer (law : g.Reversible) {fuel : Nat} {depth beta v : Int}
    {action bestAction : Action} {s s' : Searcher} {wb wb' : W}
    (hrun : mtdfRootTraced g fuel depth beta action s wb = some ((v, bestAction), s', wb')) :
    Kept s s' ∧ wb' = wb
      ∧ (bestAction = action ∨ bestAction ∈ g.generateLegalCtx wb s.options.moveOrderContext) := by
  -- from the generation of the moves on, whatever the probe left of the window
  have key : ∀ {t : Searcher} {ttMove : Option Action} {alpha beta' oldAlpha : Int}, Kept s t →
      ((mtdfRootLoop g (alphaBeta g fuel (depth - 1)) (g.key wb) beta'
        (promoteRootPvMove (t.orderMovesWithTtMove g wb (g.key wb)
          (g.generateLegalCtx wb t.options.moveOrderContext) ttMove) action)
        alpha (i32Min + 1) action t wb).map fun found =>
          (found.1, found.2.1.closed.saveTt g (g.key wb) depth found.1.1
            (boundOf found.1.1 oldAlpha beta') found.1.2, found.2.2))
        = some ((v, bestAction), s', wb') →
      Kept s s' ∧ wb' = wb
        ∧ (bestAction = action ∨ bestAction
          ∈ g.generateLegalCtx wb s.options.moveOrderContext) := by
    intro t ttMove alpha beta' oldAlpha hready hrun
    have hperm := (promoteRootPvMove_perm (t.orderMovesWithTtMove g wb (g.key wb)
        (g.generateLegalCtx wb t.options.moveOrderContext) ttMove) action).trans
      (orderMovesWithTtMove_perm g t wb (g.key wb)
        (g.generateLegalCtx wb t.options.moveOrderContext) ttMove)
    obtain ⟨⟨⟨w, move⟩, x, xb⟩, hloop, heq⟩ := Option.map_eq_some_iff.1 hrun
    obtain ⟨⟨rfl, rfl⟩, rfl, rfl⟩ := by simpa using heq
    obtain ⟨hkept, hwb, hbest⟩ := mtdfRootLoop_answer (alphaBeta_restores law fuel _)
      (fun a ha => law.legal wb _ a (hperm.mem_iff.1 ha)) hloop
    have hsave := (Kept.closed x).trans
      (Kept.saveTt (g := g) x.closed (g.key wb) depth w (boundOf w oldAlpha beta') move)
    refine ⟨(hready.trans hkept).trans hsave, hwb, hbest.imp_right fun hmem => ?_⟩
    rw [← hready.options]
    exact hperm.mem_iff.1 hmem
  have hcount := Kept.countNode s
  unfold mtdfRootTraced at hrun
  simp only at hrun
  split at hrun
  · obtain ⟨⟨-, rfl⟩, rfl, rfl⟩ := by simpa using hrun
    exact ⟨hcount.trans (Kept.countTtHit _), rfl, Or.inl rfl⟩
  · split at hrun
    · exact key (((hcount.trans (Kept.countTtHit _)).trans (Kept.clearRootMoves _)).trans
        (Kept.opened _ .probe)) hrun
    · exact key (((hcount.trans (Kept.countTtMiss _ _)).trans (Kept.clearRootMoves _)).trans
        (Kept.opened _ .probe)) hrun

theorem mtdfLoop_answer (law : g.Reversible) {fuel probes : Nat} {depth guess lower upper v : Int}
    {action bestAction : Action} {s s' : Searcher} {wb wb' : W}
    (hrun : mtdfLoop (mtdfRootTraced g fuel depth) probes guess lower upper action s wb
      = some ((v, bestAction), s', wb')) :
    wb' = wb
      ∧ (bestAction = action ∨ bestAction ∈ g.generateLegalCtx wb s.options.moveOrderContext) := by
  induction probes generalizing guess lower upper action s with
  | zero => cases hrun
  | succ probes ih =>
    unfold mtdfLoop at hrun
    split at hrun
    · simp only at hrun
      split at hrun
      · cases hrun
      rename_i w move t tb hprobe
      obtain ⟨hkept, hwb, hmove⟩ := mtdfRootTraced_answer law hprobe
      subst tb
      split at hrun
      · obtain ⟨⟨-, rfl⟩, -, rfl⟩ := by simpa using hrun
        exact ⟨rfl, hmove⟩
      · obtain ⟨hwb, hbest⟩ := ih hrun
        rw [hkept.options] at hbest
        refine ⟨hwb, ?_⟩
        rcases hbest with rfl | hmem
        · exact hmove
        · exact Or.inr hmem
    · obtain ⟨⟨-, rfl⟩, -, rfl⟩ := by simpa using hrun
      exact ⟨rfl, Or.inl rfl⟩

/-- **MTD(f)** hands the workbench back, and has a move unless the root is finished. -/
theorem searchMtdfWithGuess_finds (hg : g.Playable) {fuel probes : Nat} {s s' : Searcher}
    {wb wb' : W} {depth guess : Int} {result : SearchResult}
    (hrun : searchMtdfWithGuess g fuel probes s wb depth guess = some (result, s', wb')) :
    wb' = wb
      ∧ (result.bestAction.isNone = true ↔ RootFinished g s.options.moveOrderContext wb) := by
  have hstart := rootStart_cases hg true depth s wb
  unfold searchMtdfWithGuess at hrun
  split at hrun
  · rename_i hdone
    rw [hdone] at hstart
    obtain ⟨rfl, -, rfl⟩ := by simpa using hrun
    exact ⟨rfl, hstart⟩
  · rename_i moves t hmoves
    rw [hmoves] at hstart
    obtain ⟨hlive, hhead, -, hoptions⟩ := hstart
    obtain ⟨⟨⟨w, move⟩, x, xb⟩, hloop, heq⟩ := Option.map_eq_some_iff.1 hrun
    obtain ⟨rfl, -, rfl⟩ := by simpa using heq
    obtain ⟨hwb, hbest⟩ := mtdfLoop_answer hg.reversible hloop
    refine ⟨hwb, iff_of_false ?_ hlive⟩
    have hlegal : move ∈ g.generateLegalCtx wb s.options.moveOrderContext := by
      rcases hbest with rfl | hmem
      · exact hhead
      · rwa [hoptions] at hmem
    rw [hg.real wb _ move hlegal]
    exact Bool.false_ne_true

end Searcher

end Sanmill
