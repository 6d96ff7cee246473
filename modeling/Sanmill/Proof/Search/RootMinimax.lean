import Sanmill.Proof.Search.Minimax

/-!
# The roots find the best move

Plain alpha-beta and principal variation search scan the ordered root moves and
keep the first strict improvement. With exact reports the scan ends at the first
move of the list whose minimax value is the maximum.

Principal variation search gives a finished child to `terminal_score` with the
side that moved, not the side to move; the two agree only for a game whose
terminal score honours the player it is asked for (`HonoursPerspective`).

With plain settings a search of `n` plies nests `n` moves, so it comes back as
soon as the repetition stack has room for them and the fuel covers them, whatever
the table answers and whenever the abort comes. The room is real: the stack holds
128 ancestors, and a deeper search trips the assertion.
-/

namespace Sanmill

namespace Searcher

variable {W : Type} {g : Game W} {ctx : MoveOrderContext}

/-- A subtree search that comes back when the stack has `room` left. -/
def Returns (ctx : MoveOrderContext) (room : Nat) (search : WindowSearch W) : Prop :=
  ∀ alpha beta s wb, PlainSettings ctx s →
    s.repetitionStack.length + room ≤ repetitionStackCapacity →
    (search alpha beta s wb).isSome

theorem searchAfterMove_returns {room : Nat} {search : WindowSearch W}
    (h : Returns ctx room search) {s : Searcher} (hplain : PlainSettings ctx s)
    (hroom : s.repetitionStack.length + room ≤ repetitionStackCapacity)
    (alpha beta before after : Int) (wb : W) :
    (searchAfterMove search alpha beta before after s wb).isSome := by
  unfold searchAfterMove
  split
  · rw [Option.isSome_map]
    exact h _ _ (s.opened .negation) wb (hplain.kept (Kept.opened s _)) hroom
  · exact h _ _ s wb hplain hroom

theorem push_returns {s : Searcher} (key : BitVec 64) (action : Action)
    (hroom : s.repetitionStack.length < repetitionStackCapacity) :
    ∃ previous t, s.pushRepetitionAncestor g key action = some (previous, t) := by
  unfold pushRepetitionAncestor
  simp only [hroom, not_true, and_false, if_false]
  exact ⟨_, _, rfl⟩

theorem alphaBetaLoop_returns {room : Nat} {child : WindowSearch W}
    (hchild : Returns ctx room child) (hrestore : Restores child) {key : BitVec 64}
    {depth oldAlpha beta : Int} {moves : List Action} {alpha bestValue : Int}
    {bestAction : Action} {s : Searcher} {wb : W}
    (hundo : ∀ a ∈ moves, g.undoMove (g.doMove wb a) = wb) (hplain : PlainSettings ctx s)
    (hroom : s.repetitionStack.length + (room + 1) ≤ repetitionStackCapacity) :
    (alphaBetaLoop g child key depth oldAlpha beta moves alpha bestValue bestAction s
      wb).isSome := by
  -- the move needs one place on the path, which the loop gives back before the next
  induction moves generalizing alpha bestValue bestAction s with
  | nil => rfl
  | cons action rest ih =>
    unfold alphaBetaLoop
    rcases hcheck : s.checkAbort (max bestValue alpha) .none with ⟨stop, t⟩
    obtain ⟨-, hkept⟩ := checkAbort_cases s hcheck
    have hplaint := hplain.kept hkept
    have hroomt : t.repetitionStack.length + (room + 1) ≤ repetitionStackCapacity := by
      rw [hkept.stack]
      exact hroom
    simp only
    split
    · rfl
    have hopen : (t.opened (.move alpha beta bestValue rest.isEmpty)).repetitionStack.length
        < repetitionStackCapacity := Nat.lt_of_lt_of_le (Nat.lt_add_of_pos_right (by omega)) hroomt
    obtain ⟨previous, u, hpush⟩ := push_returns (g := g) key action hopen
    rw [hpush]
    have hpushed := (pushed_of_push hpush).of_opened
    have hsome := searchAfterMove_returns hchild (hplaint.pushed hpushed)
      (by have := hpushed.stack; omega) alpha beta (g.sideToMove wb)
      (g.sideToMove (g.doMove wb action)) (g.doMove wb action)
    simp only
    cases hsearch : searchAfterMove child alpha beta (g.sideToMove wb)
        (g.sideToMove (g.doMove wb action)) u (g.doMove wb action) with
    | none => rw [hsearch] at hsome; cases hsome
    | some result =>
      obtain ⟨score, x, xb⟩ := result
      obtain ⟨hsub, rfl⟩ := searchAfterMove_restores hrestore hsearch
      simp only [hundo action (List.mem_cons_self ..)]
      split
      · rfl
      · have hall := hkept.trans
          (((Kept.opened t _).trans (Kept.pop_push hpush hsub)).trans (Kept.closed _))
        refine ih (fun a ha => hundo a (List.mem_cons_of_mem _ ha)) (hplain.kept hall) ?_
        rw [hall.stack]
        exact hroom

theorem expandNode_returns (law : g.Reversible) {n : Nat} {child : Int → WindowSearch W}
    (hchild : Returns ctx n (child n)) (hrestore : ∀ depth, Restores (child depth))
    {oldAlpha : Int} {probe : TtProbeResult} {s : Searcher} {wb : W} (hplain : PlainSettings ctx s)
    (hroom : s.repetitionStack.length + (n + 1) ≤ repetitionStackCapacity) :
    (expandNode g child ((n + 1 : Nat) : Int) oldAlpha probe s wb).isSome := by
  unfold expandNode
  simp only
  split
  · rfl
  split
  · rfl
  split
  · rfl
  · have hdepth : ((n + 1 : Nat) : Int) - 1 + 0 = n := by
      push_cast
      omega
    simp only [hplain.depthExtension, Bool.false_eq_true, false_and, if_false, hdepth]
    have hundo : ∀ a ∈ s.orderMovesWithTtMove g wb (g.key wb)
        (g.generateLegalCtx wb s.options.moveOrderContext) probe.ttMove,
        g.undoMove (g.doMove wb a) = wb := fun a ha =>
      law.legal wb _ a ((orderMovesWithTtMove_perm g s wb _ _ _).mem_iff.1 ha)
    exact alphaBetaLoop_returns hchild (hrestore n) hundo hplain hroom

theorem qsearchWithDepth_returns {fuel : Nat} {depth : Int} (hdepth : depth ≤ 0)
    {s : Searcher} (hplain : PlainSettings ctx s) (alpha beta : Int) (wb : W) :
    (qsearchWithDepth g (fuel + 1) depth alpha beta s wb).isSome := by
  unfold qsearchWithDepth
  rcases hcheck : ({ s with nodes := s.nodes + 1 } : Searcher).checkAbort (g.score wb) .none
      with ⟨stop, t⟩
  obtain ⟨-, hkept⟩ := checkAbort_cases _ hcheck
  replace hkept := (Kept.countNode s).trans hkept
  have hmax : t.qsearchMaxDepth ≤ -depth := by
    rw [(hplain.kept hkept).qsearchMaxDepth]
    omega
  simp only [hcheck, hmax, if_true]
  split <;> rfl

/-- **Alpha-beta returns** when the stack has room for the remaining plies. -/
theorem alphaBeta_returns (law : g.Reversible) (n fuel : Nat) (hfuel : n + 2 ≤ fuel) (depth : Int)
    (hdepth : depth.toNat = n) : Returns ctx n (alphaBeta g fuel depth) := by
  -- the induction is on the depth, not on the fuel, of which two more are enough
  induction n generalizing fuel depth with
  | zero =>
    intro alpha beta s wb hplain hroom
    obtain ⟨fuel, rfl⟩ := Nat.exists_eq_add_of_le' hfuel
    unfold alphaBeta
    rcases hcheck : ({ s with nodes := s.nodes + 1 } : Searcher).checkAbort (g.score wb) .none
        with ⟨stop, t⟩
    obtain ⟨-, hkept⟩ := checkAbort_cases _ hcheck
    replace hkept := (Kept.countNode s).trans hkept
    simp only [hcheck]
    split
    · rfl
    split
    · rfl
    · rw [if_pos (by omega)]
      exact qsearchWithDepth_returns (by omega) (hplain.kept hkept) _ _ _
  | succ n ih =>
    intro alpha beta s wb hplain hroom
    obtain ⟨fuel, rfl⟩ : ∃ k, fuel = k + 1 := ⟨fuel - 1, by omega⟩
    obtain rfl : depth = ((n + 1 : Nat) : Int) := by omega
    unfold alphaBeta
    rcases hcheck : ({ s with nodes := s.nodes + 1 } : Searcher).checkAbort (g.score wb) .none
        with ⟨stop, t⟩
    obtain ⟨-, hkept⟩ := checkAbort_cases _ hcheck
    replace hkept := (Kept.countNode s).trans hkept
    have hplaint := hplain.kept hkept
    have hroomt : t.repetitionStack.length + (n + 1) ≤ repetitionStackCapacity := by
      rw [hkept.stack]
      exact hroom
    simp only [hcheck]
    split
    · rfl
    split
    · rfl
    split
    · omega
    split
    · rfl
    · have hchild := ih fuel (by omega) (n : Int) (by omega)
      unfold searchNode
      simp only
      split
      · rfl
      · exact expandNode_returns law hchild (alphaBeta_restores law fuel)
          (hplaint.kept (Kept.countTtHit t)) hroomt
      · exact expandNode_returns law hchild (alphaBeta_restores law fuel)
          (hplaint.kept (Kept.countTtMiss t _)) hroomt

/-! ## One root move -/

/-- A search of a child that keeps the frame. -/
def RestoresChild (search : Int → Int → Searcher → W → Run W Int) : Prop :=
  ∀ ⦃before after s wb v s' wb'⦄, search before after s wb = some (v, s', wb') →
    Kept s s' ∧ wb' = wb

theorem searchAfterMove_restoresChild {child : WindowSearch W} (h : Restores child)
    (alpha beta : Int) :
    RestoresChild fun before after => searchAfterMove child alpha beta before after :=
  fun _ _ _ _ _ _ _ hrun => searchAfterMove_restores h hrun

theorem searchRootMove_cases {search : Int → Int → Searcher → W → Run W Int}
    (hrestore : RestoresChild search) {rootKey : BitVec 64} {best : Int}
    {bestAction action : Action}
    {v : Int} {s s' : Searcher} {wb wb' : W} (hundo : g.undoMove (g.doMove wb action) = wb)
    (hrun : searchRootMove g search rootKey best bestAction action s wb = some (v, s', wb')) :
    Kept s s' ∧ wb' = wb ∧ ∃ u x, Pushed s u
      ∧ search (g.sideToMove wb) (g.sideToMove (g.doMove wb action)) u (g.doMove wb action)
        = some (v, x, g.doMove wb action)
      ∧ (Undisturbed s s' → Undisturbed u x) := by
  unfold searchRootMove at hrun
  simp only at hrun
  split at hrun
  · cases hrun
  rename_i previous u hpush
  split at hrun
  · cases hrun
  rename_i score x xb hsearch
  obtain ⟨hsub, rfl⟩ := hrestore hsearch
  obtain ⟨rfl, rfl, rfl⟩ := by simpa using hrun
  have hpushed := (pushed_of_push hpush).of_opened
  refine ⟨((Kept.opened s _).trans (Kept.pop_push hpush hsub)).trans (Kept.closed _), hundo, u, x,
    hpushed, hsearch, fun hquiet => ?_⟩
  exact ⟨hquiet.ttHits.trans hpushed.ttHits.symm,
    hquiet.repetitionCuts.trans hpushed.repetitionCuts.symm, hquiet.aborted⟩

theorem searchRootMove_returns (search : Int → Int → Searcher → W → Run W Int)
    (rootKey : BitVec 64) (best : Int) (bestAction action : Action) {s : Searcher} (wb : W)
    (hroom : s.repetitionStack.length < repetitionStackCapacity)
    (hsearch : ∀ u, Pushed s u → (search (g.sideToMove wb) (g.sideToMove (g.doMove wb action)) u
      (g.doMove wb action)).isSome) :
    (searchRootMove g search rootKey best bestAction action s wb).isSome := by
  have hopen : (s.opened (.rootMove action best bestAction)).repetitionStack.length
      < repetitionStackCapacity := hroom
  obtain ⟨previous, u, hpush⟩ := push_returns (g := g) rootKey action hopen
  have hsome := hsearch u (pushed_of_push hpush).of_opened
  unfold searchRootMove
  simp only [hpush]
  cases hrun : search (g.sideToMove wb) (g.sideToMove (g.doMove wb action)) u
      (g.doMove wb action) with
  | none => rw [hrun] at hsome; cases hsome
  | some result => rfl

/-- The value of a root move, from the child's plies. -/
theorem moveValue_eq (n : Nat) (wb : W) (action : Action) :
    moveValue g ctx ((n + 1 : Nat) : Int) wb action
      = perspective (g.sideToMove wb) (g.sideToMove (g.doMove wb action))
        (minimaxPlies g ctx n (g.doMove wb action)) := by
  have hdepth : ((n + 1 : Nat) : Int) - 1 = n := by
    push_cast
    omega
  unfold moveValue minimax
  rw [hdepth, if_neg (by omega), Int.toNat_natCast]

theorem moveValue_inside (ctx : MoveOrderContext) (hin : ScoresInside g) (n : Nat) (wb : W)
    (action : Action) :
    -(i32Max - 1) ≤ moveValue g ctx ((n + 1 : Nat) : Int) wb action
      ∧ moveValue g ctx ((n + 1 : Nat) : Int) wb action ≤ i32Max - 1 := by
  rw [moveValue_eq]
  exact perspective_inside _ _ (minimaxPlies_inside ctx hin n _)

/-- The floor of a root scan is below every value. -/
theorem floor_lt_moveValue (hin : ScoresInside g) (n : Nat) (wb : W) (action : Action) :
    i32Min + 1 < moveValue g ctx ((n + 1 : Nat) : Int) wb action := by
  have := (moveValue_inside ctx hin n wb action).1
  unfold i32Max at this
  unfold i32Min
  omega

theorem negatable_floor : Negatable (i32Min + 1) := by
  unfold Negatable i32Min i32Max
  omega

theorem negatable_ceiling : Negatable (i32Max - 1) := by
  unfold Negatable i32Min i32Max
  omega

theorem floor_lt_ceiling : i32Min + 1 < i32Max - 1 := by
  unfold i32Min i32Max
  omega

/-! ## Plain alpha-beta -/

/-- **The root loop of plain alpha-beta** scans exact values. -/
theorem searchLoop_best (hin : ScoresInside g) {n : Nat} {child : WindowSearch W}
    (hchild : Bounds ctx (minimaxPlies g ctx n) child) (hrestore : Restores child)
    {rootKey : BitVec 64} {moves : List Action} (seen : List Action) {best score : Int}
    {act bestAction : Action} {s s' : Searcher} {wb wb' : W}
    (hundo : ∀ a ∈ moves, g.undoMove (g.doMove wb a) = wb)
    (hrun : searchLoop g child rootKey moves best act s wb = some ((score, bestAction), s', wb')) :
    Kept s s' ∧ wb' = wb ∧ (PlainSettings ctx s → Undisturbed s s' →
      BestScan (moveValue g ctx ((n + 1 : Nat) : Int) wb) (i32Min + 1) seen best act →
      BestScan (moveValue g ctx ((n + 1 : Nat) : Int) wb) (i32Min + 1) (seen ++ moves) score
        bestAction) := by
  induction moves generalizing best act s seen with
  | nil =>
    obtain ⟨⟨rfl, rfl⟩, rfl, rfl⟩ := by simpa [searchLoop] using hrun
    exact ⟨Kept.refl s, rfl, fun _ _ hscan => by rwa [List.append_nil]⟩
  | cons action rest ih =>
    unfold searchLoop at hrun
    rcases hcheck : s.checkAbort best act with ⟨stop, t⟩
    obtain ⟨hstop, hkept⟩ := checkAbort_cases s hcheck
    simp only [hcheck] at hrun
    split at hrun
    · rename_i hyes
      obtain ⟨⟨rfl, rfl⟩, rfl, rfl⟩ := by simpa using hrun
      refine ⟨hkept, rfl, fun _ hquiet => ?_⟩
      rw [hyes] at hstop
      exact absurd (hstop.trans hquiet.aborted) (by simp)
    split at hrun
    · cases hrun
    rename_i v x xb hmove
    obtain ⟨hsub, hxb, u, y, hpushed, hsearch, hpart⟩ := searchRootMove_cases
      (searchAfterMove_restoresChild hrestore _ _) (hundo action (List.mem_cons_self ..)) hmove
    subst xb
    have hrecord := Kept.recordRootMove x action v (x.nodes - t.nodes) false
    have hrest : ∀ a ∈ rest, g.undoMove (g.doMove wb a) = wb := fun a ha =>
      hundo a (List.mem_cons_of_mem _ ha)
    -- the report of this move is its value
    have hvalue : PlainSettings ctx s → Undisturbed t x →
        v = moveValue g ctx ((n + 1 : Nat) : Int) wb action := by
      intro hplain hquiet
      have hsoft := (searchAfterMove_bounds hchild hsearch ((hplain.kept hkept).pushed hpushed)
        (hpart hquiet) negatable_floor negatable_ceiling floor_lt_ceiling).1
      rw [← moveValue_eq] at hsoft
      exact hsoft.eq_of_inside (floor_lt_moveValue hin n wb action)
        (moveValue_inside ctx hin n wb action).2
    have happend : seen ++ action :: rest = (seen ++ [action]) ++ rest := by simp
    split at hrun
    · rename_i hgt
      have hnote := Kept.note (x.recordRootMove action v (x.nodes - t.nodes) false)
        (.chosen action v (x.recordRootMove action v (x.nodes - t.nodes) false).struck)
      obtain ⟨hloop, hwb, hscan⟩ := @ih (seen ++ [action]) _ _ _ hrest hrun
      have hhead := hkept.trans (hsub.trans (hrecord.trans hnote))
      refine ⟨hhead.trans hloop, hwb, fun hplain hquiet hseen => ?_⟩
      have hquiet' := (hquiet.split hkept (hsub.trans ((hrecord.trans hnote).trans hloop))).2
      have hv := hvalue hplain (hquiet'.split hsub ((hrecord.trans hnote).trans hloop)).1
      rw [happend]
      exact hscan (hplain.kept hhead) (hquiet.split hhead hloop).2
        ((hseen.step (floor_lt_moveValue hin n wb action) (fun _ => hv) (fun h => by omega)).1 hgt)
    · rename_i hle
      obtain ⟨hloop, hwb, hscan⟩ := @ih (seen ++ [action]) _ _ _ hrest hrun
      have hhead := hkept.trans (hsub.trans hrecord)
      refine ⟨hhead.trans hloop, hwb, fun hplain hquiet hseen => ?_⟩
      have hquiet' := (hquiet.split hkept (hsub.trans (hrecord.trans hloop))).2
      have hv := hvalue hplain (hquiet'.split hsub (hrecord.trans hloop)).1
      rw [happend]
      exact hscan (hplain.kept hhead) (hquiet.split hhead hloop).2
        ((hseen.step (floor_lt_moveValue hin n wb action) (fun _ => hv)
          (fun h => by omega)).2 (by omega))

/-! ## Principal variation search -/

/-- `terminal_score` answers for the player it is asked about: the side that moved and the side to
move get opposite scores, and the same one when they are the same. -/
def HonoursPerspective (g : Game W) (ctx : MoveOrderContext) : Prop :=
  ∀ wb, ∀ a ∈ g.generateLegalCtx wb ctx, ∀ depth,
    g.terminalScore (g.doMove wb a) (g.sideToMove wb) depth
      = (g.terminalScore (g.doMove wb a) (g.sideToMove (g.doMove wb a)) depth).map
        (perspective (g.sideToMove wb) (g.sideToMove (g.doMove wb a)))

theorem nullWindow_restores {child : WindowSearch W} (h : Restores child)
    {alpha before after v : Int} {s s' : Searcher} {wb wb' : W}
    (hrun : (if after ≠ before then
        (child (wrapI32 (wrapI32 (-alpha) - 1)) (wrapI32 (-alpha)) s wb).map
          fun (value, s, wb) => (wrapI32 (-value), s, wb)
      else child alpha (wrapI32 (alpha + 1)) s wb) = some (v, s', wb')) : Kept s s' ∧ wb' = wb := by
  split at hrun
  · obtain ⟨⟨w, u, ub⟩, hsearch, heq⟩ := Option.map_eq_some_iff.1 hrun
    obtain ⟨-, rfl, rfl⟩ := by simpa using heq
    exact h hsearch
  · exact h hrun

theorem pvsAfterMove_restores {child : WindowSearch W} (h : Restores child)
    (depth alpha beta : Int) (i : Nat) :
    RestoresChild fun before after => pvsAfterMove g child depth alpha beta i before after := by
  intro before after s wb v s' wb' hrun
  simp only [pvsAfterMove] at hrun
  split at hrun
  · exact searchAfterMove_restores h hrun
  split at hrun
  · obtain ⟨rfl, rfl, rfl⟩ := by simpa using hrun
    exact ⟨Kept.refl s, rfl⟩
  split at hrun
  · exact searchAfterMove_restores h hrun
  split at hrun
  · cases hrun
  rename_i value t tb hnull
  obtain ⟨hkept, rfl⟩ := nullWindow_restores h hnull
  replace hkept := ((Kept.opened s _).trans hkept).trans (Kept.closed t)
  split at hrun
  · obtain ⟨hagain, rfl⟩ := searchAfterMove_restores h hrun
    exact ⟨hkept.trans hagain, rfl⟩
  · obtain ⟨-, rfl, rfl⟩ := by simpa using hrun
    exact ⟨hkept, rfl⟩

/-- The null-window search of `pvs_after_move` bounds the child against `alpha` and `alpha + 1`. -/
theorem nullWindow_bounds {value : W → Int} {child : WindowSearch W} (h : Bounds ctx value child)
    {alpha before after v : Int} {s s' : Searcher} {wb wb' : W} (ha : Negatable alpha)
    (hmax : alpha ≤ i32Max - 1)
    (hrun : (if after ≠ before then
        (child (wrapI32 (wrapI32 (-alpha) - 1)) (wrapI32 (-alpha)) s wb).map
          fun (value, s, wb) => (wrapI32 (-value), s, wb)
      else child alpha (wrapI32 (alpha + 1)) s wb) = some (v, s', wb'))
    (hplain : PlainSettings ctx s) (hquiet : Undisturbed s s') :
    FailSoft alpha (alpha + 1) v (perspective before after (value wb)) ∧ Negatable v := by
  obtain ⟨hna, hea⟩ := ha.neg
  have hnext : Negatable (alpha + 1) := ⟨by have := ha.1; omega, by omega⟩
  have hwrap : wrapI32 (alpha + 1) = alpha + 1 :=
    wrapI32_of_range (by have := hnext.1; omega) hnext.2
  have hwrap' : wrapI32 (-alpha - 1) = -(alpha + 1) := by
    rw [show -alpha - 1 = -(alpha + 1) by omega]
    exact hnext.neg.2
  rw [hea, hwrap, hwrap'] at hrun
  unfold perspective
  by_cases hside : after ≠ before
  · rw [if_pos hside] at hrun ⊢
    obtain ⟨⟨w, t, ub⟩, hsearch, heq⟩ := Option.map_eq_some_iff.1 hrun
    obtain ⟨rfl, rfl, rfl⟩ := by simpa using heq
    obtain ⟨hsoft, hw⟩ := h hsearch hplain hquiet hnext.neg.1 hna (by omega)
    rw [hw.neg.2]
    exact ⟨hsoft.neg, hw.neg.1⟩
  · rw [if_neg hside] at hrun ⊢
    exact h hrun hplain hquiet ha hnext (by omega)

/-- What one root move reports in principal variation search: exactly its value when that raises
`alpha`, and that it does not otherwise. -/
theorem pvsAfterMove_report (hin : ScoresInside g) {n : Nat} {child : WindowSearch W}
    (hchild : Bounds ctx (minimaxPlies g ctx n) child) (hrestore : Restores child)
    (hzero : n = 0 → ∀ ⦃alpha beta s wb v s' wb'⦄, child alpha beta s wb = some (v, s', wb') →
      PlainSettings ctx s → s'.aborted = false → v = minimaxPlies g ctx 0 wb)
    {alpha before after v : Int} {i : Nat} {s s' : Searcher} {wb wb' : W}
    (hterm : g.terminalScore wb before n
      = (g.terminalScore wb (g.sideToMove wb) n).map (perspective before after))
    (ha : Negatable alpha) (hmax : alpha ≤ i32Max - 1) (hfirst : i = 0 → alpha < i32Max - 1)
    (hrun : pvsAfterMove g child n alpha (i32Max - 1) i before after s wb = some (v, s', wb'))
    (hplain : PlainSettings ctx s) (hquiet : Undisturbed s s') :
    (alpha < v → v = perspective before after (minimaxPlies g ctx n wb))
      ∧ (v ≤ alpha → perspective before after (minimaxPlies g ctx n wb) ≤ alpha) := by
  have hinside := perspective_inside before after (minimaxPlies_inside ctx hin n wb)
  -- an exact report says both
  have hexact : v = perspective before after (minimaxPlies g ctx n wb) →
      (alpha < v → v = perspective before after (minimaxPlies g ctx n wb))
        ∧ (v ≤ alpha → perspective before after (minimaxPlies g ctx n wb) ≤ alpha) :=
    fun h => ⟨fun _ => h, fun hle => h ▸ hle⟩
  unfold pvsAfterMove at hrun
  split at hrun
  · -- at the horizon the child's report is exact, even with an empty window
    rename_i hle
    obtain rfl : n = 0 := by omega
    refine hexact ?_
    unfold searchAfterMove at hrun
    unfold perspective
    split at hrun
    · rename_i hside
      obtain ⟨⟨w, t, tb⟩, hsearch, heq⟩ := Option.map_eq_some_iff.1 hrun
      obtain ⟨rfl, rfl, rfl⟩ := by simpa using heq
      have hopened := hplain.kept (Kept.opened s .negation)
      rw [if_pos hside, ← hzero rfl hsearch hopened hquiet.aborted]
      have := minimaxPlies_inside ctx hin 0 wb
      rw [← hzero rfl hsearch hopened hquiet.aborted] at this
      exact (negatable_of_inside this).neg.2
    · rename_i hside
      rw [if_neg hside]
      exact hzero rfl hrun hplain hquiet.aborted
  rename_i hdeep
  obtain ⟨k, rfl⟩ : ∃ k, n = k + 1 := ⟨n - 1, by omega⟩
  cases hscore : g.terminalScore wb before ((k + 1 : Nat) : Int) with
  | some score =>
    -- a finished child: the score for the side that moved
    rw [hscore] at hrun
    obtain ⟨rfl, -, -⟩ := by simpa using hrun
    refine hexact ?_
    rw [hscore, eq_comm, Option.map_eq_some_iff] at hterm
    obtain ⟨own, hown, rfl⟩ := hterm
    rw [minimaxPlies, hown]
  | none =>
    rw [hscore] at hrun
    simp only at hrun
    split at hrun
    · -- the first move has the whole window
      rename_i hzeroth
      have hlt := hfirst hzeroth
      have hsoft := (searchAfterMove_bounds hchild hrun hplain hquiet ha negatable_ceiling hlt).1
      constructor
      · intro hgt
        by_cases hhigh : i32Max - 1 ≤ v
        · have := hsoft.high hhigh
          omega
        · exact hsoft.exact hgt (by omega)
      · intro hle
        have := hsoft.low hle
        omega
    split at hrun
    · cases hrun
    rename_i value t tb hnull
    obtain ⟨hkept, htb⟩ := nullWindow_restores hrestore hnull
    subst tb
    have hopened := hplain.kept (Kept.opened s (.nullWindow alpha (i32Max - 1)
      (decide (after ≠ before)) (g.score wb)))
    replace hkept := ((Kept.opened s _).trans hkept).trans (Kept.closed t)
    split at hrun
    · -- the null window failed high: search again with the open window
      rename_i hopen
      have hagain := (searchAfterMove_restores hrestore hrun).1
      obtain ⟨hq1, hq2⟩ := hquiet.split hkept hagain
      have hnullsoft := (nullWindow_bounds hchild ha hmax hnull hopened
        ⟨hq1.ttHits, hq1.repetitionCuts, hq1.aborted⟩).1
      have hraise := hnullsoft.high (by omega)
      have hsoft := (searchAfterMove_bounds hchild hrun (hplain.kept hkept) hq2 ha
        negatable_ceiling (by omega)).1
      exact hexact (hsoft.eq_of_inside (by omega) hinside.2)
    · rename_i hclosed
      obtain ⟨rfl, rfl, -⟩ := by simpa using hrun
      have hnullsoft := (nullWindow_bounds hchild ha hmax hnull hopened
        ⟨hquiet.ttHits, hquiet.repetitionCuts, hquiet.aborted⟩).1
      constructor
      · intro hgt
        have := hnullsoft.high (by omega)
        omega
      · intro hle
        have := hnullsoft.low hle
        omega

/-- **The root loop of principal variation search** scans reports that are exact when they
matter. -/
theorem pvsLoop_best (hin : ScoresInside g) {n : Nat} {child : WindowSearch W}
    (hchild : Bounds ctx (minimaxPlies g ctx n) child) (hrestore : Restores child)
    (hzero : n = 0 → ∀ ⦃alpha beta s wb v s' wb'⦄, child alpha beta s wb = some (v, s', wb') →
      PlainSettings ctx s → s'.aborted = false → v = minimaxPlies g ctx 0 wb)
    {rootKey : BitVec 64} {moves : List Action} (seen : List Action) {best score : Int}
    {act bestAction : Action} {i : Nat} {s s' : Searcher} {wb wb' : W}
    (hundo : ∀ a ∈ moves, g.undoMove (g.doMove wb a) = wb)
    (hterm : ∀ a ∈ moves, g.terminalScore (g.doMove wb a) (g.sideToMove wb) n
      = (g.terminalScore (g.doMove wb a) (g.sideToMove (g.doMove wb a)) n).map
        (perspective (g.sideToMove wb) (g.sideToMove (g.doMove wb a))))
    (hi : i = 0 → best = i32Min + 1)
    (hrun : pvsLoop g child n (i32Max - 1) rootKey i moves best act s wb
      = some ((score, bestAction), s', wb')) :
    Kept s s' ∧ wb' = wb ∧ (PlainSettings ctx s → Undisturbed s s' → i32Min + 1 ≤ best →
      best ≤ i32Max - 1 →
      BestScan (moveValue g ctx ((n + 1 : Nat) : Int) wb) (i32Min + 1) seen best act →
      BestScan (moveValue g ctx ((n + 1 : Nat) : Int) wb) (i32Min + 1) (seen ++ moves) score
        bestAction) := by
  induction moves generalizing best act s seen i with
  | nil =>
    obtain ⟨⟨rfl, rfl⟩, rfl, rfl⟩ := by simpa [pvsLoop] using hrun
    exact ⟨Kept.refl s, rfl, fun _ _ _ _ hscan => by rwa [List.append_nil]⟩
  | cons action rest ih =>
    unfold pvsLoop at hrun
    rcases hcheck : s.checkAbort best act with ⟨stop, t⟩
    obtain ⟨hstop, hkept⟩ := checkAbort_cases s hcheck
    simp only [hcheck] at hrun
    split at hrun
    · rename_i hyes
      obtain ⟨⟨rfl, rfl⟩, rfl, rfl⟩ := by simpa using hrun
      refine ⟨hkept, rfl, fun _ hquiet => ?_⟩
      rw [hyes] at hstop
      exact absurd (hstop.trans hquiet.aborted) (by simp)
    split at hrun
    · cases hrun
    rename_i v x xb hmove
    obtain ⟨hsub, hxb, u, y, hpushed, hsearch, hpart⟩ := searchRootMove_cases
      (pvsAfterMove_restores hrestore n best (i32Max - 1) i) (hundo action (List.mem_cons_self ..))
      hmove
    subst xb
    have hrecord := Kept.recordRootMove x action v (x.nodes - t.nodes) false
    have hrest : ∀ a ∈ rest, g.undoMove (g.doMove wb a) = wb := fun a ha =>
      hundo a (List.mem_cons_of_mem _ ha)
    have htermRest := fun a (ha : a ∈ rest) => hterm a (List.mem_cons_of_mem _ ha)
    -- what the child reports of the move: its value above best, a bound below
    have hreport : PlainSettings ctx s → Undisturbed t x → i32Min + 1 ≤ best →
        best ≤ i32Max - 1 →
        (best < v → v = moveValue g ctx ((n + 1 : Nat) : Int) wb action)
          ∧ (v ≤ best → moveValue g ctx ((n + 1 : Nat) : Int) wb action ≤ best) := by
      intro hplain hquiet hlo hhi
      have hbest : Negatable best := ⟨by omega, by omega⟩
      have hfirst : i = 0 → best < i32Max - 1 := fun h => by
        have := hi h
        have := floor_lt_ceiling
        omega
      rw [moveValue_eq]
      exact pvsAfterMove_report hin hchild hrestore hzero
        (hterm action (List.mem_cons_self ..)) hbest hhi hfirst hsearch
        ((hplain.kept hkept).pushed hpushed) (hpart hquiet)
    have happend : seen ++ action :: rest = (seen ++ [action]) ++ rest := by simp
    -- a better move becomes the answer, any other only joins those seen
    split at hrun
    · rename_i hgt
      have hnote := Kept.note (x.recordRootMove action v (x.nodes - t.nodes) false)
        (.chosen action v (x.recordRootMove action v (x.nodes - t.nodes) false).struck)
      obtain ⟨hloop, hwb, hscan⟩ := @ih (seen ++ [action]) _ _ _ _ hrest htermRest
        (fun h => absurd h (Nat.succ_ne_zero i)) hrun
      have hhead := hkept.trans (hsub.trans (hrecord.trans hnote))
      refine ⟨hhead.trans hloop, hwb, fun hplain hquiet hlo hhi hseen => ?_⟩
      have hquiet' := (hquiet.split hkept (hsub.trans ((hrecord.trans hnote).trans hloop))).2
      have hr := hreport hplain (hquiet'.split hsub ((hrecord.trans hnote).trans hloop)).1 hlo hhi
      have hv := hr.1 hgt
      have hin' := moveValue_inside ctx hin n wb action
      rw [happend]
      exact hscan (hplain.kept hhead) (hquiet.split hhead hloop).2 (by omega) (by omega)
        ((hseen.step (floor_lt_moveValue hin n wb action) hr.1 hr.2).1 hgt)
    · rename_i hle
      obtain ⟨hloop, hwb, hscan⟩ := @ih (seen ++ [action]) _ _ _ _ hrest htermRest
        (fun h => absurd h (Nat.succ_ne_zero i)) hrun
      have hhead := hkept.trans (hsub.trans hrecord)
      refine ⟨hhead.trans hloop, hwb, fun hplain hquiet hlo hhi hseen => ?_⟩
      have hquiet' := (hquiet.split hkept (hsub.trans (hrecord.trans hloop))).2
      have hr := hreport hplain (hquiet'.split hsub (hrecord.trans hloop)).1 hlo hhi
      rw [happend]
      exact hscan (hplain.kept hhead) (hquiet.split hhead hloop).2 hlo hhi
        ((hseen.step (floor_lt_moveValue hin n wb action) hr.1 hr.2).2 (by omega))

/-! ## The entry points -/

theorem shuffleFrom_searcher (i : Nat) (moves : Array Action) (s : Searcher) :
    ∃ rng, (shuffleFrom i moves s).2 = { s with rngState := rng } := by
  induction i generalizing moves s with
  | zero => exact ⟨s.rngState, rfl⟩
  | succ i ih =>
    unfold shuffleFrom
    obtain ⟨rng, h⟩ := ih (moves.swapIfInBounds (i + 1) (s.nextRandomIndex (i + 2)).1)
      (s.nextRandomIndex (i + 2)).2
    exact ⟨rng, h⟩

/-- The shuffle permutes the moves and touches the random state only. -/
theorem shuffleRootMoves_spec (s : Searcher) (shuffles : Bool) (moves : List Action) :
    (s.shuffleRootMoves shuffles moves).1.Perm moves
      ∧ ∃ rng, (s.shuffleRootMoves shuffles moves).2 = { s with rngState := rng } := by
  unfold shuffleRootMoves
  split
  · exact ⟨shuffleMoves_perm s moves, shuffleFrom_searcher _ _ s⟩
  · exact ⟨List.Perm.refl _, s.rngState, rfl⟩

/-- What a root search starts from. -/
structure RootReady (g : Game W) (ctx : MoveOrderContext) (wb : W) (moves : List Action)
    (s : Searcher) : Prop where
  settings : PlainSettings ctx s
  stack : s.repetitionStack = []
  ttHits : s.ttHits = 0
  repetitionCuts : s.repetitionCuts = 0
  perm : moves.Perm (g.generateLegalCtx wb ctx)

/-- The ordered moves a root search iterates over. -/
def orderedRootMoves (g : Game W) (shuffles : Bool) (depth : Int) (s : Searcher) (wb : W) :
    List Action :=
  match rootStart g shuffles depth s wb with
  | .done _ _ => []
  | .moves moves _ => moves

/-- With at least two moves in an unfinished position, the prologue hands over to the search; all it
has touched since `begin_root_search_at` is the random generator. -/
theorem rootStart_moves (shuffles : Bool) {depth : Int} {s : Searcher} {wb : W}
    (hterm : g.terminalScore wb (g.sideToMove wb) depth = none)
    (hmoves : 2 ≤ (g.generateLegalCtx wb s.options.moveOrderContext).length) :
    ∃ rng, rootStart g shuffles depth s wb = .moves (orderedRootMoves g shuffles depth s wb)
        { s.beginRootSearchAt g wb with rngState := rng }
      ∧ (orderedRootMoves g shuffles depth s wb).Perm
        (g.generateLegalCtx wb s.options.moveOrderContext) := by
  obtain ⟨hshuffled, rng, hstate⟩ := shuffleRootMoves_spec (s.beginRootSearchAt g wb) shuffles
    (g.generateLegalCtx wb s.options.moveOrderContext)
  have hcontext : (s.beginRootSearchAt g wb).options.moveOrderContext
      = s.options.moveOrderContext := rfl
  have heq : ∃ moves, rootStart g shuffles depth s wb
        = .moves moves { s.beginRootSearchAt g wb with rngState := rng }
      ∧ moves.Perm (g.generateLegalCtx wb s.options.moveOrderContext) := by
    unfold rootStart
    simp only [hterm, hcontext]
    rcases hpair : (s.beginRootSearchAt g wb).shuffleRootMoves shuffles
      (g.generateLegalCtx wb s.options.moveOrderContext) with ⟨moves, t⟩
    rw [hpair] at hshuffled hstate
    simp only at hshuffled hstate
    subst hstate
    have hordered := (orderMoves_perm g { s.beginRootSearchAt g wb with rngState := rng } wb
      (g.key wb) moves).trans hshuffled
    have hlength := hordered.length_eq
    simp only
    -- two legal moves are left after ordering, so neither early answer applies
    split
    · rename_i hnil
      rw [hnil] at hlength
      simp only [List.length_nil] at hlength
      omega
    · rename_i action hone
      rw [hone] at hlength
      simp only [List.length_cons, List.length_nil] at hlength
      omega
    · exact ⟨_, rfl, hordered⟩
  obtain ⟨moves, hstart, hperm⟩ := heq
  have hmovesEq : orderedRootMoves g shuffles depth s wb = moves := by
    unfold orderedRootMoves
    rw [hstart]
  rw [hmovesEq]
  exact ⟨rng, hstart, hperm⟩

theorem rootStart_ready (shuffles : Bool) {depth : Int} {s : Searcher} {wb : W}
    (hplain : PlainSettings ctx s) (hterm : g.terminalScore wb (g.sideToMove wb) depth = none)
    (hmoves : 2 ≤ (g.generateLegalCtx wb ctx).length) :
    ∃ t, rootStart g shuffles depth s wb = .moves (orderedRootMoves g shuffles depth s wb) t
      ∧ RootReady g ctx wb (orderedRootMoves g shuffles depth s wb) t := by
  rw [← hplain.context] at hmoves
  obtain ⟨rng, hstart, hperm⟩ := rootStart_moves shuffles hterm hmoves
  rw [hplain.context] at hperm
  exact ⟨_, hstart, { hplain with }, rfl, rfl, rfl, hperm⟩

/-- The minimax value of an unfinished position is the best of its moves. -/
theorem minimax_eq_max {n : Nat} {wb : W}
    (hterm : g.terminalScore wb (g.sideToMove wb) ((n + 1 : Nat) : Int) = none) :
    minimax g ctx ((n + 1 : Nat) : Int) wb
      = (((g.generateLegalCtx wb ctx).map (moveValue g ctx ((n + 1 : Nat) : Int) wb)).max?).getD
        (g.score wb) := by
  have hfun : moveValue g ctx ((n + 1 : Nat) : Int) wb = fun action =>
      perspective (g.sideToMove wb) (g.sideToMove (g.doMove wb action))
        (minimaxPlies g ctx n (g.doMove wb action)) := funext (moveValue_eq n wb)
  unfold minimax
  rw [if_neg (by omega), Int.toNat_natCast, minimaxPlies, hterm, hfun]

/-- No legal move is worth more than the position. -/
theorem moveValue_le_minimax {n : Nat} {wb : W} {action : Action}
    (hterm : g.terminalScore wb (g.sideToMove wb) ((n + 1 : Nat) : Int) = none)
    (hmem : action ∈ g.generateLegalCtx wb ctx) :
    moveValue g ctx ((n + 1 : Nat) : Int) wb action ≤ minimax g ctx ((n + 1 : Nat) : Int) wb := by
  have hvalue := List.mem_map_of_mem (f := moveValue g ctx ((n + 1 : Nat) : Int) wb) hmem
  rw [minimax_eq_max hterm]
  cases hmax : ((g.generateLegalCtx wb ctx).map
      (moveValue g ctx ((n + 1 : Nat) : Int) wb)).max? with
  | none =>
    rw [List.max?_eq_none_iff.1 hmax] at hvalue
    cases hvalue
  | some m => exact (List.max?_eq_some_iff.1 hmax).2 _ hvalue

/-- A scan of the root moves that ended at `score` and `action` has found the minimax value and the
first move that attains it. -/
theorem rootScan_minimax {n : Nat} {wb : W} {moves : List Action} {score : Int} {action : Action}
    (hterm : g.terminalScore wb (g.sideToMove wb) ((n + 1 : Nat) : Int) = none)
    (hmoves : 2 ≤ (g.generateLegalCtx wb ctx).length)
    (hperm : moves.Perm (g.generateLegalCtx wb ctx))
    (hscan : BestScan (moveValue g ctx ((n + 1 : Nat) : Int) wb) (i32Min + 1) ([] ++ moves) score
      action) :
    score = minimax g ctx ((n + 1 : Nat) : Int) wb
      ∧ score = moveValue g ctx ((n + 1 : Nat) : Int) wb action
      ∧ FirstBest (moveValue g ctx ((n + 1 : Nat) : Int) wb) moves action := by
  rw [List.nil_append] at hscan
  rcases hscan with ⟨hnil, -⟩ | ⟨hscore, hbest⟩
  · have := hperm.length_eq
    rw [hnil] at this
    simp only [List.length_nil] at this
    omega
  · refine ⟨?_, hscore, hbest⟩
    have hmax := hbest.max?
    rw [max?_perm (hperm.map _)] at hmax
    rw [minimax_eq_max hterm, hmax, hscore, Option.getD_some]

/-- What a root result claims. -/
structure RootAnswer (g : Game W) (ctx : MoveOrderContext) (depth : Int) (wb : W)
    (moves : List Action) (result : SearchResult) : Prop where
  /-- The score is the minimax value. -/
  score : result.score = minimax g ctx depth wb
  /-- The best move attains it. -/
  attains : moveValue g ctx depth wb result.bestAction = result.score
  /-- No earlier move in the order searched does, and none does better. -/
  first : FirstBest (moveValue g ctx depth wb) moves result.bestAction

theorem search_answer (law : g.Reversible) (hin : ScoresInside g)
    (hoverride : ∀ wb, g.searchAlphaOverride wb = none) {fuel n : Nat} {s s' : Searcher}
    {wb wb' : W} {result : SearchResult} (hplain : PlainSettings ctx s)
    (hterm : g.terminalScore wb (g.sideToMove wb) ((n + 1 : Nat) : Int) = none)
    (hmoves : 2 ≤ (g.generateLegalCtx wb ctx).length)
    (hrun : search g fuel s wb ((n + 1 : Nat) : Int) = some (result, s', wb'))
    (hhits : s'.ttHits = 0) (hcuts : s'.repetitionCuts = 0) (haborted : s'.aborted = false) :
    wb' = wb ∧ RootAnswer g ctx ((n + 1 : Nat) : Int) wb
      (orderedRootMoves g true ((n + 1 : Nat) : Int) s wb) result := by
  obtain ⟨t, hstart, hready⟩ := rootStart_ready true hplain hterm hmoves
  unfold search at hrun
  rw [hstart] at hrun
  simp only at hrun
  obtain ⟨⟨⟨score, action⟩, u, ub⟩, hloop, heq⟩ := Option.map_eq_some_iff.1 hrun
  obtain ⟨rfl, rfl, rfl⟩ := by simpa using heq
  have hdepth : ((n + 1 : Nat) : Int) - 1 = n := by
    push_cast
    omega
  rw [hdepth] at hloop
  have hundo : ∀ a ∈ orderedRootMoves g true ((n + 1 : Nat) : Int) s wb,
      g.undoMove (g.doMove wb a) = wb := fun a ha => law.legal wb ctx a (hready.perm.mem_iff.1 ha)
  obtain ⟨-, hwb, hscan⟩ := searchLoop_best hin
    (alphaBeta_bounds law hin hoverride fuel n) (alphaBeta_restores law fuel n) [] hundo hloop
  have hquiet : Undisturbed t u :=
    ⟨hhits.trans hready.ttHits.symm, hcuts.trans hready.repetitionCuts.symm, haborted⟩
  obtain ⟨hscore, hattain, hfirst⟩ := rootScan_minimax hterm hmoves hready.perm
    (hscan hready.settings hquiet (Or.inl ⟨rfl, rfl⟩))
  exact ⟨hwb, hscore, hattain.symm, hfirst⟩

theorem searchPvs_answer (law : g.Reversible) (hin : ScoresInside g)
    (hoverride : ∀ wb, g.searchAlphaOverride wb = none) (hperspective : HonoursPerspective g ctx)
    {fuel n : Nat} {s s' : Searcher} {wb wb' : W} {result : SearchResult}
    (hplain : PlainSettings ctx s)
    (hterm : g.terminalScore wb (g.sideToMove wb) ((n + 1 : Nat) : Int) = none)
    (hmoves : 2 ≤ (g.generateLegalCtx wb ctx).length)
    (hrun : searchPvs g fuel s wb ((n + 1 : Nat) : Int) = some (result, s', wb'))
    (hhits : s'.ttHits = 0) (hcuts : s'.repetitionCuts = 0) (haborted : s'.aborted = false) :
    wb' = wb ∧ RootAnswer g ctx ((n + 1 : Nat) : Int) wb
      (orderedRootMoves g true ((n + 1 : Nat) : Int) s wb) result := by
  obtain ⟨t, hstart, hready⟩ := rootStart_ready true hplain hterm hmoves
  unfold searchPvs at hrun
  rw [hstart] at hrun
  simp only at hrun
  obtain ⟨⟨⟨score, action⟩, u, ub⟩, hloop, heq⟩ := Option.map_eq_some_iff.1 hrun
  obtain ⟨rfl, rfl, rfl⟩ := by simpa using heq
  have hdepth : ((n + 1 : Nat) : Int) - 1 = n := by
    push_cast
    omega
  rw [hdepth] at hloop
  have hlegal : ∀ a ∈ orderedRootMoves g true ((n + 1 : Nat) : Int) s wb,
      a ∈ g.generateLegalCtx wb ctx := fun a ha => hready.perm.mem_iff.1 ha
  -- at depth one the children are leaves, whose answers are exact
  have hzero : n = 0 → ∀ ⦃alpha beta s wb v s' wb'⦄,
      alphaBeta g fuel n alpha beta s wb = some (v, s', wb') →
      PlainSettings ctx s → s'.aborted = false → v = minimaxPlies g ctx 0 wb := by
    rintro rfl alpha beta s wb v s' wb' hzrun hzplain hzquiet
    exact alphaBeta_zero hzrun hzplain hzquiet
  obtain ⟨-, hwb, hscan⟩ := pvsLoop_best hin
    (alphaBeta_bounds law hin hoverride fuel n) (alphaBeta_restores law fuel n) hzero []
    (fun a ha => law.legal wb ctx a (hlegal a ha))
    (fun a ha => hperspective wb a (hlegal a ha) n) (fun _ => rfl) hloop
  have hquiet : Undisturbed t u :=
    ⟨hhits.trans hready.ttHits.symm, hcuts.trans hready.repetitionCuts.symm, haborted⟩
  obtain ⟨hscore, hattain, hfirst⟩ := rootScan_minimax hterm hmoves hready.perm
    (hscan hready.settings hquiet (le_refl _) (le_of_lt floor_lt_ceiling) (Or.inl ⟨rfl, rfl⟩))
  exact ⟨hwb, hscore, hattain.symm, hfirst⟩

/-! ## The roots return -/

theorem searchLoop_returns {room : Nat} {child : WindowSearch W} (hchild : Returns ctx room child)
    (hrestore : Restores child) {rootKey : BitVec 64} {moves : List Action} {best : Int}
    {act : Action} {s : Searcher} {wb : W} (hundo : ∀ a ∈ moves, g.undoMove (g.doMove wb a) = wb)
    (hplain : PlainSettings ctx s)
    (hroom : s.repetitionStack.length + (room + 1) ≤ repetitionStackCapacity) :
    (searchLoop g child rootKey moves best act s wb).isSome := by
  induction moves generalizing best act s with
  | nil => rfl
  | cons action rest ih =>
    unfold searchLoop
    rcases hcheck : s.checkAbort best act with ⟨stop, t⟩
    obtain ⟨-, hkept⟩ := checkAbort_cases s hcheck
    have hplaint := hplain.kept hkept
    have hroomt : t.repetitionStack.length + (room + 1) ≤ repetitionStackCapacity := by
      rw [hkept.stack]
      exact hroom
    simp only
    split
    · rfl
    have hsome := searchRootMove_returns (g := g)
      (fun before after => searchAfterMove child (i32Min + 1) (i32Max - 1) before after)
      rootKey best act action wb (by omega)
      (fun u hpushed => searchAfterMove_returns hchild (hplaint.pushed hpushed)
        (by have := hpushed.stack; omega) _ _ _ _ _)
    split
    · rename_i hnone
      rw [hnone] at hsome
      cases hsome
    rename_i v x xb hmove
    obtain ⟨hsub, hxb, -⟩ := searchRootMove_cases
      (searchAfterMove_restoresChild hrestore _ _) (hundo action (List.mem_cons_self ..)) hmove
    subst xb
    have hrest : ∀ a ∈ rest, g.undoMove (g.doMove wb a) = wb := fun a ha =>
      hundo a (List.mem_cons_of_mem _ ha)
    have hhead := hkept.trans (hsub.trans
        (Kept.recordRootMove x action v (x.nodes - t.nodes) false))
    split
    · have hall := hhead.trans (Kept.note _
        (.chosen action v (x.recordRootMove action v (x.nodes - t.nodes) false).struck))
      exact ih hrest (hplain.kept hall) (by rw [hall.stack]; exact hroom)
    · exact ih hrest (hplain.kept hhead) (by rw [hhead.stack]; exact hroom)

theorem pvsAfterMove_returns {room : Nat} {child : WindowSearch W} (hchild : Returns ctx room child)
    (hrestore : Restores child) {s : Searcher} (hplain : PlainSettings ctx s)
    (hroom : s.repetitionStack.length + room ≤ repetitionStackCapacity)
    (depth alpha beta : Int) (i : Nat) (before after : Int) (wb : W) :
    (pvsAfterMove g child depth alpha beta i before after s wb).isSome := by
  unfold pvsAfterMove
  have hopen := fun wb => searchAfterMove_returns hchild hplain hroom alpha beta before after wb
  split
  · exact hopen wb
  split
  · rfl
  split
  · exact hopen wb
  generalize hopened : s.opened (.nullWindow alpha beta (decide (after ≠ before)) (g.score wb)) = o
  have hkepto : Kept s o := hopened ▸ Kept.opened s _
  have hroomo : o.repetitionStack.length + room ≤ repetitionStackCapacity := by
    rw [hkepto.stack]
    exact hroom
  -- the null window search, turned round where the side changes
  have hnull : (if after ≠ before then
        (child (wrapI32 (wrapI32 (-alpha) - 1)) (wrapI32 (-alpha)) o wb).map
          fun (value, s, wb) => (wrapI32 (-value), s, wb)
      else child alpha (wrapI32 (alpha + 1)) o wb).isSome := by
    split
    · rw [Option.isSome_map]
      exact hchild _ _ o wb (hplain.kept hkepto) hroomo
    · exact hchild _ _ o wb (hplain.kept hkepto) hroomo
  simp only
  split
  · rename_i hnone
    rw [hnone] at hnull
    cases hnull
  rename_i value t tb hrun
  have hkept := hkepto.trans ((nullWindow_restores hrestore hrun).1.trans (Kept.closed t))
  -- a value inside the window is searched again with the full one
  split
  · exact searchAfterMove_returns hchild (hplain.kept hkept) (by rw [hkept.stack]; exact hroom)
      alpha beta before after tb
  · rfl

theorem pvsLoop_returns {room : Nat} {child : WindowSearch W} (hchild : Returns ctx room child)
    (hrestore : Restores child) {depth beta : Int} {rootKey : BitVec 64} {moves : List Action}
    {best : Int} {act : Action} {i : Nat} {s : Searcher} {wb : W}
    (hundo : ∀ a ∈ moves, g.undoMove (g.doMove wb a) = wb) (hplain : PlainSettings ctx s)
    (hroom : s.repetitionStack.length + (room + 1) ≤ repetitionStackCapacity) :
    (pvsLoop g child depth beta rootKey i moves best act s wb).isSome := by
  induction moves generalizing best act s i with
  | nil => rfl
  | cons action rest ih =>
    unfold pvsLoop
    rcases hcheck : s.checkAbort best act with ⟨stop, t⟩
    obtain ⟨-, hkept⟩ := checkAbort_cases s hcheck
    have hplaint := hplain.kept hkept
    have hroomt : t.repetitionStack.length + (room + 1) ≤ repetitionStackCapacity := by
      rw [hkept.stack]
      exact hroom
    simp only
    split
    · rfl
    have hsome := searchRootMove_returns (g := g)
      (fun before after => pvsAfterMove g child depth best beta i before after)
      rootKey best act action wb (by omega)
      (fun u hpushed => pvsAfterMove_returns hchild hrestore (hplaint.pushed hpushed)
        (by have := hpushed.stack; omega) _ _ _ _ _ _ _)
    split
    · rename_i hnone
      rw [hnone] at hsome
      cases hsome
    rename_i v x xb hmove
    obtain ⟨hsub, hxb, -⟩ := searchRootMove_cases
      (pvsAfterMove_restores hrestore depth best beta i) (hundo action (List.mem_cons_self ..))
      hmove
    subst xb
    have hrest : ∀ a ∈ rest, g.undoMove (g.doMove wb a) = wb := fun a ha =>
      hundo a (List.mem_cons_of_mem _ ha)
    have hhead := hkept.trans (hsub.trans
        (Kept.recordRootMove x action v (x.nodes - t.nodes) false))
    split
    · have hall := hhead.trans (Kept.note _
        (.chosen action v (x.recordRootMove action v (x.nodes - t.nodes) false).struck))
      exact ih hrest (hplain.kept hall) (by rw [hall.stack]; exact hroom)
    · exact ih hrest (hplain.kept hhead) (by rw [hhead.stack]; exact hroom)

/-- A root search of at most 128 plies returns. -/
theorem search_returns (law : g.Reversible) {n fuel : Nat} {s : Searcher} {wb : W}
    (hplain : PlainSettings ctx s)
    (hterm : g.terminalScore wb (g.sideToMove wb) ((n + 1 : Nat) : Int) = none)
    (hmoves : 2 ≤ (g.generateLegalCtx wb ctx).length) (hdeep : n + 1 ≤ repetitionStackCapacity)
    (hfuel : n + 2 ≤ fuel) :
    (search g fuel s wb ((n + 1 : Nat) : Int)).isSome
      ∧ (searchPvs g fuel s wb ((n + 1 : Nat) : Int)).isSome := by
  obtain ⟨t, hstart, hready⟩ := rootStart_ready true hplain hterm hmoves
  have hdepth : ((n + 1 : Nat) : Int) - 1 = n := by
    push_cast
    omega
  have hundo : ∀ a ∈ orderedRootMoves g true ((n + 1 : Nat) : Int) s wb,
      g.undoMove (g.doMove wb a) = wb := fun a ha => law.legal wb ctx a (hready.perm.mem_iff.1 ha)
  have hchild : Returns ctx n (alphaBeta g fuel n) :=
    alphaBeta_returns law n fuel hfuel (n : Int) (by omega)
  have hroom : t.repetitionStack.length + (n + 1) ≤ repetitionStackCapacity := by
    rw [hready.stack, List.length_nil]
    omega
  constructor
  · unfold search
    rw [hstart]
    simp only [Option.isSome_map, hdepth]
    exact searchLoop_returns hchild (alphaBeta_restores law fuel n) hundo hready.settings hroom
  · unfold searchPvs
    rw [hstart]
    simp only [Option.isSome_map, hdepth]
    exact pvsLoop_returns hchild (alphaBeta_restores law fuel n) hundo hready.settings hroom

end Searcher

end Sanmill
