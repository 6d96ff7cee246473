import Sanmill.Proof.Search.Minimax

/-!
# Searching a part of a game

`Reversible` asks for the undo law on every workbench, and a real workbench is a record whose
undo stack may hold anything. What holds is the law on the workbenches a search can meet. They
are a game of their own, `g` on `V`, embedded by `f` in the game `h` on `W` that the engine runs.

`alphaBeta_embedded` says that the two searches are one: the search of `f v` is the image of
the search of `v`, so whatever is proved of `g` holds of the engine.

`Near depth v` is for the hooks that depend on the remaining depth, and for those that answer in
one game only: they need to agree only where the search can ask them. Below the horizon the depth
is negative, and the search asks no deeper than `deepest`.
-/

namespace Sanmill

variable {V W : Type}

/-- `g` is the part of `h` that a search with options `o` and quiescence depth `deepest` meets from
the image of `f`. -/
structure Game.Embeds (g : Game V) (h : Game W) (f : V → W) (o : SearchOptions) (deepest : Int)
    (Near : Int → V → Prop) : Prop where
  key : ∀ v, h.key (f v) = g.key v
  sideToMove : ∀ v, h.sideToMove (f v) = g.sideToMove v
  isTerminal : ∀ v, h.isTerminal (f v) = g.isTerminal v
  score : ∀ v, h.score (f v) = g.score v
  hasCurrentRepetition : ∀ v, h.hasCurrentRepetition (f v) = g.hasCurrentRepetition v
  undoMove : ∀ v, h.undoMove (f v) = f (g.undoMove v)
  generateLegalCtx : ∀ depth v, 0 < depth → Near depth v →
    h.generateLegalCtx (f v) o.moveOrderContext = g.generateLegalCtx v o.moveOrderContext
  generateQuiescenceCtx : ∀ depth v kind, depth ≤ 0 → -depth < deepest → Near depth v →
    h.generateQuiescenceCtx (f v) o.moveOrderContext kind
      = g.generateQuiescenceCtx v o.moveOrderContext kind
  doMove : ∀ depth v, 0 < depth → Near depth v → ∀ a ∈ g.generateLegalCtx v o.moveOrderContext,
    h.doMove (f v) a = f (g.doMove v a)
  doTactical : ∀ depth v kind, depth ≤ 0 → -depth < deepest → Near depth v →
    ∀ a ∈ g.generateQuiescenceCtx v o.moveOrderContext kind, h.doMove (f v) a = f (g.doMove v a)
  moveOrderScoresCtx : ∀ v moves, h.moveOrderScoresCtx (f v) moves o.moveOrderContext
    = g.moveOrderScoresCtx v moves o.moveOrderContext
  nullMoveTerminalGuard : h.nullMoveTerminalGuard = g.nullMoveTerminalGuard
  repetitionDrawBias : h.repetitionDrawBias = g.repetitionDrawBias
  actionResetsRepetition : h.actionResetsRepetition = g.actionResetsRepetition
  packTtAction : h.packTtAction = g.packTtAction
  unpackTtAction : h.unpackTtAction = g.unpackTtAction
  terminalScore : ∀ depth v player, Near depth v →
    h.terminalScore (f v) player depth = g.terminalScore v player depth
  searchAlphaOverride : ∀ depth v, Near depth v →
    h.searchAlphaOverride (f v) = g.searchAlphaOverride v
  near : ∀ depth v, 0 < depth → Near depth v → ∀ a ∈ g.generateLegalCtx v o.moveOrderContext,
    Near (depth - 1) (g.doMove v a)
  /-- A forced reply does not cost depth when extensions are on. -/
  nearExtended : o.depthExtension = true → ∀ depth v, 0 < depth → Near depth v →
    ∀ a ∈ g.generateLegalCtx v o.moveOrderContext, Near depth (g.doMove v a)
  nearTactical : ∀ depth v kind, depth ≤ 0 → -depth < deepest → Near depth v →
    ∀ a ∈ g.generateQuiescenceCtx v o.moveOrderContext kind, Near (depth - 1) (g.doMove v a)

/-! ## The part where an invariant holds -/

/-- What a search needs of an invariant: the generated moves keep it and can be taken back. -/
structure Game.KeptBy (h : Game W) (I : W → Prop) (Legal : W → Action → Prop) : Prop where
  legal : ∀ wb ctx, I wb → ∀ a ∈ h.generateLegalCtx wb ctx, Legal wb a
  tactical : ∀ wb ctx kind, I wb → ∀ a ∈ h.generateQuiescenceCtx wb ctx kind, Legal wb a
  doMove : ∀ wb a, I wb → Legal wb a → I (h.doMove wb a)
  undoMove : ∀ wb, I wb → I (h.undoMove wb)
  back : ∀ wb a, I wb → Legal wb a → h.undoMove (h.doMove wb a) = wb

open Classical in
/-- The game on the workbenches with the invariant. A move that is not legal is not made. -/
noncomputable def Game.restrict (h : Game W) {I : W → Prop} {Legal : W → Action → Prop}
    (hkept : h.KeptBy I Legal) : Game {wb : W // I wb} where
  key v := h.key v
  sideToMove v := h.sideToMove v
  isTerminal v := h.isTerminal v
  doMove v a := if ha : Legal v.1 a then ⟨h.doMove v.1 a, hkept.doMove v.1 a v.2 ha⟩ else v
  undoMove v := ⟨h.undoMove v.1, hkept.undoMove v.1 v.2⟩
  hasCurrentRepetition v := h.hasCurrentRepetition v
  currentPositionResetsRepetition v := h.currentPositionResetsRepetition v
  score v := h.score v
  generateLegalCtx v := h.generateLegalCtx v
  generateQuiescenceCtx v := h.generateQuiescenceCtx v
  moveOrderBiasCtx v := h.moveOrderBiasCtx v
  moveOrderScoresCtx v := h.moveOrderScoresCtx v
  terminalScore v := h.terminalScore v
  searchAlphaOverride v := h.searchAlphaOverride v
  uniqueRootMoveScore := h.uniqueRootMoveScore
  nullMoveTerminalGuard := h.nullMoveTerminalGuard
  repetitionDrawBias := h.repetitionDrawBias
  actionResetsRepetition := h.actionResetsRepetition
  packTtAction := h.packTtAction
  unpackTtAction := h.unpackTtAction
  mctsTerminalScore v := h.mctsTerminalScore v
  rootShortCircuitDraw v := h.rootShortCircuitDraw v

namespace Game.KeptBy

variable {h : Game W} {I : W → Prop} {Legal : W → Action → Prop} (hkept : h.KeptBy I Legal)

theorem restrict_doMove (v : {wb : W // I wb}) {a : Action} (ha : Legal v.1 a) :
    ((h.restrict hkept).doMove v a).1 = h.doMove v.1 a := by
  simp only [Game.restrict, dif_pos ha]

theorem reversible : (h.restrict hkept).Reversible where
  legal v ctx a ha := by
    have hlegal := hkept.legal v.1 ctx v.2 a ha
    refine Subtype.ext ?_
    change h.undoMove ((h.restrict hkept).doMove v a).1 = v.1
    rw [restrict_doMove hkept v hlegal, hkept.back v.1 a v.2 hlegal]
  quiescence v ctx kind a ha := by
    have hlegal := hkept.tactical v.1 ctx kind v.2 a ha
    refine Subtype.ext ?_
    change h.undoMove ((h.restrict hkept).doMove v a).1 = v.1
    rw [restrict_doMove hkept v hlegal, hkept.back v.1 a v.2 hlegal]

theorem embeds (o : SearchOptions) (deepest : Int) :
    (h.restrict hkept).Embeds h Subtype.val o deepest (fun _ _ => True) where
  key _ := rfl
  sideToMove _ := rfl
  isTerminal _ := rfl
  score _ := rfl
  hasCurrentRepetition _ := rfl
  undoMove _ := rfl
  generateLegalCtx _ _ _ _ := rfl
  generateQuiescenceCtx _ _ _ _ _ _ := rfl
  doMove _ v _ _ a ha := (restrict_doMove hkept v (hkept.legal v.1 _ v.2 a ha)).symm
  doTactical _ v kind _ _ _ a ha :=
    (restrict_doMove hkept v (hkept.tactical v.1 _ kind v.2 a ha)).symm
  moveOrderScoresCtx _ _ := rfl
  nullMoveTerminalGuard := rfl
  repetitionDrawBias := rfl
  actionResetsRepetition := rfl
  packTtAction := rfl
  unpackTtAction := rfl
  terminalScore _ _ _ _ := rfl
  searchAlphaOverride _ _ _ := rfl
  near _ _ _ _ _ _ := trivial
  nearExtended _ _ _ _ _ _ _ := trivial
  nearTactical _ _ _ _ _ _ _ _ := trivial

end Game.KeptBy

namespace Searcher

variable {g : Game V} {h : Game W} {f : V → W} {o : SearchOptions} {deepest : Int}
  {Near : Int → V → Prop}

/-- The settings of a searcher that `Game.Embeds` speaks of. -/
structure HasSettings (o : SearchOptions) (deepest : Int) (s : Searcher) : Prop where
  options : s.options = o
  qsearchMaxDepth : s.qsearchMaxDepth = deepest

theorem HasSettings.kept {s t : Searcher} (h : HasSettings o deepest s) (hkept : Kept s t) :
    HasSettings o deepest t :=
  ⟨hkept.options.trans h.options, hkept.qsearchMaxDepth.trans h.qsearchMaxDepth⟩

theorem HasSettings.pushed {s t : Searcher} (h : HasSettings o deepest s) (hpushed : Pushed s t) :
    HasSettings o deepest t :=
  ⟨hpushed.options.trans h.options, hpushed.qsearchMaxDepth.trans h.qsearchMaxDepth⟩

/-- A result of the part, as a result of the whole. -/
def embed {α : Type} (f : V → W) : α × Searcher × V → α × Searcher × W :=
  fun (x, s, v) => (x, s, f v)

/-- `search` on `f v` does what `part` does on `v`, where `P` holds. -/
def Embedded (f : V → W) (P : Searcher → V → Prop) (part : WindowSearch V)
    (search : WindowSearch W) : Prop :=
  ∀ alpha beta s v, P s v → search alpha beta s (f v) = (part alpha beta s v).map (embed f)

theorem searchAfterMove_embedded {P : Searcher → V → Prop} {part : WindowSearch V}
    {search : WindowSearch W} (hsearch : Embedded f P part search) (alpha beta before after : Int)
    {s : Searcher} {v : V} (hP : P s v) (hnegated : P (s.opened .negation) v) :
    searchAfterMove search alpha beta before after s (f v)
      = (searchAfterMove part alpha beta before after s v).map (embed f) := by
  unfold searchAfterMove
  split
  · rw [hsearch _ _ _ v hnegated, Option.map_map, Option.map_map]
    rfl
  · exact hsearch _ _ s v hP

variable (E : g.Embeds h f o deepest Near)
include E

theorem orderMovesImpl_embedded {s : Searcher} (hs : s.options = o) (v : V) (key : BitVec 64)
    (moves : List Action) (ttMove : Option Action) (probeTtMove : Bool) :
    s.orderMovesImpl h (f v) key moves ttMove probeTtMove
      = s.orderMovesImpl g v key moves ttMove probeTtMove := by
  unfold orderMovesImpl legalHashMoveIndex
  rw [hs, E.moveOrderScoresCtx, E.unpackTtAction]

theorem saveTt_embedded (s : Searcher) (key : BitVec 64) (depth value : Int) (bound : Bound)
    (a : Action) : s.saveTt h key depth value bound a = s.saveTt g key depth value bound a := by
  unfold saveTt
  rw [E.packTtAction]

theorem probeTt_embedded (s : Searcher) (key : BitVec 64) (depth alpha beta : Int) :
    s.probeTt h key depth alpha beta = s.probeTt g key depth alpha beta := by
  unfold probeTt
  rw [E.unpackTtAction]

/-! ## The quiescence search -/

theorem qsearchLoop_embedded {child : WindowSearch W} {part : WindowSearch V}
    {P : Searcher → V → Prop} (hchild : Embedded f P part child) (hrestores : Restores part)
    (beta : Int) {v : V} {moves : List Action}
    (hP : ∀ t : Searcher, HasSettings o deepest t → ∀ a ∈ moves, P t (g.doMove v a))
    (hmove : ∀ a ∈ moves, h.doMove (f v) a = f (g.doMove v a))
    (hundo : ∀ a ∈ moves, g.undoMove (g.doMove v a) = v) (alpha : Int) {s : Searcher}
    (hs : HasSettings o deepest s) :
    qsearchLoop h child beta moves alpha s (f v)
      = (qsearchLoop g part beta moves alpha s v).map (embed f) := by
  -- the two loops make the same checks on the same searcher; only the workbench differs by `f`
  induction moves generalizing alpha s with
  | nil => rfl
  | cons a rest ih =>
    unfold qsearchLoop
    rcases hcheck : s.checkAbort alpha .none with ⟨stop, t⟩
    have ht : HasSettings o deepest t := hs.kept (checkAbort_cases s hcheck).2
    simp only [hmove a List.mem_cons_self, E.sideToMove]
    have hopen : HasSettings o deepest (t.opened (.quiescence alpha beta)) :=
      ht.kept (Kept.opened t _)
    rw [searchAfterMove_embedded hchild alpha beta _ _ (hP _ hopen a List.mem_cons_self)
      (hP _ (hopen.kept (Kept.opened _ _)) a List.mem_cons_self)]
    cases stop with
    | true => rfl
    | false =>
      cases hsearch : searchAfterMove part alpha beta (g.sideToMove v)
          (g.sideToMove (g.doMove v a)) (t.opened (.quiescence alpha beta)) (g.doMove v a) with
      | none => rfl
      -- the child gives the workbench back, so the next move starts from `v` again
      | some found =>
        obtain ⟨value, u, w⟩ := found
        obtain ⟨hkept, rfl⟩ := searchAfterMove_restores hrestores hsearch
        have hu : HasSettings o deepest u.closed := hopen.kept (hkept.trans (Kept.closed u))
        simp only [Bool.false_eq_true, if_false, Option.map_some, embed, E.undoMove,
          hundo a List.mem_cons_self]
        have hrest := fun alpha => ih (fun t ht b hb => hP t ht b (List.mem_cons_of_mem _ hb))
          (fun b hb => hmove b (List.mem_cons_of_mem _ hb))
          (fun b hb => hundo b (List.mem_cons_of_mem _ hb)) alpha hu
        split
        · split
          · rfl
          · exact hrest value
        · exact hrest alpha

theorem qsearchWithDepth_embedded (law : g.Reversible) (fuel : Nat) {depth : Int}
    (hdepth : depth ≤ 0) :
    Embedded f (fun s v => HasSettings o deepest s ∧ Near depth v) (qsearchWithDepth g fuel depth)
      (qsearchWithDepth h fuel depth) := by
  -- the searches stay within the depths where the games agree
  induction fuel generalizing depth with
  | zero => exact fun _ _ _ _ _ => rfl
  | succ fuel ih =>
    rintro alpha beta s v ⟨hs, hnear⟩
    unfold qsearchWithDepth
    rcases hcheck : ({ s with nodes := s.nodes + 1 } : Searcher).checkAbort (g.score v) .none with
      ⟨stop, t⟩
    have hcounted : HasSettings o deepest { s with nodes := s.nodes + 1 } := ⟨hs.1, hs.2⟩
    have ht : HasSettings o deepest t := hcounted.kept (checkAbort_cases _ hcheck).2
    simp only [E.score, E.isTerminal, E.key, hcheck]
    cases stop with
    | true => rfl
    | false =>
      simp only [Bool.false_eq_true, if_false]
      split
      · rfl
      rename_i hroom
      rw [ht.qsearchMaxDepth] at hroom
      have hroom : -depth < deepest := Int.not_le.1 hroom
      split
      · rfl
      split
      · rfl
      cases htag : t.policy.quiescenceKindTag with
      | none => rfl
      | some kindTag =>
        simp only [ht.options, E.generateQuiescenceCtx depth v kindTag hdepth hroom hnear]
        split
        · rfl
        -- the ordering permutes the generated moves
        unfold orderMoves
        rw [orderMovesImpl_embedded E ht.options]
        have hmem : ∀ a, a ∈ t.orderMovesImpl g v (g.key v)
              (g.generateQuiescenceCtx v o.moveOrderContext kindTag) none true →
            a ∈ g.generateQuiescenceCtx v o.moveOrderContext kindTag :=
          fun a ha => (orderMovesImpl_perm g t v _ _ _ _).mem_iff.1 ha
        have hbelow : depth - 1 ≤ 0 := by omega
        exact qsearchLoop_embedded E (ih hbelow) (qsearchWithDepth_restores law fuel _) beta
          (fun t ht a ha =>
            ⟨ht, E.nearTactical depth v kindTag hdepth hroom hnear a (hmem a ha)⟩)
          (fun a ha => E.doTactical depth v kindTag hdepth hroom hnear a (hmem a ha))
          (fun a ha => law.quiescence v _ kindTag a (hmem a ha)) _ ht

/-! ## Alpha-beta -/

theorem alphaBetaLoop_embedded {child : WindowSearch W} {part : WindowSearch V}
    {P : Searcher → V → Prop} (hchild : Embedded f P part child) (hrestores : Restores part)
    (key : BitVec 64) (depth oldAlpha beta : Int) {v : V} {moves : List Action}
    (hP : ∀ t : Searcher, HasSettings o deepest t → ∀ a ∈ moves, P t (g.doMove v a))
    (hmove : ∀ a ∈ moves, h.doMove (f v) a = f (g.doMove v a))
    (hundo : ∀ a ∈ moves, g.undoMove (g.doMove v a) = v) (alpha bestValue : Int)
    (bestAction : Action) {s : Searcher} (hs : HasSettings o deepest s) :
    alphaBetaLoop h child key depth oldAlpha beta moves alpha bestValue bestAction s (f v)
      = (alphaBetaLoop g part key depth oldAlpha beta moves alpha bestValue bestAction s v).map
          (embed f) := by
  induction moves generalizing alpha bestValue bestAction s with
  | nil =>
    unfold alphaBetaLoop
    rw [saveTt_embedded E]
    rfl
  | cons a rest ih =>
    unfold alphaBetaLoop
    rcases hcheck : s.checkAbort (max bestValue alpha) .none with ⟨stop, t⟩
    have ht : HasSettings o deepest t := hs.kept (checkAbort_cases s hcheck).2
    cases stop with
    | true => rfl
    | false =>
      -- pushing an ancestor asks the game for one thing only
      have hpush : ∀ u : Searcher,
          u.pushRepetitionAncestor h key a = u.pushRepetitionAncestor g key a := by
        intro u
        unfold pushRepetitionAncestor
        rw [E.actionResetsRepetition]
      simp only [hmove a List.mem_cons_self, E.sideToMove, hpush, Bool.false_eq_true, if_false]
      cases hpushed : (t.opened (.move alpha beta bestValue rest.isEmpty)).pushRepetitionAncestor g
          key a with
      | none => rfl
      | some pushed =>
        obtain ⟨previous, u⟩ := pushed
        have hu : HasSettings o deepest u := ht.pushed (pushed_of_push hpushed).of_opened
        simp only
        rw [searchAfterMove_embedded hchild alpha beta _ _ (hP u hu a List.mem_cons_self)
          (hP _ (hu.kept (Kept.opened u _)) a List.mem_cons_self)]
        cases hsearch : searchAfterMove part alpha beta (g.sideToMove v)
            (g.sideToMove (g.doMove v a)) u (g.doMove v a) with
        | none => rfl
        | some found =>
          obtain ⟨score, x, w⟩ := found
          obtain ⟨hkept, rfl⟩ := searchAfterMove_restores hrestores hsearch
          have hx : HasSettings o deepest x := hu.kept hkept
          simp only [Option.map_some, embed, E.undoMove, hundo a List.mem_cons_self,
            saveTt_embedded E]
          split
          · rfl
          · exact ih (fun t ht b hb => hP t ht b (List.mem_cons_of_mem _ hb))
              (fun b hb => hmove b (List.mem_cons_of_mem _ hb))
              (fun b hb => hundo b (List.mem_cons_of_mem _ hb)) _ _ _ ⟨hx.1, hx.2⟩

theorem expandNode_embedded (law : g.Reversible) {child : Int → WindowSearch W}
    {part : Int → WindowSearch V}
    (hchild : ∀ depth, Embedded f (fun s v => HasSettings o deepest s ∧ Near depth v) (part depth)
      (child depth))
    (hrestores : ∀ depth, Restores (part depth)) {depth : Int} (hdeep : 0 < depth) (oldAlpha : Int)
    (probe : TtProbeResult) {s : Searcher} {v : V} (hs : HasSettings o deepest s)
    (hnear : Near depth v) :
    expandNode h child depth oldAlpha probe s (f v)
      = (expandNode g part depth oldAlpha probe s v).map (embed f) := by
  have hcut : s.nullMoveCut h (f v) depth probe.beta = s.nullMoveCut g v depth probe.beta := by
    unfold nullMoveCut
    rw [E.score, E.nullMoveTerminalGuard]
  unfold expandNode
  simp only [E.key, E.hasCurrentRepetition, E.repetitionDrawBias, hcut, hs.options,
    E.generateLegalCtx depth v hdeep hnear, E.score, orderMovesWithTtMove,
    orderMovesImpl_embedded E hs.options]
  split
  · rfl
  split
  · rfl
  split
  · rfl
  have hmem : ∀ a, a ∈ s.orderMovesImpl g v (g.key v) (g.generateLegalCtx v o.moveOrderContext)
        probe.ttMove false → a ∈ g.generateLegalCtx v o.moveOrderContext :=
    fun a ha => (orderMovesImpl_perm g s v _ _ _ _).mem_iff.1 ha
  refine alphaBetaLoop_embedded E (hchild _) (hrestores _) _ _ _ _ ?_
    (fun a ha => E.doMove depth v hdeep hnear a (hmem a ha))
    (fun a ha => law.legal v _ a (hmem a ha)) _ _ _ hs
  intro t ht a ha
  refine ⟨ht, ?_⟩
  split
  · -- a forced reply keeps the depth
    rename_i hext
    rw [Int.sub_add_cancel]
    exact E.nearExtended hext.1 depth v hdeep hnear a (hmem a ha)
  · rw [Int.add_zero]
    exact E.near depth v hdeep hnear a (hmem a ha)

/-- **The search of a part is the search of the whole.** -/
theorem alphaBeta_embedded (law : g.Reversible) (fuel : Nat) (depth : Int) :
    Embedded f (fun s v => HasSettings o deepest s ∧ Near depth v) (alphaBeta g fuel depth)
      (alphaBeta h fuel depth) := by
  induction fuel generalizing depth with
  | zero => exact fun _ _ _ _ _ => rfl
  | succ fuel ih =>
    rintro alpha beta s v ⟨hs, hnear⟩
    unfold alphaBeta
    rcases hcheck : ({ s with nodes := s.nodes + 1 } : Searcher).checkAbort (g.score v) .none with
      ⟨stop, t⟩
    have hcounted : HasSettings o deepest { s with nodes := s.nodes + 1 } := ⟨hs.1, hs.2⟩
    have ht : HasSettings o deepest t := hcounted.kept (checkAbort_cases _ hcheck).2
    simp only [hcheck, E.score, E.sideToMove, E.terminalScore depth v _ hnear,
      E.searchAlphaOverride depth v hnear]
    cases stop with
    | true => rfl
    | false =>
      simp only [Bool.false_eq_true, if_false]
      cases g.terminalScore v (g.sideToMove v) depth with
      | some score => rfl
      | none =>
        simp only
        -- at the horizon the quiescence search takes over
        split
        · rename_i hhorizon
          exact qsearchWithDepth_embedded E law fuel hhorizon _ _ t v ⟨ht, hnear⟩
        rename_i hshallow
        split
        · rfl
        have hexpand := fun oldAlpha probe (u : Searcher) (hu : HasSettings o deepest u) =>
          expandNode_embedded E law ih (alphaBeta_restores law fuel) (Int.not_le.1 hshallow)
            oldAlpha probe hu hnear
        -- the table is probed by the key, which the games share
        unfold searchNode
        simp only [E.key, probeTt_embedded E]
        generalize t.probeTt g (g.key v) depth ((g.searchAlphaOverride v).getD alpha) beta = found
        cases found.probe with
        | cutoff value => rfl
        | hitNoCutoff => exact hexpand _ _ _ ⟨ht.1, ht.2⟩
        | miss => exact hexpand _ _ _ ⟨ht.1, ht.2⟩

theorem minimaxPlies_embedded (n : Nat) {v : V} (hnear : Near n v) :
    minimaxPlies h o.moveOrderContext n (f v) = minimaxPlies g o.moveOrderContext n v := by
  induction n generalizing v with
  | zero =>
    unfold minimaxPlies horizonValue
    rw [E.sideToMove, E.terminalScore 0 v _ hnear, E.score]
  | succ n ih =>
    unfold minimaxPlies
    have hdeep : (0 : Int) < (n + 1 : Nat) := by omega
    rw [E.sideToMove, E.terminalScore _ v _ hnear, E.generateLegalCtx _ v hdeep hnear, E.score]
    have hchildren : ((g.generateLegalCtx v o.moveOrderContext).map fun a =>
          perspective (g.sideToMove v) (h.sideToMove (h.doMove (f v) a))
            (minimaxPlies h o.moveOrderContext n (h.doMove (f v) a)))
        = (g.generateLegalCtx v o.moveOrderContext).map fun a =>
          perspective (g.sideToMove v) (g.sideToMove (g.doMove v a))
            (minimaxPlies g o.moveOrderContext n (g.doMove v a)) := by
      refine List.map_congr_left fun a ha => ?_
      have hchild := E.near _ v hdeep hnear a ha
      rw [Int.natCast_add, Int.natCast_one, Int.add_sub_cancel] at hchild
      rw [E.doMove _ v hdeep hnear a ha, E.sideToMove, ih hchild]
    rw [hchildren]

end Searcher

/-- **The frame of alpha-beta on an invariant**: a search that returns has put the workbench and
the repetition stack back. -/
theorem Game.KeptBy.alphaBeta_restores {h : Game W} {I : W → Prop} {Legal : W → Action → Prop}
    (hkept : h.KeptBy I Legal) {wb wb' : W} (hwb : I wb) {fuel : Nat} {depth alpha beta v : Int}
    {s s' : Searcher} (hrun : Searcher.alphaBeta h fuel depth alpha beta s wb = some (v, s', wb')) :
    Searcher.Kept s s' ∧ wb' = wb := by
  have hpart := Searcher.alphaBeta_embedded (hkept.embeds s.options s.qsearchMaxDepth)
    hkept.reversible fuel depth alpha beta s ⟨wb, hwb⟩ ⟨⟨rfl, rfl⟩, trivial⟩
  rw [hrun] at hpart
  obtain ⟨⟨x, u, w⟩, hfound, heq⟩ := Option.map_eq_some_iff.1 hpart.symm
  obtain ⟨rfl, rfl, rfl⟩ := by simpa [Searcher.embed] using heq
  obtain ⟨hframe, rfl⟩ := Searcher.alphaBeta_restores hkept.reversible fuel depth hfound
  exact ⟨hframe, rfl⟩

end Sanmill
