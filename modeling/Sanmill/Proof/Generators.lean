import Mathlib.Data.List.Nodup
import Sanmill.Mill.MoveOrder
import Sanmill.Proof.Legal

/-!
# The search generates what the rules allow

The rules and the search call the same generator with different node orders. An
order lists every node once, however it was shuffled (`priorityForCtx_perm`), and
from such an order no action is generated twice (`nodup_legalActionsWithPriority`).
So what the two push are permutations of one another; whether the list of the search
holds it is a matter of counting, and left to `Proof.Capacity`.
-/

namespace Sanmill

open Bits

/-! ## Node orders list every node once -/

theorem shuffleDown_perm (n : Nat) :
    ∀ (state : BitVec 64) (slice : Array Node), (shuffleDown state n slice).Perm slice := by
  induction n with
  | zero =>
    intro state slice
    exact Array.Perm.refl slice
  | succ n ih =>
    intro state slice
    refine (ih (splitmix64 state) _).trans ?_
    rw [Array.swapIfInBounds_def]
    split
    · split
      · exact Array.swap_perm _ _
      · exact Array.Perm.refl slice
    · exact Array.Perm.refl slice

theorem shufflePrioritySlice_perm (slice : List Node) (seed : BitVec 64) :
    (shufflePrioritySlice slice seed).Perm slice := by
  unfold shufflePrioritySlice
  split
  · exact List.Perm.refl slice
  · have h := shuffleDown_perm (slice.length - 1)
      (if seed = 0 then 0x9E3779B97F4A7C15 else seed) slice.toArray
    exact Array.perm_iff_toList_perm.1 h

theorem staticMovePriorityForSearchCtx_perm (options : MillVariantOptions)
    (ctx : MoveOrderContext) :
    (staticMovePriorityForSearchCtx options ctx).Perm (List.finRange 24) := by
  have h : priorityDiagonal.Perm (List.finRange 24)
      ∧ priorityNoDiagonal.Perm (List.finRange 24) := by decide
  unfold staticMovePriorityForSearchCtx staticMovePriorityForSearch
  split
  · exact List.Perm.refl _
  · split
    · exact h.1
    · exact h.2

/-- The four groups put together are the whole table. -/
theorem prioritySlice_append (priority : List Node) (hlen : priority.length = 24) :
    prioritySlice priority 0 4 ++ prioritySlice priority 4 12 ++ prioritySlice priority 12 16
      ++ prioritySlice priority 16 24 = priority := by
  have hjoin : ∀ lo hi : Nat, lo ≤ hi →
      priority.take lo ++ prioritySlice priority lo hi = priority.take hi := by
    intro lo hi hle
    unfold prioritySlice
    have htake : priority.take lo = (priority.take hi).take lo := by
      rw [List.take_take, Nat.min_eq_left hle]
    rw [htake, List.take_append_drop]
  have hfirst : prioritySlice priority 0 4 = priority.take 4 := rfl
  rw [hfirst, hjoin 4 12 (by omega), hjoin 12 16 (by omega), hjoin 16 24 (by omega), ← hlen,
    List.take_length]

/-- **A shuffled order is still an order of all the nodes.** -/
theorem priorityForCtx_perm (options : MillVariantOptions) (ctx : MoveOrderContext) :
    (priorityForCtx options ctx).Perm (List.finRange 24) := by
  have hstatic := staticMovePriorityForSearchCtx_perm options ctx
  have hlen : (staticMovePriorityForSearchCtx options ctx).length = 24 := by
    rw [hstatic.length_eq, List.length_finRange]
  unfold priorityForCtx movePriorityListForSearch
  split
  · simp only
    split
    · exact hstatic
    · split
      · exact (shufflePrioritySlice_perm _ _).trans hstatic
      · refine List.Perm.trans ?_ hstatic
        have hgroups := prioritySlice_append _ hlen
        nth_rewrite 5 [← hgroups]
        exact (((shufflePrioritySlice_perm _ _).append (shufflePrioritySlice_perm _ _)).append
          (shufflePrioritySlice_perm _ _)).append (shufflePrioritySlice_perm _ _)
  · exact hstatic

/-! ## Actions determine their nodes -/

theorem placeAction_injective : Function.Injective placeAction := by
  intro m n h
  have := congrArg Action.toNode h
  simpa [placeAction] using this

theorem removeAction_injective : Function.Injective removeAction := by
  intro m n h
  have := congrArg Action.toNode h
  simpa [removeAction] using this

theorem moveAction_inj {source target source' target' : Node} :
    moveAction source target = moveAction source' target'
      ↔ source = source' ∧ target = target' := by
  constructor
  · intro h
    have hfrom := congrArg Action.fromNode h
    have hto := congrArg Action.toNode h
    simp only [moveAction, Node.toI8_inj] at hfrom hto
    exact ⟨hfrom, hto⟩
  · rintro ⟨rfl, rfl⟩
    rfl

/-! ## Leaps -/

/-- Every line a capture rule can look at. -/
def allCaptureLines : List Line :=
  captureCrossLines ++ captureSquareEdgeLines ++ captureDiagonalLines

theorem activeCaptureLines_sublist (config : CaptureRuleConfig) (options : MillVariantOptions) :
    (activeCaptureLines config options).Sublist allCaptureLines := by
  have hpart : ∀ (b : Bool) (lines : List Line), (if b then lines else []).Sublist lines := by
    intro b lines
    cases b
    · exact List.nil_sublist lines
    · exact List.Sublist.refl lines
  exact ((hpart _ _).append (hpart _ _)).append (hpart _ _)

/-- The two ends of a capture line are not adjacent. -/
theorem captureLine_ends (diagonal : Bool) {line : Line} (hline : line ∈ allCaptureLines) :
    ¬Adjacent diagonal line.a line.c ∧ ¬Adjacent diagonal line.c line.a := by
  have h : ∀ (d : Bool), ∀ l ∈ allCaptureLines, ¬Adjacent d l.a l.c ∧ ¬Adjacent d l.c l.a := by
    decide +kernel
  exact h diagonal line hline

/-- The node 0 is the middle of an inner side. -/
example : (topologyNeighbors false 0).length = 3 := by decide +kernel

/-- No two capture lines join the same two ends. -/
theorem captureLines_pairwise :
    allCaptureLines.Pairwise fun l l' =>
      ¬(l.a = l'.a ∧ l.c = l'.c) ∧ ¬(l.a = l'.c ∧ l.c = l'.a) := by
  decide +kernel

variable {s : MillState} {options : MillVariantOptions} {priority : List Node}

/-- A leap goes from one end of its line to the other. -/
theorem leapTarget?_ends {source target : Node} {line : Line}
    (h : leapTarget? s options source line = some target) :
    (source = line.a ∧ target = line.c) ∨ (source = line.c ∧ target = line.a) := by
  unfold leapTarget? at h
  simp only at h
  split_ifs at h with h1 h2 h3
  · exact Or.inl ⟨h1.1, (Option.some.inj h).symm⟩
  · exact Or.inr ⟨h3.1, (Option.some.inj h).symm⟩

theorem nodup_leapTargets (source : Node) :
    ((activeCaptureLines options.leapCapture options).filterMap
      (leapTarget? s options source)).Nodup := by
  unfold List.Nodup
  rw [List.pairwise_filterMap]
  refine (captureLines_pairwise.sublist (activeCaptureLines_sublist _ _)).imp ?_
  intro l l' hne t ht t' ht' heq
  subst heq
  rcases leapTarget?_ends ht with ⟨h1, h2⟩ | ⟨h1, h2⟩ <;>
    rcases leapTarget?_ends ht' with ⟨h3, h4⟩ | ⟨h3, h4⟩
  · exact hne.1 ⟨h1.symm.trans h3, h2.symm.trans h4⟩
  · exact hne.2 ⟨h1.symm.trans h3, h2.symm.trans h4⟩
  · exact hne.2 ⟨h2.symm.trans h4, h1.symm.trans h3⟩
  · exact hne.1 ⟨h2.symm.trans h4, h1.symm.trans h3⟩

/-- A leap lands where no step leads. -/
theorem not_adjacent_of_leap {source target : Node} {line : Line}
    (hline : line ∈ activeCaptureLines options.leapCapture options)
    (h : leapTarget? s options source line = some target) :
    ¬Adjacent options.hasDiagonalLines source target := by
  have hends := captureLine_ends options.hasDiagonalLines
    ((activeCaptureLines_sublist _ _).subset hline)
  rcases leapTarget?_ends h with ⟨rfl, rfl⟩ | ⟨rfl, rfl⟩
  · exact hends.1
  · exact hends.2

/-! ## No action is generated twice -/

theorem nodup_topologyNeighbors (diagonal : Bool) (source : Node) :
    (topologyNeighbors diagonal source).Nodup := by
  have h : ∀ (d : Bool) (n : Node), (topologyNeighbors d n).Nodup := by decide +kernel
  exact h diagonal source

theorem nodup_plainMoveTargets (fly : Bool) (source : Node) :
    (plainMoveTargets s options fly source).Nodup := by
  unfold plainMoveTargets
  split
  · exact (List.nodup_finRange 24).filter _
  · exact (nodup_topologyNeighbors _ _).filter _

theorem nodup_filteredMoveTargets (fly leap : Bool) (source : Node) :
    (filteredMoveTargets s options fly leap source).Nodup := by
  unfold filteredMoveTargets
  split
  · exact (List.nodup_finRange 24).filter _
  · simp only
    split
    · exact List.nodup_nil
    · cases leap
      · simpa using (nodup_topologyNeighbors options.hasDiagonalLines source).filter _
      · refine List.Nodup.append ((nodup_topologyNeighbors _ _).filter _)
          (nodup_leapTargets source) ?_
        -- a step is adjacent to its source, a leap is not
        intro target hstep hleap
        obtain ⟨line, hline, hlands⟩ := List.mem_filterMap.1 hleap
        have hadjacent := (mem_topologyNeighbors _ _ _).1 (List.mem_filter.1 hstep).1
        exact not_adjacent_of_leap hline hlands hadjacent

theorem nodup_moves {sources : List Node} {targets : Node → List Node} (hs : sources.Nodup)
    (ht : ∀ source, (targets source).Nodup) :
    (sources.flatMap fun source => (targets source).map (moveAction source)).Nodup := by
  rw [List.nodup_flatMap]
  constructor
  · intro source _
    exact (ht source).map fun m n h => (moveAction_inj.1 h).2
  · refine hs.imp ?_
    intro source source' hne a ha ha'
    obtain ⟨target, _, rfl⟩ := List.mem_map.1 ha
    obtain ⟨target', _, heq⟩ := List.mem_map.1 ha'
    exact hne (moveAction_inj.1 heq).1.symm

theorem nodup_generateMoveActionsWithPriority (hp : priority.Nodup) (allowFly : Bool) :
    (generateMoveActionsWithPriority s options allowFly priority).Nodup := by
  have hsources : ∀ p : Node → Bool, (priority.reverse.filter p).Nodup := fun p =>
    (List.nodup_reverse.2 hp).filter p
  unfold generateMoveActionsWithPriority
  simp only
  split
  · exact nodup_moves (hsources _) fun source => nodup_plainMoveTargets _ source
  · exact nodup_moves (hsources _) fun source => nodup_filteredMoveTargets _ _ source

theorem nodup_generateRegularRemoveActions (hp : priority.Nodup) (piece : Int)
    (excluded : Bitboard) :
    (generateRegularRemoveActionsForPiece s options piece excluded priority).Nodup :=
  ((List.nodup_reverse.2 hp).filter _).map removeAction_injective

theorem nodup_generateCaptureRemoveActions (targets : Bitboard) :
    (generateCaptureRemoveActions s targets).Nodup :=
  ((List.nodup_finRange 24).filter _).map removeAction_injective

/-- Own pieces and opposing pieces stand on different nodes. -/
def MasksDisjoint (s : MillState) : Prop :=
  ∀ n : Node, ¬(testBit (s.byColorBb 0) n = true ∧ testBit (s.byColorBb 1) n = true)

theorem MasksDisjoint.pieces (h : MasksDisjoint s) (hside : s.sideToMove = 0 ∨ s.sideToMove = 1)
    (n : Node) : ¬(testBit (s.pieceBitboard s.opponentPiece) n = true
      ∧ testBit (s.pieceBitboard (s.sideToMove + 1)) n = true) := by
  unfold MillPosition.pieceBitboard MillState.opponentPiece xorOne
  rcases hside with hs | hs
  · simpa [hs, colorIndexForPiece, and_comm] using h n
  · simpa [hs, colorIndexForPiece] using h n

theorem nodup_generateRemoveActions (hp : priority.Nodup) (hmasks : MasksDisjoint s)
    (hside : s.sideToMove = 0 ∨ s.sideToMove = 1) :
    (generateRemoveActions s options priority).Nodup := by
  have hcaptures : (if captureTargetsOfActive s ≠ 0 then
      generateCaptureRemoveActions s (captureTargetsOfActive s) else []).Nodup := by
    split
    · exact nodup_generateCaptureRemoveActions _
    · exact List.nodup_nil
  have hcaptured : ∀ {a : Action}, a ∈ (if captureTargetsOfActive s ≠ 0 then
      generateCaptureRemoveActions s (captureTargetsOfActive s) else []) →
      ∃ n, a = removeAction n
        ∧ testBit (captureTargetsOfActive s &&& s.pieceBitboard s.opponentPiece) n = true := by
    intro a ha
    split at ha
    · exact (mem_generateCaptureRemoveActions _ a).1 ha
    · exact absurd ha List.not_mem_nil
  unfold generateRemoveActions
  simp only
  split
  · exact hcaptures
  · split
    · -- own pieces: never the opponent's piece a capture names
      refine List.Nodup.append hcaptures (nodup_generateRegularRemoveActions hp _ _) ?_
      intro a ha ha'
      obtain ⟨n, rfl, hn⟩ := hcaptured ha
      obtain ⟨m, hm, -, hregular⟩ := List.mem_map.1 ha' |>.imp fun m h =>
        And.intro h.2 (List.mem_filter.1 h.1)
      obtain rfl := removeAction_injective hm
      unfold isRegularRemoveTarget at hregular
      simp only [Bool.and_eq_true] at hregular
      rw [testBit_and, Bool.and_eq_true] at hn
      exact hmasks.pieces hside m ⟨hn.2, hregular.1.1⟩
    · -- opposing pieces: the captures are excluded
      refine List.Nodup.append hcaptures (nodup_generateRegularRemoveActions hp _ _) ?_
      intro a ha ha'
      obtain ⟨n, rfl, hn⟩ := hcaptured ha
      obtain ⟨m, hm, -, hregular⟩ := List.mem_map.1 ha' |>.imp fun m h =>
        And.intro h.2 (List.mem_filter.1 h.1)
      obtain rfl := removeAction_injective hm
      unfold isRegularRemoveTarget at hregular
      simp only [Bool.and_eq_true, Bool.not_eq_true'] at hregular
      rw [testBit_and, Bool.and_eq_true, hregular.1.2] at hn
      exact Bool.false_ne_true hn.1

theorem nodup_generatePlaceActions (hp : priority.Nodup) :
    (generatePlaceActions s priority).Nodup := by
  unfold generatePlaceActions
  split
  · exact (hp.filter _).map placeAction_injective
  · exact List.nodup_nil

/-- Only a side in range has actions. -/
theorem side_of_actionForLegalGeneration (h : s.actionForLegalGeneration ≠ .gameOver) :
    s.sideToMove = 0 ∨ s.sideToMove = 1 := by
  unfold MillState.actionForLegalGeneration at h
  split at h
  · exact absurd rfl h
  · rename_i hrun
    push Not at hrun
    omega

/-- **No action is generated twice.** -/
theorem nodup_legalActionsWithPriority (hp : priority.Nodup) (hmasks : MasksDisjoint s) :
    (legalActionsWithPriority s options priority).Nodup := by
  unfold legalActionsWithPriority
  split
  · rename_i haction
    have hside := side_of_actionForLegalGeneration (s := s) (by simp [haction])
    split
    · exact nodup_generateRemoveActions hp hmasks hside
    · exact List.nodup_nil
  · split
    · refine List.Nodup.append (nodup_generatePlaceActions hp)
        -- placements and moves carry different tags
        (nodup_generateMoveActionsWithPriority hp false) ?_
      intro a hplace hmove
      unfold generatePlaceActions at hplace
      split at hplace
      · obtain ⟨n, _, rfl⟩ := List.mem_map.1 hplace
        have hkinds : ∀ b ∈ generateMoveActionsWithPriority s options false priority,
            b.kindTag = MillActionKind.move.toI16 := by
          intro b hb
          unfold generateMoveActionsWithPriority at hb
          simp only at hb
          split at hb <;>
          · obtain ⟨source, _, hb⟩ := List.mem_flatMap.1 hb
            obtain ⟨target, _, rfl⟩ := List.mem_map.1 hb
            rfl
        have := hkinds _ hmove
        simp [placeAction, MillActionKind.toI16] at this
      · exact absurd hplace List.not_mem_nil
    · simpa using nodup_generatePlaceActions hp
  · split
    · exact nodup_generateMoveActionsWithPriority hp true
    · exact List.nodup_nil
  · exact List.nodup_nil

/-! ## The two generators -/

/-- The masks a snapshot is decoded to are derived from the board, so they are disjoint. -/
theorem masksDisjoint_decode (snap : GameStateSnapshot) (options : MillVariantOptions) :
    MasksDisjoint (MillState.decodeWithOptions snap options) := by
  rintro n ⟨h0, h1⟩
  change testBit (bitboardsFromBoard _ _ 0) n = true at h0
  change testBit (bitboardsFromBoard _ _ 1) n = true at h1
  rw [testBit_bitboardsFromBoard, Bool.and_eq_true, decide_eq_true_eq] at h0 h1
  have hpiece := h0.2.symm.trans h1.2
  simp [Side.toI8] at hpiece

/-- The repetition history is no input of the generator. -/
theorem legalActionsWithPriority_keyHistory (s : MillState) (options : MillVariantOptions)
    (priority : List Node) (history : List Key) (len : Nat) :
    legalActionsWithPriority { s with keyHistory := history, keyHistoryLen := len } options priority
      = legalActionsWithPriority s options priority :=
  rfl

theorem kindTag_of_mem_generateRemoveActions {a : Action}
    (ha : a ∈ generateRemoveActions s options priority) :
    a.kindTag = MillActionKind.remove.toI16 := by
  have hremoval : ∀ (l : List Node), ∀ b ∈ l.map removeAction,
      b.kindTag = MillActionKind.remove.toI16 := by
    intro l b hb
    obtain ⟨n, _, rfl⟩ := List.mem_map.1 hb
    rfl
  have hcaptures : ∀ b ∈ (if captureTargetsOfActive s ≠ 0 then
      generateCaptureRemoveActions s (captureTargetsOfActive s) else []),
      b.kindTag = MillActionKind.remove.toI16 := by
    intro b hb
    split at hb
    · exact hremoval _ b hb
    · exact absurd hb List.not_mem_nil
  unfold generateRemoveActions at ha
  simp only at ha
  split at ha
  · exact hcaptures a ha
  · split at ha <;> rcases List.mem_append.1 ha with h | h
    · exact hcaptures a h
    · exact hremoval _ a h
    · exact hcaptures a h
    · exact hremoval _ a h

/-- The removal path of the quiescence generator skips no removal and adds nothing. -/
theorem quiescencePushes_remove (wb : MillWorkbench) (ctx : MoveOrderContext) :
    MillGame.quiescencePushes wb ctx MillActionKind.remove.toI16
      = (MillGame.legalPushes wb ctx).filter fun action : Action =>
          action.kindTag = MillActionKind.remove.toI16 := by
  unfold MillGame.quiescencePushes
  split
  · rename_i hpath
    obtain ⟨-, hremove, hnonneg⟩ := of_decide_eq_true hpath
    have hside := side_of_actionForLegalGeneration (s := wb.state) (by simp [hremove])
    have hlegal : MillGame.legalPushes wb ctx
        = if wb.state.pendingRemovals (sideIndex wb.state.sideToMove) > 0 then
            generateRemoveActions wb.state wb.rules.options (priorityForCtx wb.rules.options ctx)
          else [] := by
      unfold MillGame.legalPushes legalPushesCtx legalActionsWithPriority
      rw [hremove]
    rw [hlegal]
    unfold MillGame.removalPushes
    split
    · rename_i hnone
      have hpending : wb.state.pendingRemovals (sideIndex wb.state.sideToMove) = 0 :=
        hnone.resolve_left (by omega)
      rw [if_neg (by omega), List.filter_nil]
    · rename_i hsome
      push Not at hsome
      rw [if_pos (Nat.pos_of_ne_zero hsome.2)]
      refine (List.filter_eq_self.2 fun a ha => ?_).symm
      exact decide_eq_true (kindTag_of_mem_generateRemoveActions ha)
  · rfl

/-! ## The list of the search -/

/-- The generator returns what it pushed, as soon as the list of the search holds it. -/
theorem generateLegalCtx_eq (wb : MillWorkbench) (ctx : MoveOrderContext) :
    MillGame.generateLegalCtx wb ctx
      = if (MillGame.legalPushes wb ctx).length ≤ searchActionCapacity then
          some (MillGame.legalPushes wb ctx)
        else none :=
  ActionList.pushAll_nil _ _

/-- Where all legal actions fit the list, so do those the quiescence generator pushes. -/
theorem generateQuiescenceCtx_fits {wb : MillWorkbench} {ctx : MoveOrderContext}
    (hfits : (MillGame.legalPushes wb ctx).length ≤ searchActionCapacity) :
    MillGame.generateQuiescenceCtx wb ctx MillActionKind.remove.toI16
      = some (MillGame.quiescencePushes wb ctx MillActionKind.remove.toI16) := by
  have hremovals := quiescencePushes_remove wb ctx
  unfold MillGame.generateQuiescenceCtx
  unfold MillGame.quiescencePushes at hremovals ⊢
  split
  · rename_i hpath
    rw [if_pos hpath] at hremovals
    have hfew : (MillGame.removalPushes wb ctx).length ≤ searchActionCapacity := by
      rw [hremovals]
      exact (List.length_filter_le _ _).trans hfits
    rw [ActionList.pushAll_nil, if_pos hfew]
  · rw [generateLegalCtx_eq, if_pos hfits, Option.map_some]

/-- The workbench of a snapshot generates what the decoded snapshot does. -/
theorem buildWorkbench_generates (r : MillRules) (rootRepetitionHistory : List Key)
    (snap : GameStateSnapshot) :
    ∃ wb, MillGame.buildWorkbench ⟨r.options, rootRepetitionHistory⟩ snap = some wb
      ∧ wb.rules = r
      ∧ ∀ priority, legalActionsWithPriority wb.state r.options priority
          = legalActionsWithPriority (MillState.decodeWithOptions snap r.options) r.options
              priority := by
  have hnew : MillRules.new? r.options = some r := by
    unfold MillRules.new?
    rw [dif_pos r.valid]
  unfold MillGame.buildWorkbench
  rw [hnew]
  refine ⟨_, rfl, rfl, fun priority => ?_⟩
  -- a longer root history only replaces the keys of the decoded state
  simp only
  split
  · exact legalActionsWithPriority_keyHistory _ _ _ _ _
  · rfl

/-- On the workbench of a snapshot the search pushes the actions of the rules in some order, each
once. -/
theorem legalPushes_perm (r : MillRules) (rootRepetitionHistory : List Key)
    (snap : GameStateSnapshot) :
    ∃ wb, MillGame.buildWorkbench ⟨r.options, rootRepetitionHistory⟩ snap = some wb
      ∧ (∀ ctx, MillGame.legalPushes wb ctx
          = legalPushesCtx (MillState.decodeWithOptions snap r.options) r.options ctx)
      ∧ ∀ ctx, (MillGame.legalPushes wb ctx).Nodup
        ∧ (MillGame.legalPushes wb ctx).Perm (r.legalActions snap) := by
  obtain ⟨wb, hbuild, hrules, hgenerate⟩ :=
    buildWorkbench_generates r rootRepetitionHistory snap
  have heq : ∀ ctx, MillGame.legalPushes wb ctx
      = legalPushesCtx (MillState.decodeWithOptions snap r.options) r.options ctx := by
    intro ctx
    unfold MillGame.legalPushes legalPushesCtx
    rw [hrules, hgenerate]
  refine ⟨wb, hbuild, heq, fun ctx => ?_⟩
  have hmasks := masksDisjoint_decode snap r.options
  have horder := priorityForCtx_perm r.options ctx
  have hdense : defaultDensePriority.Nodup := List.nodup_finRange 24
  rw [heq]
  unfold legalPushesCtx
  have hnodup : (legalActionsWithPriority (MillState.decodeWithOptions snap r.options) r.options
      (priorityForCtx r.options ctx)).Nodup :=
    nodup_legalActionsWithPriority (horder.nodup_iff.2 (List.nodup_finRange 24)) hmasks
  refine ⟨hnodup, (List.perm_ext_iff_of_nodup hnodup
    (nodup_legalActionsWithPriority hdense hmasks)).2 fun a => ?_⟩
  rw [mem_legalActionsWithPriority fun n => horder.mem_iff.2 (List.mem_finRange n),
    mem_legalActionsWithPriority mem_defaultDensePriority]

end Sanmill
