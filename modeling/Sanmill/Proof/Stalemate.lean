import Sanmill.Proof.Capacity
import Sanmill.Proof.FastPath

/-!
# When the stalemate test is right

`isStalemated` looks for a flight or a step and never for a leap, while the
generator produces all three. So the two agree when a side that can leap can also
step, `CanLeap s options c → CanStep s options c`, and nowhere else; a side that
flies must in addition have something to fly and somewhere to go.
-/

namespace Sanmill

open Bits

variable {r : MillRules} {options : MillVariantOptions} {s : MillState} {c : Side}
  {source target : Node}

/--
The states the stalemate test is applied to: those a side acts in, and those an
action has just led to. A fast path tests the state of the general path, up to its key.
-/
inductive StalemateTested (r : MillRules) : MillState → Prop
  | reached {s : MillState} (h : SearchReachable r s) : StalemateTested r s
  | played {snap : GameStateSnapshot} {a : Action} (h : Reachable r snap)
      (history : List GameStateSnapshot) (ha : a ∈ r.legalActions snap) {s : MillState}
      (hs : s = r.hydrateRepetitionHistory (MillState.decodeWithOptions snap r.options) snap
        history) :
      StalemateTested r (r.applyBranch s (.capture r s a) a true).1
  | searched {s : MillState} {a : Action} (h : SearchReachable r s)
      (ha : LegalAction s r.options a) :
      StalemateTested r (r.applyBranch s (.capture r s a) a false).1

theorem applyBranch_inv {a : Action} (h : StateInv r.options s) (ha : LegalAction s r.options a)
    (adjudicate : Bool) :
    StateInv r.options (r.applyBranch s (.capture r s a) a adjudicate).1 := by
  obtain ⟨c, hturn, hstep⟩ := h.legalStep ha
  obtain ⟨p, hwritten, hdone⟩ := applyBranch_done r h hturn hstep (.capture r s a) adjudicate
  exact hdone.stateInv r h hstep hwritten

theorem StalemateTested.inv (h : StalemateTested r s) : StateInv r.options s := by
  cases h with
  | reached h => exact h.inv
  | played h history ha hs =>
    rename_i snap a s
    obtain ⟨keys, len, hkeys⟩ := hydrate_cases r (MillState.decodeWithOptions snap r.options) snap
      history
    rw [mem_legalActions_iff] at ha
    subst hs
    rw [hkeys]
    exact applyBranch_inv (h.inv.withHistory keys len) ha true
  | searched h ha => exact applyBranch_inv h.inv ha false

/-! ## The repeated-mill restriction, twice -/

/-- The count of the generator and the probe of the stalemate test ask the same question. -/
theorem potentialMillsCount_pos_iff (s : MillState) (options : MillVariantOptions) (c : Side)
    (bb : Bitboard) (n : Node) :
    0 < (if !options.hasDiagonalLines && !options.oneTimeUseMill then
          potentialMillsCountStandardUnrestricted bb n none
        else
          (millLinePeerMasksForNode options n).countP fun peerMask =>
            bb &&& peerMask = peerMask
              ∧ ¬(options.oneTimeUseMill = true
                ∧ (nodeBit n ||| peerMask) &&& s.formedMillsBb c = nodeBit n ||| peerMask))
      ↔ inUsableMill s options bb n c = true := by
  unfold inUsableMill
  rw [List.any_eq_true]
  by_cases hstd : (!options.hasDiagonalLines && !options.oneTimeUseMill) = true
  · -- the fixed-width probe counts the two lines of the standard board
    rw [if_pos hstd]
    rw [Bool.and_eq_true, Bool.not_eq_true', Bool.not_eq_true'] at hstd
    obtain ⟨i, j, a, b, hlines⟩ := standard_lines n
    unfold potentialMillsCountStandardUnrestricted millLinePeerMasksForNode millLines
    rw [hstd.1, hstd.2]
    simp only [hlines.peers, List.getD_cons_zero, List.getD_cons_succ, Bool.false_eq_true,
      if_false, List.mem_cons, List.not_mem_nil, or_false, exists_eq_or_imp, exists_eq_left,
      Bool.not_false, Bool.true_or, Bool.and_true, decide_eq_true_eq]
    by_cases ha : bb &&& a = a <;> by_cases hb : bb &&& b = b <;> simp [ha, hb]
  · rw [if_neg hstd, List.countP_pos_iff]
    refine exists_congr fun peerMask => and_congr_right fun _ => ?_
    cases options.oneTimeUseMill <;> simp

theorem isRestrictedRepeatedMill_iff (hactive : s.sideToMove = c.toI8) :
    isRestrictedRepeatedMill s options source target = true
      ↔ options.restrictRepeatedMillsFormation = true ∧ s.lastMillTo c = source.toI8
        ∧ s.lastMillFrom c = target.toI8
        ∧ isShuttleMoveRestricted s options source target c = true := by
  -- a count of mills is positive exactly if the node is in one that may be used
  have hown : 0 < potentialMillsCountAt s options source c.toI8 none
      ↔ inUsableMill s options (s.byColorBb c) source c = true := by
    rw [← potentialMillsCount_pos_iff]
    simp only [potentialMillsCountAt, Side.colorIndexForPiece_toI8]
  have hmoved : 0 < potentialMillsCountAt s options target c.toI8 (some source)
      ↔ inUsableMill s options (s.byColorBb c &&& ~~~nodeBit source) target c = true := by
    rw [← potentialMillsCount_pos_iff]
    simp only [potentialMillsCountAt, Side.colorIndexForPiece_toI8]
  unfold isRestrictedRepeatedMill isShuttleMoveRestricted
  rw [hactive]
  simp only [Side.toI8_nonneg, Side.toI8_lt_two, and_self, not_true_eq_false, if_false,
    Side.sideIndex_toI8, Bool.and_eq_true, ← hown, ← hmoved]
  by_cases hoff : options.restrictRepeatedMillsFormation = true
  · have hs := source.toI8_bounds
    have ht := target.toI8_bounds
    simp only [hoff, Bool.not_true, Bool.false_eq_true, if_false]
    by_cases hto : s.lastMillTo c = source.toI8
    · by_cases hfrom : s.lastMillFrom c = target.toI8
      · have hnone : ¬(s.lastMillFrom c < 0 ∨ s.lastMillTo c < 0) := by omega
        rw [if_neg hnone, if_neg (by omega)]
        by_cases hzero : potentialMillsCountAt s options source c.toI8 none = 0
        · rw [if_pos hzero]
          simp [hzero]
        · rw [if_neg hzero]
          simp [hto, hfrom, Nat.pos_of_ne_zero hzero]
      · simp [Ne.symm hfrom, hfrom]
    · simp [Ne.symm hto, hto]
  · simp [hoff]

/-! ## One piece -/

/-- **A piece counts as surrounded when no step of it is allowed.** -/
theorem isPieceSurrounded_iff (hactive : s.sideToMove = c.toI8) :
    isPieceSurrounded s options c source = true
      ↔ ∀ target : Node, Adjacent options.hasDiagonalLines source target →
        testBit s.boardOccupiedBitboard target = false →
        isRestrictedRepeatedMill s options source target = true := by
  have hempty : ∀ target : Node, testBit (emptyNeighbors s options source) target = true
      ↔ Adjacent options.hasDiagonalLines source target
        ∧ testBit s.boardOccupiedBitboard target = false := testBit_emptyNeighbors source
  have hbelow : ∀ i, testBit (emptyNeighbors s options source) i = true → i < 24 := by
    intro i hi
    unfold emptyNeighbors at hi
    rw [testBit_and_not, Bool.and_eq_true] at hi
    exact neighborMaskFor_below _ source i hi.1
  have hdef : isPieceSurrounded s options c source
      = (emptyNeighbors s options source = 0
        || options.restrictRepeatedMillsFormation
          && (boardNode? (s.lastMillTo c)).elim false fun lastTo =>
            (boardNode? (s.lastMillFrom c)).elim false fun lastFrom =>
              source = lastTo && emptyNeighbors s options source = nodeBit lastFrom
                && isShuttleMoveRestricted s options source lastFrom c) := by
    unfold isPieceSurrounded emptyNeighbors
    cases boardNode? (s.lastMillTo c) <;> cases boardNode? (s.lastMillFrom c) <;> rfl
  rw [hdef, Bool.or_eq_true, Bool.and_eq_true, decide_eq_true_eq]
  constructor
  · rintro (hzero | ⟨hon, hshuttle⟩) target hadjacent hfree
    · have := (hempty target).2 ⟨hadjacent, hfree⟩
      rw [hzero] at this
      simp at this
    · cases hto : boardNode? (s.lastMillTo c) with
      | none => simp [hto] at hshuttle
      | some lastTo =>
        cases hfrom : boardNode? (s.lastMillFrom c) with
        | none => simp [hto, hfrom] at hshuttle
        | some lastFrom =>
          simp only [hto, hfrom, Option.elim_some, Bool.and_eq_true, decide_eq_true_eq] at hshuttle
          obtain ⟨⟨rfl, honly⟩, hrestricted⟩ := hshuttle
          -- the only empty neighbour is the square the last mill came from
          have hbit := (hempty target).2 ⟨hadjacent, hfree⟩
          rw [honly, testBit_nodeBit, decide_eq_true_eq] at hbit
          subst hbit
          exact (isRestrictedRepeatedMill_iff hactive).2
            ⟨hon, (boardNode?_eq_some_iff _ _).1 hto, (boardNode?_eq_some_iff _ _).1 hfrom,
              hrestricted⟩
  · intro hall
    by_cases hsome : ∃ target : Node, testBit (emptyNeighbors s options source) target = true
    · right
      obtain ⟨target, htarget⟩ := hsome
      obtain ⟨hadjacent, hfree⟩ := (hempty target).1 htarget
      obtain ⟨hon, hto, hfrom, hrestricted⟩ :=
        (isRestrictedRepeatedMill_iff hactive).1 (hall target hadjacent hfree)
      refine ⟨hon, ?_⟩
      rw [hto, hfrom, boardNode?_toI8, boardNode?_toI8]
      simp only [Option.elim_some, Bool.and_eq_true, decide_eq_true_eq, true_and]
      refine ⟨mask_ext hbelow (fun i => nodeBit_below) fun n => ?_, hrestricted⟩
      rw [testBit_nodeBit, Bool.eq_iff_iff, decide_eq_true_eq]
      constructor
      · intro hn
        obtain ⟨hadj, hf⟩ := (hempty n).1 hn
        have hn' := ((isRestrictedRepeatedMill_iff hactive).1 (hall n hadj hf)).2.2.1
        exact (Node.toI8_inj _ _).1 (hfrom.symm.trans hn')
      · rintro rfl
        exact htarget
    · left
      refine mask_ext hbelow (fun i hi => absurd hi (by simp)) fun n => ?_
      have hzero : testBit (0 : Bitboard) n = false := by simp
      rw [hzero, Bool.eq_false_iff]
      exact fun hn => hsome ⟨n, hn⟩

/-- On an empty board nothing is surrounded. -/
example : isPieceSurrounded (initialMillState ⟨{}, by decide⟩) {} 0 0 = false := by
  decide +kernel

/-! ## The moves of a side -/

/-- `c` has a step. -/
def CanStep (s : MillState) (options : MillVariantOptions) (c : Side) : Prop :=
  ∃ source target : Node, testBit (s.byColorBb c) source = true
    ∧ testBit s.boardOccupiedBitboard target = false
    ∧ isRestrictedRepeatedMill s options source target = false
    ∧ Adjacent options.hasDiagonalLines source target

/-- `c` has a leap. -/
def CanLeap (s : MillState) (options : MillVariantOptions) (c : Side) : Prop :=
  leapEnabled s options true = true
    ∧ ∃ source target : Node, testBit (s.byColorBb c) source = true
      ∧ ∃ line ∈ activeCaptureLines options.leapCapture options,
        leapTarget? s options source line = some target

theorem generateMoveActions_eq_nil_iff {priority : List Node} (hpriority : ∀ n, n ∈ priority) :
    generateMoveActionsWithPriority s options true priority = []
      ↔ ¬∃ source target, MoveTarget s options true source target := by
  rw [List.eq_nil_iff_forall_not_mem]
  constructor
  · rintro hnone ⟨source, target, htarget⟩
    exact hnone _ ((mem_generateMoveActionsWithPriority hpriority true _).2
      ⟨source, target, rfl, htarget⟩)
  · intro hnone a ha
    obtain ⟨source, target, -, htarget⟩ :=
      (mem_generateMoveActionsWithPriority hpriority true a).1 ha
    exact hnone ⟨source, target, htarget⟩

/-- A side that walks has its steps and its leaps. -/
theorem moveTarget_walking (hactive : s.sideToMove = c.toI8)
    (hwalks : canFly s options true = false) :
    (∃ source target, MoveTarget s options true source target)
      ↔ CanStep s options c ∨ CanLeap s options c := by
  unfold MoveTarget CanStep CanLeap
  rw [hwalks, hactive, Side.sideIndex_toI8]
  constructor
  · rintro ⟨source, target, hown, ⟨hempty, hfree, hadjacent⟩ | ⟨-, hleap, hline⟩⟩
    · exact Or.inl ⟨source, target, hown, hempty, hfree, hadjacent.resolve_left Bool.false_ne_true⟩
    · exact Or.inr ⟨hleap, source, target, hown, hline⟩
  · rintro (⟨source, target, hown, hempty, hfree, hadjacent⟩ | ⟨hleap, source, target, hown, hline⟩)
    · exact ⟨source, target, hown, Or.inl ⟨hempty, hfree, Or.inr hadjacent⟩⟩
    · exact ⟨source, target, hown, Or.inr ⟨rfl, hleap, hline⟩⟩

/-- A piece of a usable mill does not stand alone. -/
theorem exists_peer {bb : Bitboard} (h : inUsableMill s options bb source c = true) :
    ∃ peer : Node, testBit bb peer = true ∧ peer ≠ source := by
  have hpeer : ∀ (d : Bool) (n : Node),
      (buildMillLinePeerMasksByNode (if d then diagonalMillLines else standardMillLines) n).all
        (fun mask => (List.finRange 24).any fun m : Node => testBit mask m && m != n) = true := by
    decide +kernel
  unfold inUsableMill at h
  obtain ⟨mask, hmask, hcovered⟩ := List.any_eq_true.1 h
  rw [Bool.and_eq_true, decide_eq_true_eq] at hcovered
  obtain ⟨peer, -, hpeer⟩ :=
    List.any_eq_true.1 (List.all_eq_true.1 (hpeer options.hasDiagonalLines source) mask hmask)
  rw [Bool.and_eq_true, bne_iff_ne] at hpeer
  exact ⟨peer, (and_eq_right_iff_testBit _ _).1 hcovered.1 peer hpeer.1, hpeer.2⟩

/-- A side that flies has a move as soon as it has a piece and the board an empty node. -/
theorem moveTarget_flying (hactive : s.sideToMove = c.toI8)
    (hflies : canFly s options true = true) :
    (∃ source target, MoveTarget s options true source target)
      ↔ (∃ source : Node, testBit (s.byColorBb c) source = true)
        ∧ ∃ target : Node, testBit s.boardOccupiedBitboard target = false := by
  unfold MoveTarget
  rw [hflies, hactive, Side.sideIndex_toI8]
  constructor
  · rintro ⟨source, target, hown, ⟨hempty, -, -⟩ | ⟨hwalks, -⟩⟩
    · exact ⟨⟨source, hown⟩, target, hempty⟩
    · exact absurd hwalks.symm Bool.false_ne_true
  · rintro ⟨⟨source, hown⟩, target, hempty⟩
    by_cases hfree : isRestrictedRepeatedMill s options source target = false
    · exact ⟨source, target, hown, Or.inl ⟨hempty, hfree, Or.inl rfl⟩⟩
    · -- only the piece of the last mill is restricted, and that mill has other pieces
      rw [Bool.not_eq_false] at hfree
      obtain ⟨-, hto, -, hshuttle⟩ := (isRestrictedRepeatedMill_iff hactive).1 hfree
      unfold isShuttleMoveRestricted at hshuttle
      rw [Bool.and_eq_true] at hshuttle
      obtain ⟨peer, hpeer, hne⟩ := exists_peer hshuttle.1
      refine ⟨peer, target, hpeer, Or.inl ⟨hempty, ?_, Or.inl rfl⟩⟩
      rw [Bool.eq_false_iff]
      intro hrestricted
      have hto' := ((isRestrictedRepeatedMill_iff hactive).1 hrestricted).2.1
      exact hne ((Node.toI8_inj _ _).1 (hto'.symm.trans hto))

/-- Two full sides leave no node empty. -/
theorem occupied_of_full (hpos : PositionInv options s.toMillPosition)
    (hfull : 24 ≤ s.piecesOnBoard 0 + s.piecesOnBoard 1) (n : Node) :
    testBit s.boardOccupiedBitboard n = true := by
  by_contra hempty
  rw [Bool.not_eq_true] at hempty
  have hsides : Disjoint (ownNodes s 0) (ownNodes s 1) := by
    rw [Finset.disjoint_left]
    intro m h0 h1
    have h0 := ((hpos.live_iff 0 m).1 (Finset.mem_filter.1 h0).2).2
    have h1 := ((hpos.live_iff 1 m).1 (Finset.mem_filter.1 h1).2).2
    rw [h0] at h1
    exact absurd h1 (by decide)
  have hcard := Finset.card_union_of_disjoint hsides
  have hlive : ownNodes s 0 ∪ ownNodes s 1 ⊆ Finset.univ.erase n := by
    intro m hm
    refine Finset.mem_erase.2 ⟨?_, Finset.mem_univ m⟩
    rintro rfl
    have hocc : testBit s.boardOccupiedBitboard m = true := by
      rcases Finset.mem_union.1 hm with h | h
      · exact occupied_of_live (Finset.mem_filter.1 h).2
      · exact occupied_of_live (Finset.mem_filter.1 h).2
    rw [hempty] at hocc
    exact Bool.false_ne_true hocc
  have hle := Finset.card_le_card hlive
  rw [Finset.card_erase_of_mem (Finset.mem_univ n), Finset.card_univ, Fintype.card_fin] at hle
  rw [hcard, card_ownNodes hpos, card_ownNodes hpos] at hle
  omega

/-! ## The test -/

/-- What the test decides for a side that is to move and owes nothing. -/
theorem isStalemated_iff (hactive : s.sideToMove = c.toI8) (hphase : s.phase = .moving)
    (hnone : s.pendingRemovals c = 0) (hhand : s.piecesInHand c = 0) :
    isStalemated s options = true
      ↔ 24 ≤ s.piecesOnBoard 0 + s.piecesOnBoard 1
        ∨ (canFly s options true = false ∧ ¬CanStep s options c) := by
  have hfly : canFly s options true
      = (options.mayFly && s.piecesOnBoard c ≤ options.flyPieceCount) := by
    unfold canFly
    rw [hactive, Side.sideIndex_toI8]
    simp [hhand]
  -- no own piece has a free step, read once node by node and once as a move
  have hsteps : ((maskNodes (s.byColorBb c)).all
      fun source => isPieceSurrounded s options c source) = true ↔ ¬CanStep s options c := by
    rw [List.all_eq_true]
    unfold CanStep
    constructor
    · rintro hall ⟨source, target, hown, hempty, hfree, hadjacent⟩
      have := (isPieceSurrounded_iff hactive).1 (hall source ((mem_maskNodes _ _).2 hown)) target
        hadjacent hempty
      rw [hfree] at this
      exact Bool.false_ne_true this
    · intro hno source hsource
      refine (isPieceSurrounded_iff hactive).2 fun target hadjacent hempty => ?_
      by_contra hfree
      rw [Bool.not_eq_true] at hfree
      exact hno ⟨source, target, (mem_maskNodes _ _).1 hsource, hempty, hfree, hadjacent⟩
  have hrunning : ¬(s.phase ≠ .moving ∨ s.sideToMove < 0) := by
    rw [hactive]
    simp [hphase]
  unfold isStalemated isAllSurrounded
  rw [if_neg hrunning, hactive]
  simp only [Side.sideIndex_toI8, hnone, ne_eq, not_true_eq_false, if_false, Side.toI8_inRange]
  rw [hfly]
  by_cases hfull : 24 ≤ s.piecesOnBoard 0 + s.piecesOnBoard 1
  · simp [hfull, Nat.not_lt.2 hfull]
  · by_cases hflies : (options.mayFly && decide (s.piecesOnBoard c ≤ options.flyPieceCount)) = true
    · simp [hflies, hfull, Nat.lt_of_not_le hfull]
    · rw [Bool.not_eq_true] at hflies
      simp only [hflies, Bool.false_and, Bool.false_eq_true, if_false, ge_iff_le, hfull, false_or,
        true_and]
      exact hsteps

/--
When the test is right about `c`: what it leaves out, leaps, does not matter, and
a side it takes to fly has a piece to fly and a node to fly to.
-/
structure TestDecides (options : MillVariantOptions) (s : MillState) (c : Side) : Prop where
  leaps : CanLeap s options c → CanStep s options c
  flights : canFly s options true = true → s.piecesOnBoard 0 + s.piecesOnBoard 1 < 24 →
    (∃ source : Node, testBit (s.byColorBb c) source = true)
      ∧ ∃ target : Node, testBit s.boardOccupiedBitboard target = false

/--
**The stalemate test reports a blocked side exactly when it has no move**, provided
`TestDecides` holds of the side, and in no other state.
-/
theorem isStalemated_iff_no_moves (h : StalemateTested r s) (hphase : s.phase = .moving)
    (hactive : s.sideToMove = c.toI8) (hnone : s.pendingRemovals c = 0) {priority : List Node}
    (hpriority : ∀ n, n ∈ priority) :
    (isStalemated s r.options = true
        ↔ generateMoveActionsWithPriority s r.options true priority = [])
      ↔ TestDecides r.options s c := by
  have hinv := h.inv
  have hhand : s.piecesInHand c = 0 := by
    obtain ⟨d, hd⟩ := hinv.turn (by rw [hphase]; decide)
    have hdc : d = c := by
      have := congrArg sideIndex (hd.active.symm.trans hactive)
      simpa using this
    subst hdc
    have := hd.phase_eq hnone
    rw [hphase] at this
    by_contra hne
    rw [if_neg hne] at this
    exact absurd this (by decide)
  rw [isStalemated_iff hactive hphase hnone hhand, generateMoveActions_eq_nil_iff hpriority]
  by_cases hfull : 24 ≤ s.piecesOnBoard 0 + s.piecesOnBoard 1
  · -- a full board: no flight, no step and no leap
    have hocc := occupied_of_full hinv.position hfull
    have hno : ¬∃ source target, MoveTarget s r.options true source target := by
      rintro ⟨source, target, htarget⟩
      have := htarget.empty
      rw [hocc target] at this
      exact Bool.false_ne_true this.symm
    have hleap : ¬CanLeap s r.options c := by
      rintro ⟨-, source, target, -, line, -, hline⟩
      have := leapTarget?_empty hline
      rw [hocc target] at this
      exact Bool.false_ne_true this.symm
    exact ⟨fun _ => ⟨fun h => absurd h hleap, fun _ hlt => absurd hfull (Nat.not_le.2 hlt)⟩,
      fun _ => ⟨fun _ => hno, fun _ => Or.inl hfull⟩⟩
  · rw [or_iff_right hfull]
    by_cases hflies : canFly s r.options true = true
    · rw [moveTarget_flying hactive hflies]
      have hleap : ¬CanLeap s r.options c := by
        rintro ⟨hleap, -⟩
        unfold leapEnabled at hleap
        simp [hflies] at hleap
      constructor
      · intro hiff
        refine ⟨fun h => absurd h hleap, fun _ _ => ?_⟩
        by_contra hno
        exact absurd (hiff.2 hno).1 (by simp [hflies])
      · intro hdecides
        refine ⟨fun hstale => absurd hstale.1 (by simp [hflies]), fun hno => ?_⟩
        exact absurd (hdecides.flights hflies (Nat.lt_of_not_le hfull)) hno
    · rw [Bool.not_eq_true] at hflies
      rw [moveTarget_walking hactive hflies]
      constructor
      · intro hiff
        refine ⟨fun hleap => ?_, fun h => absurd h (by simp [hflies])⟩
        by_contra hstep
        exact hiff.1 ⟨hflies, hstep⟩ (Or.inr hleap)
      · intro hdecides
        refine ⟨fun hstale hmove => ?_, fun hno => ⟨hflies, fun hstep => hno (Or.inl hstep)⟩⟩
        rcases hmove with hstep | hleap
        · exact hstale.2 hstep
        · exact hstale.2 (hdecides.leaps hleap)

/-! ## A side with a leap -/

def leapOptions : MillVariantOptions :=
  { mayFly := false, leapCapture := { enabled := true } }

def leapRules : MillRules := ⟨leapOptions, by decide⟩

/-- Every piece but Black's last; the empty nodes are `0` to `5`, walled off by Black, and `21`. -/
def walledLine : List Action :=
  ([11, 6, 14, 7, 15, 8, 16, 9, 18, 10, 19, 12, 20, 13, 22, 17, 23] : List Node).map placeAction

example : walledLine.length = 17 := by decide +kernel

def walled : GameStateSnapshot := playLine leapRules leapRules.initialState walledLine

theorem walled_reachable : Reachable leapRules walled :=
  Reachable.initial.playLine (by decide +kernel)

/-- White is walled in; it can leap from `16` over `8`, from `18` over `10` and from `20` over
`12`. -/
def walledIn : MillState :=
  let s := leapRules.hydrateRepetitionHistory (MillState.decodeWithOptions walled leapOptions)
    walled []
  (leapRules.applyBranch s (.capture leapRules s (placeAction 21)) (placeAction 21) true).1

theorem walledIn_tested : StalemateTested leapRules walledIn :=
  .played walled_reachable [] (by decide +kernel) rfl

/-- White is to move, owes nothing and has a move, and the test says it has none. -/
theorem walledIn_facts :
    walledIn.phase = .moving ∧ walledIn.sideToMove = Side.toI8 0
      ∧ walledIn.pendingRemovals 0 = 0 ∧ isStalemated walledIn leapOptions = true
      ∧ generateMoveActionsWithPriority walledIn leapOptions true defaultDensePriority ≠ [] := by
  decide +kernel

/-- The theorem at the walled-in position. -/
theorem isStalemated_iff_no_moves_walledIn :
    (isStalemated walledIn leapOptions = true
        ↔ generateMoveActionsWithPriority walledIn leapOptions true defaultDensePriority = [])
      ↔ TestDecides leapOptions walledIn 0 :=
  isStalemated_iff_no_moves walledIn_tested walledIn_facts.1 walledIn_facts.2.1
    walledIn_facts.2.2.1 mem_defaultDensePriority

/-- **White has three leaps, is declared stalemated and loses.** -/
theorem leaping_side_stalemated :
    ¬(∀ (r : MillRules) (s : MillState) (c : Side), StalemateTested r s → s.phase = .moving →
        s.sideToMove = c.toI8 → s.pendingRemovals c = 0 →
        (isStalemated s r.options = true
          ↔ generateMoveActionsWithPriority s r.options true defaultDensePriority = []))
      ∧ leapRules.outcome (leapRules.apply walled (placeAction 21))
        = { kind := .win 1, reason := "loseNoLegalMoves" } := by
  obtain ⟨hphase, hactive, hnone, hstale, hmoves⟩ := walledIn_facts
  refine ⟨fun h => ?_, by decide +kernel⟩
  exact hmoves ((h leapRules walledIn 0 walledIn_tested hphase hactive hnone).1 hstale)

end Sanmill
