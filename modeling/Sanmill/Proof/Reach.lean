import Sanmill.Mill.Workbench
import Sanmill.Proof.Codec

/-!
# Reachable positions

A snapshot is reachable when real play leads to it from the initial state, one
legal action at a time; a workbench state when it is loaded from a reachable
snapshot and then searched. Both satisfy `StateInv`.
-/

namespace Sanmill

open Bits

/-- Real play: each action is legal where it is applied, whatever history it is applied with. -/
inductive Reachable (r : MillRules) : GameStateSnapshot → Prop
  | initial : Reachable r r.initialState
  | apply {snap : GameStateSnapshot} {a : Action} (history : List GameStateSnapshot)
      (h : Reachable r snap) (ha : a ∈ r.legalActions snap) :
      Reachable r (r.applyWithHistory snap a history)

/-- The states of a workbench: loaded from a reachable snapshot, then played on by the search. -/
inductive SearchReachable (r : MillRules) : MillState → Prop
  | load {snap : GameStateSnapshot} (rootRepetitionHistory : List Key) {wb : MillWorkbench}
      (h : Reachable r snap)
      (hwb : MillGame.buildWorkbench ⟨r.options, rootRepetitionHistory⟩ snap = some wb) :
      SearchReachable r wb.state
  | doMove {s : MillState} {a : Action} (h : SearchReachable r s)
      (ha : LegalAction s r.options a) : SearchReachable r (r.applySearchToState s a)

variable {r : MillRules} {s : MillState} {a : Action}

/-! ## The invariant does not look at the history -/

theorem StateInv.withHistory {options : MillVariantOptions} (h : StateInv options s)
    (history : List Key) (len : Nat) :
    StateInv options { s with keyHistory := history, keyHistoryLen := len } where
  position := h.position
  sane := { h.sane with }
  marksDelayed := h.marksDelayed
  turn hrun := (h.turn hrun).imp fun _ ht => { ht with record := { ht.record with } }

theorem hydrate_cases (r : MillRules) (s : MillState) (snap : GameStateSnapshot)
    (history : List GameStateSnapshot) :
    ∃ (keys : List Key) (len : Nat), r.hydrateRepetitionHistory s snap history
      = { s with keyHistory := keys, keyHistoryLen := len } := by
  unfold MillRules.hydrateRepetitionHistory
  split
  · exact ⟨s.keyHistory, s.keyHistoryLen, rfl⟩
  · simp only
    split
    · exact ⟨_, _, rfl⟩
    · exact ⟨s.keyHistory, s.keyHistoryLen, rfl⟩

/-! ## Loading -/

theorem nodeOrNone_bounds {value : Int} (h : NodeOrNone value) : -128 ≤ value ∧ value ≤ 127 := by
  rcases h with rfl | ⟨n, rfl⟩
  · omega
  · have := n.toI8_bounds
    omega

/-- The fields of a state of a game fit their bytes. -/
theorem StateInv.encodable (h : StateInv r.options s) : Encodable s := by
  have hmaterial : ∀ x, s.piecesOnBoard x + s.piecesInHand x ≤ 12 := fun x =>
    (h.position.material x).trans r.valid.pieceCount.2
  -- each field fits its bytes: twelve pieces a side, and sides and nodes are small numbers
  exact
    { board := fun n => by
        rcases h.position.codes n with hzero | ⟨c, hc⟩
        · rw [hzero]
          omega
        · have h0 := c.toI8_nonneg
          have h1 := c.toI8_le_one
          rw [hc]
          omega
      piecesInHand := fun x => by
        have := hmaterial x
        omega
      piecesOnBoard := fun x => by
        have := hmaterial x
        omega
      pendingRemovals := h.sane.pendingRemovals
      winner := by
        rcases h.sane.winner with hw | hw | ⟨c, hc⟩
        · omega
        · omega
        · have h0 := c.toI8_nonneg
          have h1 := c.toI8_le_one
          omega
      lastMillFrom := fun x => nodeOrNone_bounds (h.sane.lastMill x).1
      lastMillTo := fun x => nodeOrNone_bounds (h.sane.lastMill x).2
      preferredRemoveTarget := by
        rw [h.sane.preferredRemoveTarget]
        omega
      custodianCount := fun x => (h.sane.captureCounts x).1
      interventionCount := fun x => (h.sane.captureCounts x).2.1
      leapCount := fun x => (h.sane.captureCounts x).2.2 }

/-- Loading a state back derives the masks and the mobility term it had. -/
theorem reloaded_position {options : MillVariantOptions}
    (h : PositionInv options s.toMillPosition) :
    (reloaded options s).toMillPosition = s.toMillPosition := by
  have hmasks : bitboardsFromBoard s.board s.delayedMarkedPieces = s.byColorBb := h.masks.symm
  unfold reloaded
  simp only [hmasks, ← h.mobility]

theorem StateInv.reload (h : StateInv r.options s) : StateInv r.options (reloaded r.options s) := by
  have hpos := reloaded_position h.position
  refine
    { position := by
        rw [hpos]
        exact h.position
      sane := { h.sane with }
      marksDelayed := h.marksDelayed
      turn := fun hrun => ?_ }
  obtain ⟨c, ht⟩ := h.turn hrun
  have hmasks : (reloaded r.options s).byColorBb = s.byColorBb := h.position.masks.symm
  refine ⟨c, { ht with record := ?_ }⟩
  exact
    { ht.record with
      custodianLive := fun i hi => by
        rw [hmasks]
        exact ht.record.custodianLive i hi
      interventionLive := fun i hi => by
        rw [hmasks]
        exact ht.record.interventionLive i hi
      leapLive := fun i hi => by
        rw [hmasks]
        exact ht.record.leapLive i hi }

/-! ## The initial state -/

/-- The state `initial_state` encodes. -/
def initialMillState (r : MillRules) : MillState :=
  { sideToMove := 0, phase := .placing, piecesInHand := fun _ => r.options.pieceCount }

theorem bitboardsFromBoard_empty : bitboardsFromBoard (fun _ => 0) 0 = fun _ => 0 := by
  funext c
  refine mask_ext (bitboardsFromBoard_below _ _ c) (fun i hi => by simp at hi) fun n => ?_
  rw [testBit_bitboardsFromBoard, decide_eq_false (Side.piece_ne_zero c).symm]
  simp

theorem initialMillState_inv (r : MillRules) : StateInv r.options (initialMillState r) where
  position :=
    { codes := fun _ => Or.inl rfl
      marks := fun i hi => by
        change testBit 0#32 i = true at hi
        rw [testBit_zero] at hi
        exact absurd hi Bool.false_ne_true
      marked := fun n hn => by
        change testBit 0#32 n = true at hn
        rw [testBit_zero] at hn
        exact absurd hn Bool.false_ne_true
      masks := bitboardsFromBoard_empty.symm
      counts := fun c => by
        change 0 = countOnes 0#32
        rw [countOnes_zero]
      material := fun c => by
        change 0 + r.options.pieceCount ≤ r.options.pieceCount
        omega
      mobility := by
        change 0 = mobilityTerm _ r.options
        unfold mobilityTerm calculateMobilityDiff
        simp [initialMillState] }
  sane :=
    { captureRules := fun _ _ _ x => capturesEmpty_cleared x
      pendingRemovals := fun _ => Nat.zero_le _
      captureCounts := fun _ => ⟨Nat.zero_le _, Nat.zero_le _, Nat.zero_le _⟩
      lastMill := fun _ => ⟨Or.inl rfl, Or.inl rfl⟩
      winner := Or.inl rfl
      preferredRemoveTarget := rfl }
  marksDelayed := fun hne => absurd rfl hne
  -- white begins with a full hand, so the game starts in the placing phase
  turn := fun _ => by
    have hhand : r.options.pieceCount ≠ 0 := by
      have := r.valid.pieceCount.1
      omega
    refine ⟨0, ?_⟩
    exact
      { active := rfl
        running := Or.inl rfl
        synced := rfl
        undecided := ⟨rfl, rfl⟩
        phase_eq := fun _ => by
          change MillPhase.placing = if r.options.pieceCount = 0 then .moving else .placing
          rw [if_neg hhand]
        quiet := fun _ => ⟨capturesEmpty_cleared 0, rfl, rfl, rfl⟩
        opponentOwes := fun hne => absurd rfl hne
        opponentCaptures := capturesEmpty_cleared _
        record := CapturesEmpty.record (s := initialMillState r) (capturesEmpty_cleared 0)
        ownPieceOwed := fun x hx => absurd hx Bool.false_ne_true
        ownPieceAlone := fun _ => capturesEmpty_cleared 0 }

/-! ## Runs -/

theorem mem_legalActions_iff (r : MillRules) (snap : GameStateSnapshot) (a : Action) :
    a ∈ r.legalActions snap
      ↔ LegalAction (MillState.decodeWithOptions snap r.options) r.options a :=
  mem_legalActionsWithPriority mem_defaultDensePriority a

theorem isActionWithinBoardBounds_of {fromNode toNode : Int} (hfrom : NodeOrNone fromNode)
    (hto : NodeOrNone toNode) : isActionWithinBoardBounds fromNode toNode = true := by
  have hnode : ∀ {value : Int}, NodeOrNone value →
      (decide (value = -1) || (decide (0 ≤ value) && decide (value < 24))) = true := by
    intro value hvalue
    rw [Bool.or_eq_true, Bool.and_eq_true, decide_eq_true_eq, decide_eq_true_eq,
      decide_eq_true_eq]
    rcases hvalue with rfl | ⟨n, rfl⟩
    · exact Or.inl rfl
    · exact Or.inr n.toI8_bounds
  unfold isActionWithinBoardBounds
  rw [Bool.and_eq_true]
  exact ⟨hnode hfrom, hnode hto⟩

/-- A generated action stays on the board. -/
theorem LegalStep.inBounds {options : MillVariantOptions} {c : Side}
    (h : LegalStep options s c a) : isActionWithinBoardBounds a.fromNode a.toNode = true := by
  cases h with
  | place n => exact isActionWithinBoardBounds_of nodeOrNone_neg_one (nodeOrNone_toI8 n)
  | move source target =>
    exact isActionWithinBoardBounds_of (nodeOrNone_toI8 source) (nodeOrNone_toI8 target)
  | remove n => exact isActionWithinBoardBounds_of nodeOrNone_neg_one (nodeOrNone_toI8 n)

/-- A step of real play, on states. -/
theorem applyWithHistory_legal (h : StateInv r.options s) (snap : GameStateSnapshot)
    (hsnap : MillState.decodeWithOptions snap r.options = s) (ha : LegalAction s r.options a)
    (history : List GameStateSnapshot) :
    ∃ (keys : List Key) (len : Nat), r.applyWithHistory snap a history
      = (r.applyToStateUnchecked { s with keyHistory := keys, keyHistoryLen := len } a true).encode
          r.options := by
  obtain ⟨c, hturn, hstep⟩ := h.legalStep ha
  obtain ⟨keys, len, hkeys⟩ := hydrate_cases r s snap history
  refine ⟨keys, len, ?_⟩
  unfold MillRules.applyWithHistory MillRules.applyToState
  rw [hstep.inBounds]
  simp only [Bool.not_true, Bool.false_eq_true, if_false, if_true, hsnap, hkeys]

/-- **A reachable snapshot holds a sound state.** -/
theorem Reachable.encoded {snap : GameStateSnapshot} (h : Reachable r snap) :
    ∃ s, snap = s.encode r.options ∧ StateInv r.options s := by
  induction h with
  | initial => exact ⟨initialMillState r, rfl, initialMillState_inv r⟩
  | apply history h ha ih =>
    rename_i snap a
    obtain ⟨s, rfl, hs⟩ := ih
    have hload := hs.reload
    have hdecode := decode_encode r.options hs.encodable
    rw [mem_legalActions_iff, hdecode] at ha
    obtain ⟨keys, len, heq⟩ := applyWithHistory_legal hload _ hdecode ha history
    exact ⟨_, heq, applyToStateUnchecked_inv r (hload.withHistory keys len) ha true⟩

theorem Reachable.inv {snap : GameStateSnapshot} (h : Reachable r snap) :
    StateInv r.options (MillState.decodeWithOptions snap r.options) := by
  obtain ⟨s, rfl, hs⟩ := h.encoded
  rw [decode_encode r.options hs.encodable]
  exact hs.reload

/-- A fresh workbench holds the decoded state, with the longer of two repetition histories. -/
theorem buildWorkbench_eq {rootRepetitionHistory : List Key} {snap : GameStateSnapshot}
    {wb : MillWorkbench}
    (hwb : MillGame.buildWorkbench ⟨r.options, rootRepetitionHistory⟩ snap = some wb) :
    wb.rules = r ∧ wb.undoStack = []
      ∧ ∃ (keys : List Key) (len : Nat),
        wb.state = { MillState.decodeWithOptions snap r.options with
          keyHistory := keys, keyHistoryLen := len } := by
  have hnew : MillRules.new? r.options = some r := by
    unfold MillRules.new?
    rw [dif_pos r.valid]
  unfold MillGame.buildWorkbench at hwb
  rw [hnew, Option.map_some, Option.some.injEq] at hwb
  subst hwb
  refine ⟨rfl, rfl, ?_⟩
  simp only
  split
  · exact ⟨_, _, rfl⟩
  · exact ⟨_, _, rfl⟩

/-- **A state of the search is sound.** -/
theorem SearchReachable.inv (h : SearchReachable r s) : StateInv r.options s := by
  induction h with
  | load rootRepetitionHistory h hwb =>
    obtain ⟨-, -, keys, len, heq⟩ := buildWorkbench_eq hwb
    rw [heq]
    exact h.inv.withHistory keys len
  | doMove h ha ih => exact applyToStateUnchecked_inv r ih ha false

/-! ## Lines of play -/

/-- Each action of the line is legal when its turn comes. -/
def isLegalLine (r : MillRules) : GameStateSnapshot → List Action → Bool
  | _, [] => true
  | snap, a :: line => (r.legalActions snap).contains a && isLegalLine r (r.apply snap a) line

def playLine (r : MillRules) (snap : GameStateSnapshot) (line : List Action) :
    GameStateSnapshot :=
  line.foldl r.apply snap

theorem Reachable.playLine {snap : GameStateSnapshot} (h : Reachable r snap) {line : List Action}
    (hline : isLegalLine r snap line = true) : Reachable r (playLine r snap line) := by
  induction line generalizing snap with
  | nil => exact h
  | cons a line ih =>
    unfold isLegalLine at hline
    rw [Bool.and_eq_true, List.contains_iff_mem] at hline
    exact ih (h.apply [] hline.1) hline.2

/-- Removals from the hand; every side flies once its hand is empty. -/
def handRemovalOptions : MillVariantOptions :=
  { flyPieceCount := 9
    millFormationActionInPlacingPhase := .removeOpponentsPieceFromHandThenYourTurn }

def handRemovalRules : MillRules := ⟨handRemovalOptions, by decide⟩

/-- White encloses the inner ring, four mills in all, and Black never gets beyond five pieces. -/
def innerRingLine : List Action :=
  ([8, 9, 0, 11, 1, 16, 7, 2, 18, 3, 4, 20, 5, 6] : List Node).map placeAction

/-! ## A Lasker game -/

def laskerOptions : MillVariantOptions := { pieceCount := 10, mayMoveInPlacingPhase := true }

def laskerRules : MillRules := ⟨laskerOptions, by decide⟩

/-- White closes seven mills with its first eight pieces while Black places its ten. -/
def sevenMills : List Action :=
  [placeAction 7, placeAction 17, placeAction 0, placeAction 19, placeAction 1, removeAction 17,
    placeAction 21, placeAction 2, placeAction 23, placeAction 3, removeAction 19, placeAction 9,
    placeAction 4, placeAction 11, placeAction 5, removeAction 21, placeAction 13, placeAction 6,
    removeAction 23, placeAction 15, moveAction 6 14, placeAction 17, moveAction 14 6,
    removeAction 9, placeAction 19, moveAction 6 14, moveAction 17 16, moveAction 14 6,
    removeAction 11, moveAction 16 17, moveAction 6 14, moveAction 17 16, moveAction 14 6,
    removeAction 13]

/-- Black is left with three pieces and an empty hand; White has two pieces in hand. -/
def threeLeft : GameStateSnapshot := playLine laskerRules laskerRules.initialState sevenMills

theorem threeLeft_reachable : Reachable laskerRules threeLeft :=
  Reachable.initial.playLine (by decide +kernel)

/-- Black flies twice while White opens a mill and closes it again; the last removal decides. -/
def lastFlights : List Action :=
  [moveAction 15 8, moveAction 6 14, moveAction 16 21, moveAction 14 6, removeAction 8]

/-- White has closed its eighth mill and owes the removal of the third black piece. -/
def lastRemoval : GameStateSnapshot := playLine laskerRules threeLeft (lastFlights.take 4)

theorem lastRemoval_reachable : Reachable laskerRules lastRemoval :=
  threeLeft_reachable.playLine (by decide +kernel)

/-- The search starts from the decoded snapshot when there is no root history. -/
theorem buildWorkbench_nil (r : MillRules) (snap : GameStateSnapshot) :
    MillGame.buildWorkbench ⟨r.options, []⟩ snap
      = some ⟨r, MillState.decodeWithOptions snap r.options, []⟩ := by
  have hnew : MillRules.new? r.options = some r := by
    unfold MillRules.new?
    rw [dif_pos r.valid]
  unfold MillGame.buildWorkbench
  rw [hnew]
  rfl

theorem SearchReachable.decode {snap : GameStateSnapshot} (h : Reachable r snap) :
    SearchReachable r (MillState.decodeWithOptions snap r.options) :=
  SearchReachable.load [] h (buildWorkbench_nil r snap)

end Sanmill
