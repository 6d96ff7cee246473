import Sanmill.Mill.LegalApply
import Sanmill.Proof.Position

/-!
# What the generators generate

The generators walk nodes in some order. `LegalAction` says which actions they
produce without the order, so the runtime list and the search list have the same
members: `mem_legalActionsWithPriority` holds for every order of the nodes.
-/

namespace Sanmill

open Bits

variable (s : MillState) (options : MillVariantOptions)

/-! ## The three kinds of action -/

/-- A placement on `target` is generated. -/
def PlaceTarget (target : Node) : Prop :=
  s.piecesInHand (sideIndex s.sideToMove) > 0
    ∧ testBit s.boardOccupiedBitboard target = false

/-- A board move is generated: a flight, a step, or a leap. -/
def MoveTarget (allowFly : Bool) (source target : Node) : Prop :=
  testBit (s.byColorBb (sideIndex s.sideToMove)) source = true
    ∧ ((testBit s.boardOccupiedBitboard target = false
          ∧ isRestrictedRepeatedMill s options source target = false
          ∧ (canFly s options allowFly = true ∨ Adjacent options.hasDiagonalLines source target))
      ∨ (canFly s options allowFly = false ∧ leapEnabled s options allowFly = true
          ∧ ∃ line ∈ activeCaptureLines options.leapCapture options,
              leapTarget? s options source line = some target))

/-- A removal of the piece on `target` is generated. -/
def RemoveTarget (target : Node) : Prop :=
  (captureTargetsOfActive s ≠ 0
      ∧ testBit (captureTargetsOfActive s &&& s.pieceBitboard s.opponentPiece) target = true)
    ∨ (¬(captureTargetsOfActive s ≠ 0
          ∧ s.pendingRemovals (sideIndex s.sideToMove) ≤ s.captureTotal)
        ∧ if s.flags.removeOwnPiece (sideIndex s.sideToMove) = true then
            isRegularRemoveTarget s options (s.sideToMove + 1) 0 target = true
          else
            isRegularRemoveTarget s options s.opponentPiece (captureTargetsOfActive s) target
              = true)

/-- The actions the generators produce, whatever the order in which they try the nodes. -/
def LegalAction (a : Action) : Prop :=
  match s.actionForLegalGeneration with
  | .remove =>
    s.pendingRemovals (sideIndex s.sideToMove) > 0
      ∧ ∃ target, a = removeAction target ∧ RemoveTarget s options target
  | .place =>
    (∃ target, a = placeAction target ∧ PlaceTarget s target)
      ∨ (options.mayMoveInPlacingPhase = true
          ∧ ∃ source target, a = moveAction source target
            ∧ MoveTarget s options false source target)
  | .select =>
    s.phase = .moving
      ∧ ∃ source target, a = moveAction source target ∧ MoveTarget s options true source target
  | .gameOver => False

/-! ## The generators produce exactly these -/

variable {s options} {priority : List Node}

theorem mem_generatePlaceActions (hpriority : ∀ n, n ∈ priority) (a : Action) :
    a ∈ generatePlaceActions s priority
      ↔ ∃ target, a = placeAction target ∧ PlaceTarget s target := by
  unfold generatePlaceActions PlaceTarget
  split
  · rename_i hhand
    simp only [List.mem_map, List.mem_filter, hpriority, true_and, hhand, Bool.not_eq_true']
    exact exists_congr fun n => and_comm.trans (and_congr_left fun _ => eq_comm)
  · rename_i hhand
    simp [hhand]

/-- Without the repeated-mill rule no move is restricted. -/
theorem not_restricted_of_off (h : options.restrictRepeatedMillsFormation = false)
    (source target : Node) : isRestrictedRepeatedMill s options source target = false := by
  simp [isRestrictedRepeatedMill, h]

theorem testBit_emptyNeighbors (source target : Node) :
    testBit (emptyNeighbors s options source) target = true
      ↔ Adjacent options.hasDiagonalLines source target
        ∧ testBit s.boardOccupiedBitboard target = false := by
  unfold emptyNeighbors Adjacent
  rw [testBit_and_not]
  simp

theorem mem_plainMoveTargets (hoff : options.restrictRepeatedMillsFormation = false)
    (fly : Bool) (source target : Node) :
    target ∈ plainMoveTargets s options fly source
      ↔ testBit s.boardOccupiedBitboard target = false
        ∧ isRestrictedRepeatedMill s options source target = false
        ∧ (fly = true ∨ Adjacent options.hasDiagonalLines source target) := by
  rw [not_restricted_of_off hoff]
  unfold plainMoveTargets
  cases fly
  · simp only [Bool.false_eq_true, if_false, List.mem_filter, mem_topologyNeighbors,
      testBit_emptyNeighbors, true_and, false_or]
    tauto
  · simp [legacySquareOrderNodes, List.mem_filter]

theorem mem_filteredMoveTargets (fly leap : Bool) (source target : Node) :
    target ∈ filteredMoveTargets s options fly leap source
      ↔ (testBit s.boardOccupiedBitboard target = false
          ∧ isRestrictedRepeatedMill s options source target = false
          ∧ (fly = true ∨ Adjacent options.hasDiagonalLines source target))
        ∨ (fly = false ∧ leap = true
          ∧ ∃ line ∈ activeCaptureLines options.leapCapture options,
              leapTarget? s options source line = some target) := by
  unfold filteredMoveTargets
  cases fly
  · simp only [Bool.false_eq_true, if_false, false_or, true_and]
    split
    · -- nothing is empty next to the source and leaps are off
      rename_i hnone
      obtain ⟨hempty, hleap⟩ := hnone
      have hblocked : ∀ t : Node, ¬(Adjacent options.hasDiagonalLines source t
          ∧ testBit s.boardOccupiedBitboard t = false) := fun t ht => by
        have := (testBit_emptyNeighbors source t).2 ht
        rw [hempty] at this
        simp at this
      rw [Bool.not_eq_true] at hleap
      simp only [List.not_mem_nil, false_iff, hleap, Bool.false_eq_true, false_and, or_false]
      exact fun ht => hblocked target ⟨ht.2.2, ht.1⟩
    · simp only [List.mem_append, List.mem_filter, mem_topologyNeighbors, Bool.and_eq_true,
        testBit_emptyNeighbors, Bool.not_eq_true']
      refine or_congr (by tauto) ?_
      cases leap <;> simp [List.mem_filterMap]
  · simp [legacySquareOrderNodes, List.mem_filter]

theorem mem_generateMoveActionsWithPriority (hpriority : ∀ n, n ∈ priority) (allowFly : Bool)
    (a : Action) :
    a ∈ generateMoveActionsWithPriority s options allowFly priority
      ↔ ∃ source target, a = moveAction source target
        ∧ MoveTarget s options allowFly source target := by
  unfold generateMoveActionsWithPriority MoveTarget
  simp only
  split
  · rename_i hplain
    obtain ⟨_, hoff, hleap⟩ := hplain
    rw [Bool.not_eq_true'] at hoff hleap
    simp only [List.mem_flatMap, List.mem_filter, List.mem_reverse, hpriority, true_and,
      List.mem_map, mem_plainMoveTargets hoff, hleap, Bool.false_eq_true, false_and, and_false,
      or_false]
    constructor
    · rintro ⟨source, hs, target, ht, rfl⟩
      exact ⟨source, target, rfl, hs, ht⟩
    · rintro ⟨source, target, rfl, hs, ht⟩
      exact ⟨source, hs, target, ht, rfl⟩
  · simp only [List.mem_flatMap, List.mem_filter, List.mem_reverse, hpriority, true_and,
      List.mem_map, mem_filteredMoveTargets]
    constructor
    · rintro ⟨source, hs, target, ht, rfl⟩
      exact ⟨source, target, rfl, hs, ht⟩
    · rintro ⟨source, target, rfl, hs, ht⟩
      exact ⟨source, hs, target, ht, rfl⟩

theorem mem_generateRegularRemoveActions (hpriority : ∀ n, n ∈ priority) (piece : Int)
    (excluded : Bitboard) (a : Action) :
    a ∈ generateRegularRemoveActionsForPiece s options piece excluded priority
      ↔ ∃ target, a = removeAction target
        ∧ isRegularRemoveTarget s options piece excluded target = true := by
  unfold generateRegularRemoveActionsForPiece
  simp only [List.mem_map, List.mem_filter, List.mem_reverse, hpriority, true_and]
  exact exists_congr fun n => and_comm.trans (and_congr_left fun _ => eq_comm)

theorem mem_generateCaptureRemoveActions (targets : Bitboard) (a : Action) :
    a ∈ generateCaptureRemoveActions s targets
      ↔ ∃ target, a = removeAction target
        ∧ testBit (targets &&& s.pieceBitboard s.opponentPiece) target = true := by
  unfold generateCaptureRemoveActions
  simp only [List.mem_map, mem_maskNodes]
  exact exists_congr fun n => and_comm.trans (and_congr_left fun _ => eq_comm)

theorem mem_generateRemoveActions (hpriority : ∀ n, n ∈ priority) (a : Action) :
    a ∈ generateRemoveActions s options priority
      ↔ ∃ target, a = removeAction target ∧ RemoveTarget s options target := by
  -- captures first: their targets are the recorded ones that still hold an opponent's piece
  have hcaptures : ∀ b, (b ∈ (if captureTargetsOfActive s ≠ 0 then
      generateCaptureRemoveActions s (captureTargetsOfActive s) else [])
      ↔ ∃ target, b = removeAction target ∧ captureTargetsOfActive s ≠ 0
        ∧ testBit (captureTargetsOfActive s &&& s.pieceBitboard s.opponentPiece) target
          = true) := by
    intro b
    split
    · rename_i hne
      simp only [mem_generateCaptureRemoveActions, ne_eq, hne, not_false_eq_true, true_and]
    · rename_i hz
      refine iff_of_false List.not_mem_nil ?_
      rintro ⟨_, _, hne, _⟩
      exact hz hne
  unfold generateRemoveActions RemoveTarget
  simp only
  -- regular removals are added only if some are owed beyond the captures
  split
  · rename_i honly
    rw [hcaptures]
    exact exists_congr fun n => and_congr_right fun _ => (or_iff_left fun h => h.1 honly).symm
  · rename_i hmore
    split
    · rename_i hown
      rw [List.mem_append, hcaptures, mem_generateRegularRemoveActions hpriority]
      simp only [hmore, not_false_eq_true, true_and, and_or_left, exists_or]
    · rename_i hown
      rw [List.mem_append, hcaptures, mem_generateRegularRemoveActions hpriority]
      simp only [hmore, not_false_eq_true, true_and, and_or_left, exists_or]

/-- **The list has the legal actions, in whatever order the nodes are tried.** -/
theorem mem_legalActionsWithPriority (hpriority : ∀ n, n ∈ priority) (a : Action) :
    a ∈ legalActionsWithPriority s options priority ↔ LegalAction s options a := by
  unfold legalActionsWithPriority LegalAction
  cases s.actionForLegalGeneration with
  | remove =>
    simp only
    split
    · rename_i hp
      rw [mem_generateRemoveActions hpriority]
      simp only [hp, true_and]
    · rename_i hp
      simp [hp]
  | place =>
    simp only [List.mem_append, mem_generatePlaceActions hpriority]
    refine or_congr Iff.rfl ?_
    split
    · rename_i hm
      simp only [mem_generateMoveActionsWithPriority hpriority, hm, true_and]
    · rename_i hm
      simp [hm]
  | select =>
    simp only
    split
    · rename_i hm
      simp only [mem_generateMoveActionsWithPriority hpriority, hm, true_and]
    · rename_i hm
      simp [hm]
  | gameOver => simp

/-! ## The two orders -/

theorem mem_defaultDensePriority (n : Node) : n ∈ defaultDensePriority := List.mem_finRange n

theorem mem_staticMovePriorityForSearch (n : Node) : n ∈ staticMovePriorityForSearch options := by
  have h : ∀ m : Node, m ∈ priorityDiagonal ∧ m ∈ priorityNoDiagonal := by decide
  unfold staticMovePriorityForSearch
  split
  · exact (h n).1
  · exact (h n).2

end Sanmill
