import Sanmill.Lib.Numerals

/-!
# Public Mill rule-variant types

Action, phase, formation and capture enumerations, and the
`MillVariantOptions` aggregate that selects a rule variant. Integer codes are
those of the `repr` attributes in the source: actions and snapshots store them.
-/

namespace Sanmill

/-- What an action does. -/
inductive MillActionKind where
  | place
  | move
  | remove
deriving DecidableEq, Repr

/-- `kind as i16`. -/
def MillActionKind.toI16 : MillActionKind → Int
  | place => 0
  | move => 1
  | remove => 2

/-- How far the game has come. -/
inductive MillPhase where
  | ready
  | placing
  | moving
  | gameOver
deriving DecidableEq, Repr

/-- `phase as i16`. -/
def MillPhase.toI16 : MillPhase → Int
  | ready => 0
  | placing => 1
  | moving => 2
  | gameOver => 3

/-- What the side to move has to do. -/
inductive MillActionState where
  | place
  | select
  | remove
  | gameOver
deriving DecidableEq, Repr

namespace MillActionState

/-- `action as u8`. -/
def toU8 : MillActionState → BitVec 8
  | place => 0
  | select => 1
  | remove => 2
  | gameOver => 3

/-- The action state of a byte. -/
def fromPayload (value : BitVec 8) : MillActionState :=
  if value = 1 then select
  else if value = 2 then remove
  else if value = 3 then gameOver
  else place

/-- The letter of an action state. -/
def toFenToken : MillActionState → Char
  | place => 'p'
  | select => 's'
  | remove => 'r'
  | gameOver => '?'

end MillActionState

/-- What a full board leads to. -/
inductive MillBoardFullAction where
  | firstPlayerLose
  | firstAndSecondPlayerRemovePiece
  | secondAndFirstPlayerRemovePiece
  | sideToMoveRemovePiece
  | agreeToDraw
deriving DecidableEq, Repr

/-- What a mill is worth before the pieces are placed. -/
inductive MillFormationActionInPlacingPhase where
  | removeOpponentsPieceFromBoard
  | removeOpponentsPieceFromHandThenOpponentsTurn
  | removeOpponentsPieceFromHandThenYourTurn
  | opponentRemovesOwnPiece
  | markAndDelayRemovingPieces
  | removalBasedOnMillCounts
deriving DecidableEq, Repr

/-- What a side without a move leads to. -/
inductive StalemateAction where
  | endWithStalemateLoss
  | changeSideToMove
  | removeOpponentsPieceAndMakeNextMove
  | removeOpponentsPieceAndChangeSideToMove
  | endWithStalemateDraw
  | bothPlayersRemoveOpponentsPiece
deriving DecidableEq, Repr

/-- Where and when a capture rule holds. -/
structure CaptureRuleConfig where
  enabled : Bool := false
  onSquareEdges : Bool := true
  onCrossLines : Bool := true
  /-- Diagonal lines take part only on a board that has them. -/
  onDiagonalLines : Bool := true
  inPlacingPhase : Bool := true
  inMovingPhase : Bool := true
  onlyAvailableWhenOwnPiecesLeq3 : Bool := false
deriving DecidableEq, Repr

/-- `MillVariantOptions`, with the defaults of the source. -/
structure MillVariantOptions where
  pieceCount : Nat := 9
  flyPieceCount : Nat := 3
  piecesAtLeastCount : Nat := 3
  mayFly : Bool := true
  hasDiagonalLines : Bool := false
  millFormationActionInPlacingPhase : MillFormationActionInPlacingPhase :=
    .removeOpponentsPieceFromBoard
  mayRemoveFromMillsAlways : Bool := false
  mayRemoveMultiple : Bool := false
  nMoveRule : Nat := 100
  endgameNMoveRule : Nat := 100
  mayMoveInPlacingPhase : Bool := false
  isDefenderMoveFirst : Bool := false
  restrictRepeatedMillsFormation : Bool := false
  oneTimeUseMill : Bool := false
  stopPlacingWhenTwoEmptySquares : Bool := false
  boardFullAction : MillBoardFullAction := .firstPlayerLose
  threefoldRepetitionRule : Bool := true
  custodianCapture : CaptureRuleConfig := {}
  interventionCapture : CaptureRuleConfig := {}
  leapCapture : CaptureRuleConfig := {}
  stalemateAction : StalemateAction := .endWithStalemateLoss
  considerMobility : Bool := true
  focusOnBlockingPaths : Bool := false
deriving DecidableEq, Repr

namespace MillVariantOptions

/-- The option values are in the ranges `assert_valid` accepts. -/
structure AssertValid (o : MillVariantOptions) : Prop where
  pieceCount : 9 ≤ o.pieceCount ∧ o.pieceCount ≤ 12
  piecesAtLeastCount : 3 ≤ o.piecesAtLeastCount ∧ o.piecesAtLeastCount ≤ o.pieceCount
  nMoveRule : o.nMoveRule > 0 → 10 ≤ o.nMoveRule ∧ o.nMoveRule ≤ 200
  endgameNMoveRule : o.endgameNMoveRule > 0 →
    5 ≤ o.endgameNMoveRule ∧ o.endgameNMoveRule ≤ 200
  flyPieceCount : o.mayFly = true → 3 ≤ o.flyPieceCount

instance (o : MillVariantOptions) : Decidable o.AssertValid :=
  decidable_of_iff
    ((9 ≤ o.pieceCount ∧ o.pieceCount ≤ 12)
      ∧ (3 ≤ o.piecesAtLeastCount ∧ o.piecesAtLeastCount ≤ o.pieceCount)
      ∧ (o.nMoveRule > 0 → 10 ≤ o.nMoveRule ∧ o.nMoveRule ≤ 200)
      ∧ (o.endgameNMoveRule > 0 → 5 ≤ o.endgameNMoveRule ∧ o.endgameNMoveRule ≤ 200)
      ∧ (o.mayFly = true → 3 ≤ o.flyPieceCount))
    ⟨fun ⟨h1, h2, h3, h4, h5⟩ => ⟨h1, h2, h3, h4, h5⟩,
      fun ⟨h1, h2, h3, h4, h5⟩ => ⟨h1, h2, h3, h4, h5⟩⟩

/-- The default options are accepted. -/
theorem default_assertValid : AssertValid {} := by decide

end MillVariantOptions

/-- Whether the option set may use the reduced search paths. -/
def standardFastPathEnabled (o : MillVariantOptions) : Bool :=
  o.millFormationActionInPlacingPhase == .removeOpponentsPieceFromBoard
    && !o.hasDiagonalLines
    && !o.mayMoveInPlacingPhase
    && !o.mayRemoveMultiple
    && !o.restrictRepeatedMillsFormation
    && !o.oneTimeUseMill
    && !o.stopPlacingWhenTwoEmptySquares
    && !o.custodianCapture.enabled
    && !o.interventionCapture.enabled
    && !o.leapCapture.enabled

/--
A rule set. `MillRules::new` panics on an option set that `assert_valid`
rejects, so a rule set carries the proof that its options were accepted.
-/
structure MillRules where
  options : MillVariantOptions
  valid : options.AssertValid

/-- `MillRules::new`; `none` where the constructor panics. -/
def MillRules.new? (options : MillVariantOptions) : Option MillRules :=
  if h : options.AssertValid then some ⟨options, h⟩ else none

/-- `MillRules::default`. -/
def MillRules.default : MillRules := ⟨{}, MillVariantOptions.default_assertValid⟩

/-- The options allow the fast paths. -/
def MillRules.standardFastPath (r : MillRules) : Bool := standardFastPathEnabled r.options

end Sanmill
