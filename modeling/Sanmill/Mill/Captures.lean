import Sanmill.Mill.Mills

/-!
# Custodian, intervention and leap captures

Detection of the opponent pieces an action exposes to capture, and the per-side
records that hold the exposed targets until the capturing side has removed them.
-/

namespace Sanmill

open Bits

/-- The capture lines a rule looks at: cross, then edges, then diagonals. -/
def activeCaptureLines (config : CaptureRuleConfig) (options : MillVariantOptions) : List Line :=
  (if config.onCrossLines then captureCrossLines else [])
    ++ (if config.onSquareEdges then captureSquareEdgeLines else [])
    ++ (if config.onDiagonalLines && options.hasDiagonalLines then captureDiagonalLines else [])

/-- The capture rule holds in this phase. -/
def capturePhaseAllowed (config : CaptureRuleConfig) (phase : MillPhase) : Bool :=
  config.enabled && match phase with
    | .placing => config.inPlacingPhase
    | .moving => config.inMovingPhase
    | .ready | .gameOver => false

/-- The three-piece condition of custodian and intervention; it binds only when moving. -/
def capturePieceCountAllowed (config : CaptureRuleConfig) (state : MillState) : Bool :=
  if !config.onlyAvailableWhenOwnPiecesLeq3 || state.phase ≠ .moving then true
  else state.piecesOnBoard (sideIndex state.sideToMove) ≤ 3

/-- The three-piece condition of leap, which binds in every phase. -/
def capturePieceCountAllowedLeap (config : CaptureRuleConfig) (state : MillState) : Bool :=
  if !config.onlyAvailableWhenOwnPiecesLeq3 then true
  else state.piecesOnBoard (sideIndex state.sideToMove) ≤ 3

namespace MillState

/-- The piece code of the side not to move. -/
def opponentPiece (state : MillState) : Int := xorOne state.sideToMove + 1

end MillState

/-- The middle piece of a leap may be removed under mill protection. -/
def leapCaptureTargetIsRemovable (state : MillState) (options : MillVariantOptions)
    (mid : Node) : Bool :=
  let opponentBb := state.pieceBitboard state.opponentPiece
  let millMembers := millMembersMaskForPiece state options state.opponentPiece
  testBit opponentBb mid
    && (options.mayRemoveFromMillsAlways
      || !(testBit millMembers mid && opponentBb &&& ~~~millMembers ≠ 0))

/-- A piece of the side to move is next to the node. -/
def isAdjacentToSidePiece (state : MillState) (options : MillVariantOptions)
    (node : Node) : Bool :=
  if state.sideToMove < 0 then false
  else state.pieceBitboard (state.sideToMove + 1)
    &&& neighborMaskFor node options.hasDiagonalLines ≠ 0

/-- Mill protection on a set of capture targets. -/
def filterCaptureTargets (state : MillState) (options : MillVariantOptions)
    (targets : Bitboard) : Bitboard :=
  let opponentBb := state.pieceBitboard state.opponentPiece
  let filtered := targets &&& opponentBb
  let millMembers := millMembersMaskForPiece state options state.opponentPiece
  if options.mayRemoveFromMillsAlways then filtered
  else if opponentBb &&& ~~~millMembers = 0 then filtered
  else filtered &&& ~~~millMembers

/-- Collect the middle nodes of the lines that satisfy `takes`. -/
def middleTargets (lines : List Line) (opponentBb : Bitboard) (takes : Line → Bool) : Bitboard :=
  lines.foldl
    (fun targets line =>
      if takes line && testBit opponentBb line.b then targets ||| nodeBit line.b else targets) 0

/-- Opponent pieces bracketed between `target` and another own piece. -/
def detectCustodianTargets (state : MillState) (options : MillVariantOptions)
    (target : Node) : Bitboard :=
  let config := options.custodianCapture
  if !capturePhaseAllowed config state.phase || !capturePieceCountAllowed config state then 0
  else
    let usBb := state.pieceBitboard (state.sideToMove + 1)
    let opponentBb := state.pieceBitboard state.opponentPiece
    filterCaptureTargets state options
      (middleTargets (activeCaptureLines config options) opponentBb fun line =>
        (target = line.a && testBit usBb line.c) || (target = line.c && testBit usBb line.a))

/-- The two end nodes of `line`. -/
def Line.endsMask (line : Line) : Bitboard := nodeBit line.a ||| nodeBit line.c

/-- The lines whose two end nodes the opponent holds around `target`, in scan order. -/
def interventionLines (state : MillState) (options : MillVariantOptions)
    (target : Node) : List Line :=
  let opponentBb := state.pieceBitboard state.opponentPiece
  (activeCaptureLines options.interventionCapture options).filter fun line =>
    target = line.b && testBit opponentBb line.a && testBit opponentBb line.c

/--
Opponent pieces on both sides of `target`. One line is chosen before mill
protection applies: the first one containing the preferred removal, else the
first one.
-/
def detectInterventionTargets (state : MillState) (options : MillVariantOptions)
    (target : Node) : Bitboard :=
  let config := options.interventionCapture
  if !capturePhaseAllowed config state.phase || !capturePieceCountAllowed config state then 0
  else
    let lines := interventionLines state options target
    let preferredLine := match boardNode? state.preferredRemoveTarget with
      | some preferred => lines.find? fun line : Line => line.endsMask &&& nodeBit preferred ≠ 0
      | none => none
    match preferredLine.or lines.head? with
    | none => 0
    | some line => filterCaptureTargets state options line.endsMask

/-- The opponent piece jumped over from `source` to `target`. -/
def detectLeapTargets (state : MillState) (options : MillVariantOptions)
    (source target : Node) : Bitboard :=
  let config := options.leapCapture
  if !capturePhaseAllowed config state.phase || !capturePieceCountAllowedLeap config state then 0
  else
    filterCaptureTargets state options
      (middleTargets (activeCaptureLines config options)
        (state.pieceBitboard state.opponentPiece) fun line =>
          (target = line.c && source = line.a) || (target = line.a && source = line.c))

/-- `mask.count_ones().min(u8::MAX)`. -/
def bitCount (mask : Bitboard) : Nat := min (countOnes mask) 255

namespace MillState

/-- No capture is pending. -/
def clearCaptureState (state : MillState) : MillState :=
  { state with
    custodianTargets := fun _ => 0
    interventionTargets := fun _ => 0
    leapTargets := fun _ => 0
    custodianCount := fun _ => 0
    interventionCount := fun _ => 0
    leapCount := fun _ => 0
    flags := { state.flags with millAvailableAtRemoval := false } }

/-- No capture of this side is pending. -/
def clearCaptureStateForSide (state : MillState) (side : Side) : MillState :=
  { state with
    custodianTargets := setAt state.custodianTargets side 0
    interventionTargets := setAt state.interventionTargets side 0
    leapTargets := setAt state.leapTargets side 0
    custodianCount := setAt state.custodianCount side 0
    interventionCount := setAt state.interventionCount side 0
    leapCount := setAt state.leapCount side 0
    flags := { state.flags with millAvailableAtRemoval := false } }

/-- Publish the exposed targets for the side to move; custodian allows one removal. -/
def activateCaptureState (state : MillState) (custodian intervention leap : Bitboard) :
    MillState :=
  let side := sideIndex state.sideToMove
  let publish {α : Type} (field : Side → α) (value : α) : Side → α :=
    if 0 ≤ state.sideToMove ∧ state.sideToMove < 2 then setAt field side value else field
  { state with
    custodianTargets := publish state.custodianTargets custodian
    interventionTargets := publish state.interventionTargets intervention
    leapTargets := publish state.leapTargets leap
    custodianCount := publish state.custodianCount (if custodian = 0 then 0 else 1)
    interventionCount := publish state.interventionCount (bitCount intervention)
    leapCount := publish state.leapCount (bitCount leap) }

/-- What the side to move may capture. -/
def captureTotal (state : MillState) : Nat :=
  if ¬(0 ≤ state.sideToMove ∧ state.sideToMove < 2) then 0
  else
    let side := sideIndex state.sideToMove
    saturatingAddU8 (saturatingAddU8 (state.custodianCount side) (state.interventionCount side))
      (state.leapCount side)

end MillState

/-- The other end of the intervention line the removed piece stood on. -/
def findPairedInterventionTarget (removed : Node) (targets : Bitboard)
    (options : MillVariantOptions) : Bitboard :=
  let paired (line : Line) : Option Bitboard :=
    if removed = line.a ∧ testBit targets line.c then some (nodeBit line.c)
    else if removed = line.c ∧ testBit targets line.a then some (nodeBit line.a)
    else none
  ((activeCaptureLines options.interventionCapture options).findSome? paired).getD
    (targets &&& ~~~nodeBit removed)

end Sanmill
