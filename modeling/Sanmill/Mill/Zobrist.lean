import Sanmill.Lib.XorSum
import Sanmill.Mill.State

/-!
# Zobrist keys

The key table, the key of a state computed from scratch, and the two incremental
forms the apply path uses: `keyAfterApplyFromChangedSquares` when only the
action's squares and the side can have changed, `keyAfterApply` from a captured
copy of every key input otherwise.

Bits 30 and 31 of a key hold the cached misc counter; every table entry stays
below them.
-/

namespace Sanmill

open Bits

/-- A 64-bit key. -/
abbrev Key : Type := BitVec 64

/-! ## The table -/

/-- A step of the generator. -/
def nextPrngState (state : Key) : Key :=
  let x := state ^^^ (state >>> 12)
  let x := x ^^^ (x <<< 25)
  x ^^^ (x >>> 27)

/-- The key of a state of the generator; the two top bits stay free. -/
def keyFromPrngState (state : Key) : Key :=
  state * 2685821657736338717#64 &&& 0x3fffffff#64

/-- `SEED`. -/
def zobristSeed : Key := 1070372

/-- The PRNG state after `n` steps. -/
def prngState : Nat → Key
  | 0 => zobristSeed
  | n + 1 => nextPrngState (prngState n)

/-- The `n`-th key drawn while the table is built, counted from zero. -/
def zobristDraw (n : Nat) : Key := keyFromPrngState (prngState (n + 1))

/-- Draws per colour: three target tables of 24 and counts of 5, 9 and 2. -/
def captureDraws : Nat := 24 + 5 + 24 + 9 + 24 + 2

namespace MillZobrist

/-- `psq[piece_type][square]`: 1 white, 2 black, 3 marked. -/
def psq (pieceType : Nat) (node : Node) : Key := zobristDraw (pieceType * 24 + node.val)

/-- The first draw of the capture tables of a colour. -/
def captureBase (color : Side) : Nat := 4 * 24 + color.val * captureDraws

/-- The key of a custodian target. -/
def custodianTarget (color : Side) (node : Node) : Key :=
  zobristDraw (captureBase color + node.val)

/-- The key of a number of custodian captures. -/
def custodianCount (color : Side) (count : Nat) : Key :=
  zobristDraw (captureBase color + 24 + count)

/-- The key of an intervention target. -/
def interventionTarget (color : Side) (node : Node) : Key :=
  zobristDraw (captureBase color + 24 + 5 + node.val)

/-- The key of a number of intervention captures. -/
def interventionCount (color : Side) (count : Nat) : Key :=
  zobristDraw (captureBase color + 24 + 5 + 24 + count)

/-- The key of a leap target. -/
def leapTarget (color : Side) (node : Node) : Key :=
  zobristDraw (captureBase color + 24 + 5 + 24 + 9 + node.val)

/-- The key of a number of leap captures. -/
def leapCount (color : Side) (count : Nat) : Key :=
  zobristDraw (captureBase color + 24 + 5 + 24 + 9 + 24 + count)

/-- The key of black to move. -/
def side : Key := zobristDraw (4 * 24 + 2 * captureDraws)

/-- Lengths of the three count tables. -/
def maxCustodian : Nat := 5
def maxIntervention : Nat := 9
def maxLeap : Nat := 2

end MillZobrist

/-! ## The key of a state -/

/-- Replace bits 30 and 31, and drop everything above. -/
def applyMisc (key : Key) (count : BitVec 2) : Key :=
  (key &&& 0x3fffffff#64) ||| (count.setWidth 64 <<< 30)

/-- The board contribution of `piece` standing on `node`. -/
def pieceKey (piece : Int) (node : Node) : Key :=
  if piece = 1 then MillZobrist.psq 1 node else if piece = 2 then MillZobrist.psq 2 node else 0#64

/-- The XOR of `table` over the nodes of a mask. -/
def targetsKey (table : Node → Key) (targets : Bitboard) : Key :=
  xorSum (maskNodes targets) table

/-- The entry of a count table, which has none for a zero count. -/
def countKey (table : Nat → Key) (count max : Nat) : Key :=
  if min count (max - 1) ≠ 0 then table (min count (max - 1)) else 0#64

/-- The keys of the pieces. -/
def boardKey (board : Node → Int) : Key :=
  xorSum (List.finRange 24) fun node => pieceKey (board node) node

/-- The key of the side to move. -/
def sideKey (sideToMove : Int) : Key := if sideToMove = 1 then MillZobrist.side else 0#64

/-- The capture contribution of one colour. -/
def captureKey (state : MillState) (c : Side) : Key :=
  targetsKey (MillZobrist.custodianTarget c) (state.custodianTargets c)
    ^^^ countKey (MillZobrist.custodianCount c) (state.custodianCount c) MillZobrist.maxCustodian
    ^^^ targetsKey (MillZobrist.interventionTarget c) (state.interventionTargets c)
    ^^^ countKey (MillZobrist.interventionCount c) (state.interventionCount c)
        MillZobrist.maxIntervention
    ^^^ targetsKey (MillZobrist.leapTarget c) (state.leapTargets c)
    ^^^ countKey (MillZobrist.leapCount c) (state.leapCount c) MillZobrist.maxLeap

/-- The cached misc counter, which a finished game reads as zero. -/
def miscCount (state : MillState) : BitVec 2 :=
  if state.phase ≠ .gameOver then state.flags.zobristMiscCount else 0

/-- `full_state_key`: the key of a state, computed afresh. -/
def fullStateKey (state : MillState) : Key :=
  applyMisc
    (boardKey state.board ^^^ targetsKey (MillZobrist.psq 3) state.delayedMarkedPieces
      ^^^ sideKey state.sideToMove ^^^ captureKey state 0 ^^^ captureKey state 1)
    (miscCount state)

/-- The cached key is set to what it stands for. -/
def recomputeZobrist (state : MillState) : MillState :=
  { state with zobristKey := fullStateKey state }

/-- The three capture records of both sides are all empty. -/
def captureStateIsEmpty (state : MillState) : Bool :=
  [0, 1].all fun c : Side =>
    state.custodianTargets c = 0 && state.custodianCount c = 0
      && state.interventionTargets c = 0 && state.interventionCount c = 0
      && state.leapTargets c = 0 && state.leapCount c = 0

/-! ## Incremental keys -/

/-- The key change of one square whose piece went from `old` to `new`. -/
def squareDelta (node : Node) (old new : Int) : Key := pieceKey old node ^^^ pieceKey new node

/-- The key change of the side bit. -/
def sideDelta (old new : Int) : Key :=
  if decide (old = 1) ≠ decide (new = 1) then MillZobrist.side else 0#64

/-- Key after an action that changes only its own squares, the side and the misc bits. -/
def keyAfterApplyFromChangedSquares (oldKey : Key) (oldSideToMove oldFromPiece oldToPiece : Int)
    (newState : MillState) (fromNode toNode : Int) : Key :=
  let fromDelta := match boardNode? fromNode with
    | some s => squareDelta s oldFromPiece (newState.board s)
    | none => 0#64
  let toDelta := match boardNode? toNode with
    | some s => if fromNode ≠ toNode then squareDelta s oldToPiece (newState.board s) else 0#64
    | none => 0#64
  applyMisc
    (oldKey ^^^ (fromDelta ^^^ toDelta ^^^ sideDelta oldSideToMove newState.sideToMove))
    (miscCount newState)

/-- `ZobristInputs::capture` keeps the key inputs of the state before the action. -/
structure ZobristInputs where
  board : Node → Int
  sideToMove : Int
  delayedMarkedPieces : Bitboard
  custodianTargets : Side → Bitboard
  custodianCount : Side → Nat
  interventionTargets : Side → Bitboard
  interventionCount : Side → Nat
  leapTargets : Side → Bitboard
  leapCount : Side → Nat

/-- What the key depends on. -/
def ZobristInputs.capture (state : MillState) : ZobristInputs where
  board := state.board
  sideToMove := state.sideToMove
  delayedMarkedPieces := state.delayedMarkedPieces
  custodianTargets := state.custodianTargets
  custodianCount := state.custodianCount
  interventionTargets := state.interventionTargets
  interventionCount := state.interventionCount
  leapTargets := state.leapTargets
  leapCount := state.leapCount

/-- No capture was pending. -/
def ZobristInputs.captureStateIsEmpty (old : ZobristInputs) : Bool :=
  [0, 1].all fun c : Side =>
    old.custodianTargets c = 0 && old.custodianCount c = 0
      && old.interventionTargets c = 0 && old.interventionCount c = 0
      && old.leapTargets c = 0 && old.leapCount c = 0

/-- What the key changes by when targets do. -/
def targetDelta (table : Node → Key) (oldTargets newTargets : Bitboard) : Key :=
  targetsKey table (oldTargets ^^^ newTargets)

/-- What the key changes by when a count does; large counts share a key. -/
def countDelta (table : Nat → Key) (oldCount newCount max : Nat) : Key :=
  if min oldCount (max - 1) = min newCount (max - 1) then 0#64
  else countKey table oldCount max ^^^ countKey table newCount max

/-- The squares an action may have rewritten: its own and the swept marks. -/
def changedSquares (old : ZobristInputs) (fromNode toNode : Int) : Bitboard :=
  old.delayedMarkedPieces
    ||| (match boardNode? fromNode with | some s => nodeBit s | none => 0#32)
    ||| (match boardNode? toNode with | some s => nodeBit s | none => 0#32)

/-- What the key changes by when the captures of a side do. -/
def captureDelta (old : ZobristInputs) (newState : MillState) (c : Side) : Key :=
  targetDelta (MillZobrist.custodianTarget c) (old.custodianTargets c) (newState.custodianTargets c)
    ^^^ countDelta (MillZobrist.custodianCount c) (old.custodianCount c)
        (newState.custodianCount c) MillZobrist.maxCustodian
    ^^^ targetDelta (MillZobrist.interventionTarget c) (old.interventionTargets c)
        (newState.interventionTargets c)
    ^^^ countDelta (MillZobrist.interventionCount c) (old.interventionCount c)
        (newState.interventionCount c) MillZobrist.maxIntervention
    ^^^ targetDelta (MillZobrist.leapTarget c) (old.leapTargets c) (newState.leapTargets c)
    ^^^ countDelta (MillZobrist.leapCount c) (old.leapCount c) (newState.leapCount c)
        MillZobrist.maxLeap

/-- Key after any action, from the captured inputs of the state before it. -/
def keyAfterApply (oldKey : Key) (old : ZobristInputs) (newState : MillState)
    (fromNode toNode : Int) : Key :=
  if old.delayedMarkedPieces = 0 ∧ newState.delayedMarkedPieces = 0
      ∧ old.captureStateIsEmpty ∧ captureStateIsEmpty newState then
    let fromDelta := match boardNode? fromNode with
      | some s => squareDelta s (old.board s) (newState.board s)
      | none => 0#64
    let toDelta := match boardNode? toNode with
      | some s =>
        if old.board s ≠ newState.board s then squareDelta s (old.board s) (newState.board s)
        else 0#64
      | none => 0#64
    applyMisc (oldKey ^^^ (fromDelta ^^^ toDelta ^^^ sideDelta old.sideToMove newState.sideToMove))
      (miscCount newState)
  else
    let boardDelta := xorSum (maskNodes (changedSquares old fromNode toNode)) fun s =>
      if old.board s = newState.board s then 0#64
      else squareDelta s (old.board s) (newState.board s)
    applyMisc
      (oldKey ^^^ (boardDelta ^^^ sideDelta old.sideToMove newState.sideToMove
        ^^^ targetDelta (MillZobrist.psq 3) old.delayedMarkedPieces newState.delayedMarkedPieces
        ^^^ captureDelta old newState 0 ^^^ captureDelta old newState 1))
      (miscCount newState)

end Sanmill
