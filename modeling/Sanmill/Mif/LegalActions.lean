import Mathlib.Data.Fintype.Pi
import Sanmill.Mif.Engine

/-!
# Listed actions

The projection of a position lists what the player to move may do: the places, the moves or
the removals. It is a second implementation of the rules and does not ask the engine, which
only has to leave the position as it is.
-/

namespace Sanmill.Mif

open Engine (memberText)

deriving instance DecidableEq for State

/-- `projection_state`: the state of a position that the engine leaves as it is. -/
def projectionState (identity : Identity) (manifest : Manifest) (current : Text) :
    Result State := do
  let state ← State.parse current
  if state.canonical ≠ current then
    .error {
      category := "canonical"
      code := "mfen-not-canonical"
      message := "legal action projection requires canonical MFEN" }
  else do
    let stabilized ← Engine.new identity manifest current [] []
    if stabilized.state ≠ state then
      .error {
        category := "inconsistent"
        code := "unstabilized-boundary"
        message := "legal action projection requires a stable, pending-obligation, or terminal state" }
    else .ok state

/-! ## Places and moves -/

/-- The coordinate of a point. -/
def coordJson (point : Point) : Json := .str (COORDS.getD point.val [])

/-- The event of a placement. -/
def placeAction (actor : Char) (target : Point) : Json :=
  .ofMembers [("actor", ofChar actor), ("type", .ofString "place"), ("at", coordJson target)]

/-- The event of a move. -/
def moveAction (actor : Char) (source target : Point) : Json :=
  .ofMembers [("actor", ofChar actor), ("type", .ofString "move"), ("from", coordJson source),
    ("to", coordJson target)]

/-- The placements, in the order of the points. -/
def placeActions (state : State) : List Json :=
  if state.phase = 'p' ∧ 0 < state.hands (playerIndex state.side) then
    ((List.finRange 24).filter fun point => state.board point = '.').map (placeAction state.side)
  else []

/-- Whether the player to move may move to any empty point. -/
def mayFly (manifest : Manifest) (state : State) : Bool :=
  state.phase = 'm' ∧ (manifest.value.pointer ["flying", "enabled"]).bind Json.asBool = some true
    ∧ state.liveCount state.side
      ≤ ((manifest.value.pointer ["flying", "maximumLive"]).bind Json.asU64).getD 0

/-- `append_move_actions`. -/
def moveActions (manifest : Manifest) (state : State) : List Json :=
  ((List.finRange 24).filter fun source => state.board source = state.side.toUpper).flatMap
    fun source =>
    ((List.finRange 24).filter fun target =>
      state.board target = '.' ∧ (mayFly manifest state = true ∨ target ∈ ADJACENCY source)).map
        (moveAction state.side source)

/-! ## Removals -/

/-- The board points and the hands that some branch lets the player take from. -/
structure Targets where
  board : Point → Bool
  hand : Fin 2 → Bool

/-- An obligation with a target that does not fit the board. -/
def targetMismatch (message : String) : Diagnostic :=
  { category := "inconsistent", code := "obligation-target-mismatch", message }

/-- An obligation that cannot be read. -/
def invalidObligation (message : String) : Diagnostic :=
  { category := "syntax", code := "obligation-invalid", message }

/-- The board targets of an obligation are pieces of its owner. -/
def selectTargets (state : State) (head : Obligation) (board : Point → Bool) :
    Result (Point → Bool) :=
  (List.finRange 24).foldlM
    (fun selected index =>
      if head.targets.getLsbD index.val = false then .ok selected
      else if state.board index ≠ head.owner.toUpper then
        .error (targetMismatch "board obligation target owner does not match state")
      else .ok (Function.update selected index true)) board

/-- One round of the loop of `removal_actions`. -/
def selectHead (state : State) (targets : Targets) (head : Obligation) : Result Targets :=
  if head.actor ≠ state.side then
    .error {
      category := "inconsistent"
      code := "side-obligation-actor-mismatch"
      message := "obligation actor differs from the active side" }
  else if head.targetsDeferred then
    .error (targetMismatch "active obligation targets must be materialized")
  else if head.zone = 'b' then
    if head.targets &&& ~~~0x00ffffff#32 ≠ 0 then
      .error (invalidObligation "board obligation target mask exceeds the topology")
    else do
      let board ← selectTargets state head targets.board
      .ok { targets with board }
  else if head.zone = 'h' ∧ head.owner ∈ ['w', 'b'] then
    if state.hands (playerIndex head.owner) = 0 then
      .error (targetMismatch "hand obligation target has no remaining material")
    else .ok { targets with hand := Function.update targets.hand (playerIndex head.owner) true }
  else .error (invalidObligation "obligation target zone or owner is invalid")

/-- The event of a removal from the board. -/
def boardRemoval (actor : Char) (target : Point) : Json :=
  .ofMembers [("actor", ofChar actor), ("type", .ofString "remove"),
    ("target", .ofMembers [("zone", .ofString "board"), ("at", coordJson target)])]

/-- The event of a removal from a hand. -/
def handRemoval (actor : Char) (owner : Fin 2) : Json :=
  .ofMembers [("actor", ofChar actor), ("type", .ofString "remove"),
    ("target", .ofMembers [("zone", .ofString "hand"),
      ("player", .ofString (if owner = 0 then "w" else "b"))])]

/-- The removals that some branch begins with, those from the board first. -/
def removalActions (state : State) : Result (List Json) := do
  let branches ← parseObligationBranches state.obligations
  let targets ← (branches.filterMap List.head?).foldlM (selectHead state)
    ⟨fun _ => false, fun _ => false⟩
  .ok (((List.finRange 24).filter targets.board).map (boardRemoval state.side)
    ++ ((List.finRange 2).filter targets.hand).map (handRemoval state.side))

/-- `legal_actions`. -/
def legalActions (manifest : Manifest) (state : State) : Result (List Json) :=
  if state.outcome ≠ dash then .ok []
  else if state.obligations ≠ dash then removalActions state
  else
    .ok (placeActions state
      ++ if state.phase = 'm' ∨ (state.phase = 'p' ∧ manifest.movementAllowed = true) then
          moveActions manifest state
        else [])

end Sanmill.Mif
