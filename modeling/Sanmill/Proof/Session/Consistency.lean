import Sanmill.Lib.Run
import Sanmill.Proof.Session.Numbers

/-!
# The session and its kernel

Most operations leave the session consistent with its kernel, whether they succeed or fail:
what is published is the snapshot of the kernel, and the stacks of piece numbers are as deep
as the kernel's. The setup calls that clear the kernel's stacks and leave the numbers, a reset
with rules that the kernel refuses, and a restored line that breaks off after its first move
do so only as `KeepsMirrors` says.
-/

namespace Sanmill

open List (Forall₂)

namespace NativeMillGameSession

variable {session : NativeMillGameSession} {port : NativeMillRulesPort}

/-- The port's snapshot is the kernel's, and the numbers lie beside its stacks. -/
structure Tracks (session : NativeMillGameSession) : Prop where
  port : ∃ lastAction, session.rulesPort
    = .ofKernel session.rulesPort.rules session.rulesPort.kernel lastAction
  numbers : NumbersMatch session.pieceNumberHistory session.pieceNumberRedo
    session.rulesPort.kernel

/-- Besides, what is published is the snapshot, with a result laid over it at most. -/
structure Mirrored (session : NativeMillGameSession) : Prop extends Tracks session where
  published : session.forcedTerminal = false → session.state = session.rulesPort.snapshot
  overlay : ∃ outcome outcomeReason,
    session.state = { session.rulesPort.snapshot with outcome, outcomeReason }

theorem Tracks.publish (h : Tracks session) : Mirrored session.publish where
  port := h.port
  numbers := h.numbers
  published _ := rfl
  overlay := ⟨session.rulesPort.snapshot.outcome, session.rulesPort.snapshot.outcomeReason, rfl⟩

theorem Tracks.ofKernel {r : MillRules} {kernel : GameKernel} {lastAction : Option GameAction}
    {history : PieceNumberHistory} {redo : List MillPieceNumberState}
    (h : NumbersMatch history redo kernel) (state : SessionSnapshot) (forcedTerminal : Bool) :
    Tracks ⟨.ofKernel r kernel lastAction, state, forcedTerminal, history, redo⟩ where
  port := ⟨lastAction, rfl⟩
  numbers := h

/-! ## Steps of the kernel -/

/-- The kernel takes an action, and the numbers follow. -/
theorem Tracks.apply {action : GameAction} (h : Tracks session)
    (happly : session.rulesPort.apply action = some port) :
    Tracks ((session.withPort port).recordPieceNumbersAfter action) := by
  obtain ⟨kernel, hkernel, rfl⟩ := Option.map_eq_some_iff.1 happly
  exact .ofKernel (h.numbers.apply hkernel) _ _

theorem Tracks.undo (h : Tracks session) (hundo : session.rulesPort.undo = some port) :
    Tracks (session.withPort port).undoPieceNumbers := by
  obtain ⟨kernel, hkernel, rfl⟩ := Option.map_eq_some_iff.1 hundo
  obtain ⟨numbers, htop, hmatch⟩ := h.numbers.undo hkernel
  have hpop : (session.withPort (.ofKernel session.rulesPort.rules kernel none)).undoPieceNumbers
      = { session with
          rulesPort := .ofKernel session.rulesPort.rules kernel none
          pieceNumberHistory := ⟨session.pieceNumberHistory.before.dropLast, numbers⟩
          pieceNumberRedo := session.pieceNumberRedo ++ [session.pieceNumberHistory.last] } := by
    simp only [undoPieceNumbers, withPort, htop]
  rw [hpop]
  exact .ofKernel hmatch _ _

theorem Tracks.redo (h : Tracks session) (hredo : session.rulesPort.redo = some port) :
    Tracks (session.withPort port).redoPieceNumbers := by
  obtain ⟨kernel, hkernel, rfl⟩ := Option.map_eq_some_iff.1 hredo
  obtain ⟨numbers, htop, hmatch⟩ := h.numbers.redone hkernel
  have hpop : (session.withPort (.ofKernel session.rulesPort.rules kernel none)).redoPieceNumbers
      = { session with
          rulesPort := .ofKernel session.rulesPort.rules kernel none
          pieceNumberHistory :=
            ⟨session.pieceNumberHistory.before ++ [session.pieceNumberHistory.last], numbers⟩
          pieceNumberRedo := session.pieceNumberRedo.dropLast } := by
    simp only [redoPieceNumbers, withPort, htop]
  rw [hpop]
  exact .ofKernel hmatch _ _

/-- The numbers go with the stacks when the kernel's state is set. -/
theorem Tracks.replaced (session : NativeMillGameSession) (r : MillRules) (kernel : GameKernel)
    (snap : GameStateSnapshot) :
    Tracks ((session.withPort (.ofKernel r (kernel.replaceState snap) none)).resetPieceNumbers) :=
  .ofKernel (.reset rfl rfl) _ _

/-! ## The operations that keep the mirrors -/

theorem Mirrored.applyNow (h : Mirrored session) (action : GameAction) (alreadyMatched : Bool) :
    Mirrored (session.applyNow action alreadyMatched).1 := by
  unfold NativeMillGameSession.applyNow
  split
  · exact h
  · split
    · exact h
    · split
      · exact h
      · rename_i port happly
        exact (h.toTracks.apply happly).publish

theorem Mirrored.applyMoveString (h : Mirrored session) (move : Text) :
    Mirrored (session.applyMoveString move).1 := by
  unfold NativeMillGameSession.applyMoveString
  split
  · exact h
  · exact h.applyNow _ _

theorem Mirrored.undo (h : Mirrored session) : Mirrored session.undo.1 := by
  unfold NativeMillGameSession.undo
  split
  · exact h
  · rename_i port hundo
    exact (h.toTracks.undo hundo).publish

theorem Mirrored.redo (h : Mirrored session) : Mirrored session.redo.1 := by
  unfold NativeMillGameSession.redo
  split
  · exact h
  · rename_i port hredo
    exact (h.toTracks.redo hredo).publish

theorem Mirrored.setupSetPiece (h : Mirrored session) (node owner : Int) :
    Mirrored (session.setupSetPiece node owner).1 := by
  unfold NativeMillGameSession.setupSetPiece
  split
  · exact h
  · rename_i port hport
    obtain ⟨kernel, hkernel, rfl⟩ := Option.map_eq_some_iff.1 hport
    obtain ⟨target, -, rfl⟩ := Option.map_eq_some_iff.1 hkernel
    exact (Tracks.replaced ..).publish

theorem Mirrored.loadFen (h : Mirrored session) (fen : Text) :
    Mirrored (session.loadFen fen).1 := by
  unfold NativeMillGameSession.loadFen
  split
  · exact h
  · rename_i port hport
    obtain ⟨kernel, hkernel, rfl⟩ : ∃ kernel,
        session.rulesPort.rules.kernelSetFromFen session.rulesPort.kernel fen = .ok kernel
          ∧ port = .ofKernel session.rulesPort.rules kernel none := by
      unfold NativeMillRulesPort.setFromFen at hport
      split at hport
      · cases hport
      · rename_i kernel hkernel
        exact ⟨kernel, hkernel, (Option.some.inj hport).symm⟩
    unfold MillRules.kernelSetFromFen at hkernel
    cases hread : Sanmill.setFromFen session.rulesPort.rules.options fen with
    | error message =>
      rw [hread] at hkernel
      cases hkernel
    | ok state =>
      rw [hread] at hkernel
      obtain rfl := Except.ok.inj hkernel
      exact (Tracks.replaced ..).publish

theorem Mirrored.forceTerminal (h : Mirrored session) (outcome : GameOutcome)
    (reason : Option String) : Mirrored (session.forceTerminal outcome reason) where
  port := h.port
  numbers := h.numbers
  published hforced := by cases hforced
  overlay := by
    obtain ⟨outcome', outcomeReason', hstate⟩ := h.overlay
    refine ⟨outcome, reason.getD session.state.outcomeReason, ?_⟩
    show ({ session.state with outcome := outcome, outcomeReason := _ } : SessionSnapshot) = _
    rw [hstate]
    rfl

theorem setupClear_mirrored (session : NativeMillGameSession) : Mirrored session.setupClear :=
  (Tracks.replaced ..).publish

theorem resetGame_none_mirrored (session : NativeMillGameSession) :
    Mirrored (session.resetGame none).1 :=
  (Tracks.ofKernel (.reset rfl rfl) _ _).publish

/-! ### A replayed line -/

theorem Mirrored.undoToRoot (h : Mirrored session) (fuel : Nat) :
    Mirrored (undoToRoot fuel session) := by
  induction fuel generalizing session with
  | zero => exact h
  | succ fuel ih =>
    unfold NativeMillGameSession.undoToRoot
    split
    · exact ih h.undo
    · exact h

theorem Mirrored.replayMoves (h : Mirrored session) (moves : List Text) :
    Mirrored (replayMoves moves session).1 := by
  induction moves generalizing session with
  | nil => exact h
  | cons move rest ih =>
    unfold NativeMillGameSession.replayMoves
    split
    · exact h
    · exact ih (h.applyNow _ _)

theorem Mirrored.replayMainline (h : Mirrored session) (moves : List Text)
    (initialFen : Option Text) : Mirrored (session.replayMainline moves initialFen).1 := by
  unfold NativeMillGameSession.replayMainline
  cases initialFen with
  | none => exact (h.undoToRoot _).replayMoves moves
  | some fen =>
    simp only
    split
    · exact (resetGame_none_mirrored session).replayMoves moves
    · have hload := h.loadFen (Text.dartTrim fen)
      split
      · rename_i loaded heq
        rw [heq] at hload
        exact hload
      · rename_i loaded heq
        rw [heq] at hload
        exact hload.replayMoves moves

/-! ## The other operations -/

/-- No undo and no redo is left. -/
def StacksEmpty (session : NativeMillGameSession) : Prop :=
  session.undoDepth = 0 ∧ session.redoDepth = 0

/-- Moves that are legal one after another. -/
def Playable : NativeMillRulesPort → List Text → Prop
  | _, [] => True
  | port, move :: rest => ∃ action port',
      port.legalActions.find? (fun action => action.move = move) = some action
        ∧ port.apply action = some port' ∧ Playable port' rest

theorem playable_cons_iff {port : NativeMillRulesPort} {move : Text} {rest : List Text} :
    Playable port (move :: rest)
      ↔ ∃ port' ∈ (port.legalActions.find? fun action => action.move = move).bind port.apply,
        Playable port' rest := by
  simp only [Option.mem_def, Option.bind_eq_some_iff]
  constructor
  · intro h
    obtain ⟨action, port', hfind, happly, hrest⟩ := h
    exact ⟨port', ⟨action, hfind, happly⟩, hrest⟩
  · intro h
    obtain ⟨port', ⟨action, hfind, happly⟩, hrest⟩ := h
    exact ⟨action, port', hfind, happly, hrest⟩

instance decidablePlayable : ∀ (port : NativeMillRulesPort) (moves : List Text),
    Decidable (Playable port moves)
  | _, [] => .isTrue trivial
  | port, move :: rest =>
    match hnext : (port.legalActions.find? fun action => action.move = move).bind port.apply with
    | none => .isFalse fun h => by
      obtain ⟨port', hport, -⟩ := playable_cons_iff.1 h
      rw [hnext] at hport
      cases hport
    | some port' =>
      @decidable_of_iff _ (Playable port' rest)
        (by rw [playable_cons_iff, hnext]; simp) (decidablePlayable port' rest)

/-- What the operation asks of the session before it: a reset has rules that the kernel takes,
or nothing to lose; a setup call that leaves the numbers finds both stacks empty; a line that
is restored is legal to its end, or not even its first move is. -/
def KeepsMirrors (session : NativeMillGameSession) : SessionOp → Prop
  | .resetGame (some options) => options.AssertValid ∨ session.StacksEmpty
  | .setupSetSide _ | .setupFinish => session.StacksEmpty
  | .restoreMoveStrings moves => Playable session.rulesPort moves
      ∨ ∃ move ∈ moves.head?, ∀ action ∈ session.rulesPort.legalActions, action.move ≠ move
  | _ => True

theorem StacksEmpty.history (h : session.StacksEmpty) : session.rulesPort.kernel.history = [] :=
  List.length_eq_zero_iff.1 h.1

theorem StacksEmpty.redoStack (h : session.StacksEmpty) :
    session.rulesPort.kernel.redoStack = [] :=
  List.length_eq_zero_iff.1 h.2

theorem Mirrored.resetGame (h : Mirrored session) (rules : Option MillVariantOptions)
    (hkeeps : session.KeepsMirrors (.resetGame rules)) : Mirrored (session.resetGame rules).1 := by
  cases rules with
  | none => exact resetGame_none_mirrored session
  | some options =>
    unfold NativeMillGameSession.resetGame
    by_cases hvalid : options.AssertValid
    · have hnew : NativeMillRulesPort.new? options
          = some (.ofKernel ⟨options, hvalid⟩
            (GameKernel.new (MillRules.gameRules ⟨options, hvalid⟩))
              none) := by
        unfold NativeMillRulesPort.new? MillRules.new?
        rw [dif_pos hvalid]
        rfl
      simp only [hnew]
      exact (Tracks.ofKernel (.reset rfl rfl) _ _).publish
    · have hempty := hkeeps.resolve_left hvalid
      have hnew : NativeMillRulesPort.new? options = none := by
        unfold NativeMillRulesPort.new? MillRules.new?
        rw [dif_neg hvalid]
        rfl
      simp only [hnew]
      exact
        { port := h.port
          numbers := .reset hempty.history hempty.redoStack
          published := h.published
          overlay := h.overlay }

theorem Mirrored.setupSetSide (h : Mirrored session) (hempty : session.StacksEmpty) (side : Int) :
    Mirrored (session.setupSetSide side) :=
  (Tracks.ofKernel (h.numbers.edit hempty.history hempty.redoStack
    fun _ => setupSetSide_live _ _ side) _ _).publish

theorem Mirrored.setupFinish (h : Mirrored session) (hempty : session.StacksEmpty) :
    Mirrored session.setupFinish :=
  (Tracks.ofKernel (h.numbers.edit hempty.history hempty.redoStack
    fun _ => setupFinish_live _ _) _ _).publish

/-- A legal line is restored to its end. -/
theorem restoreMoves_playable {moves : List Text} (h : Tracks session)
    (hplayable : Playable session.rulesPort moves) :
    ∃ restored, restoreMoves moves session = (restored, true) ∧ Tracks restored := by
  induction moves generalizing session with
  | nil => exact ⟨session, rfl, h⟩
  | cons move rest ih =>
    obtain ⟨action, port, hfind, happly, hrest⟩ := hplayable
    obtain ⟨restored, hrestored, htracks⟩ := ih (h.apply happly) hrest
    refine ⟨restored, ?_, htracks⟩
    rw [← hrestored]
    simp only [restoreMoves, hfind, happly]

theorem Mirrored.restoreMoveStrings {moves : List Text} (h : Mirrored session)
    (hkeeps : session.KeepsMirrors (.restoreMoveStrings moves)) :
    Mirrored (session.restoreMoveStrings moves).1 := by
  unfold NativeMillGameSession.restoreMoveStrings
  rcases hkeeps with hplayable | ⟨move, hmove, hillegal⟩
  · obtain ⟨restored, hrestored, htracks⟩ := restoreMoves_playable h.toTracks hplayable
    rw [hrestored]
    exact htracks.publish
  · obtain ⟨rest, rfl⟩ : ∃ rest, moves = move :: rest := List.head?_eq_some_iff.1 hmove
    have hfind : session.rulesPort.legalActions.find? (fun action => action.move = move)
        = none := by
      rw [List.find?_eq_none]
      intro action haction
      rw [decide_eq_true_iff]
      exact hillegal action haction
    have hstop : restoreMoves (move :: rest) session = (session, false) := by
      simp only [restoreMoves, hfind]
    rw [hstop]
    exact h

/-! ## Runs -/

def performed (session : NativeMillGameSession) (op : SessionOp) : NativeMillGameSession :=
  (session.perform op).1

/-- The session over a new kernel. -/
def start (r : MillRules) : NativeMillGameSession :=
  fromPort (.ofKernel r (GameKernel.new r.gameRules) none)

theorem start_mirrored (r : MillRules) : Mirrored (start r) where
  port := ⟨none, rfl⟩
  numbers := .reset rfl rfl
  published _ := rfl
  overlay := ⟨_, _, rfl⟩

/-- **An operation keeps the mirrors where it finds what it asks for.** -/
theorem Mirrored.performed (h : Mirrored session) {op : SessionOp}
    (hkeeps : session.KeepsMirrors op) : Mirrored (session.performed op) := by
  cases op with
  | apply action alreadyMatched => exact h.applyNow action alreadyMatched
  | applyMoveString move => exact h.applyMoveString move
  | undo => exact h.undo
  | redo => exact h.redo
  | resetGame rules => exact h.resetGame rules hkeeps
  | setupClear => exact setupClear_mirrored session
  | setupSetPiece node owner => exact h.setupSetPiece node owner
  | setupSetSide side => exact h.setupSetSide hkeeps side
  | setupFinish => exact h.setupFinish hkeeps
  | loadFen fen => exact h.loadFen fen
  | restoreMoveStrings moves => exact h.restoreMoveStrings hkeeps
  | replayMainline moves initialFen => exact h.replayMainline moves initialFen
  | forceTerminal outcome reason => exact h.forceTerminal outcome reason

/-- The session says of the game what its kernel does. -/
structure Consistent (session : NativeMillGameSession) : Prop where
  /-- What is published is the snapshot of the kernel, but for a result laid over it. -/
  published : ∃ lastAction outcome outcomeReason,
    session.state = { snapshotFromKernel session.rulesPort.rules session.rulesPort.kernel lastAction
      with outcome, outcomeReason }
  noOverlay : session.forcedTerminal = false → ∃ lastAction,
    session.state = snapshotFromKernel session.rulesPort.rules session.rulesPort.kernel lastAction
  historyLength : session.pieceNumberHistory.length = session.undoDepth + 1
  redoLength : session.pieceNumberRedo.length = session.redoDepth
  /-- Every number, also of the entries that undo and redo lead to, belongs to a live piece. -/
  attached : Attached session.pieceNumberHistory.last session.rulesPort.kernel.state
  attachedBefore : Forall₂ Attached session.pieceNumberHistory.before
    session.rulesPort.kernel.history
  attachedRedo : Forall₂ Attached session.pieceNumberRedo session.rulesPort.kernel.redoStack

theorem Mirrored.consistent (h : Mirrored session) : Consistent session := by
  obtain ⟨lastAction, hport⟩ := h.port
  have hsnapshot : session.rulesPort.snapshot
      = snapshotFromKernel session.rulesPort.rules session.rulesPort.kernel lastAction :=
    congrArg NativeMillRulesPort.snapshot hport
  obtain ⟨outcome, outcomeReason, hstate⟩ := h.overlay
  exact
    { published := ⟨lastAction, outcome, outcomeReason, hsnapshot ▸ hstate⟩
      noOverlay := fun hforced => ⟨lastAction, (h.published hforced).trans hsnapshot⟩
      historyLength := congrArg (· + 1) h.numbers.before.length_eq
      redoLength := h.numbers.redo.length_eq
      attached := h.numbers.last
      attachedBefore := h.numbers.before
      attachedRedo := h.numbers.redo }

/-- **After each operation of a run the session is consistent with its kernel**, when every
operation finds what it asks for. -/
theorem session_run (r : MillRules) (ops : List SessionOp)
    (h : Run.Every performed KeepsMirrors (start r) ops) :
    Run.Every performed (fun session op => Consistent (session.performed op)) (start r) ops := by
  have hstep : ∀ session op, Mirrored session → KeepsMirrors session op →
      Mirrored (session.performed op) := fun _ _ hmirrored hkeeps => hmirrored.performed hkeeps
  refine (h.withInvariant hstep (start_mirrored r)).mono ?_
  rintro session op ⟨hmirrored, hkeeps⟩
  exact (hmirrored.performed hkeeps).consistent

/-- Moves that are played, taken back and restored, a line that is refused, a resignation, an
undo over it, and a position of its own. -/
def editedOps : List SessionOp :=
  [.applyMoveString "d6".toList, .applyMoveString "f4".toList, .undo, .redo, .undo,
    .restoreMoveStrings ["f4".toList, "d2".toList, "b4".toList], .restoreMoveStrings ["d6".toList],
    .applyMoveString "g7".toList, .forceTerminal (.win .second) (some "resignation"), .undo,
    .setupClear, .setupSetPiece 0 1, .setupSetSide 1, .setupFinish, .resetGame none,
    .resetGame (some { pieceCount := 0 })]

theorem session_run_edited : Run.Every performed
    (fun session op => Consistent (session.performed op)) (start .default) editedOps :=
  session_run _ _ ⟨trivial, trivial, trivial, trivial, trivial, .inl (by decide +kernel),
    .inr ⟨_, rfl, by decide +kernel⟩, trivial, trivial, trivial, trivial, trivial,
    ⟨by decide +kernel, by decide +kernel⟩, ⟨by decide +kernel, by decide +kernel⟩, trivial,
    .inr ⟨by decide +kernel, by decide +kernel⟩, trivial⟩

/-- The side is set after a move: the kernel has nothing to undo, and the numbers have. -/
theorem session_run_side_set : ¬ ∀ (r : MillRules) (ops : List SessionOp),
    Run.Every performed (fun session op => Consistent (session.performed op)) (start r) ops := by
  intro h
  obtain ⟨-, hset, -⟩ := h .default [.applyMoveString "d6".toList, .setupSetSide 1]
  have hlength : (((start .default).performed (.applyMoveString "d6".toList)).performed
      (.setupSetSide 1)).pieceNumberHistory.length = 2 := by decide +kernel
  have hdepth : (((start .default).performed (.applyMoveString "d6".toList)).performed
      (.setupSetSide 1)).undoDepth = 0 := rfl
  have heq := hset.historyLength
  rw [hlength, hdepth] at heq
  cases heq

end NativeMillGameSession

end Sanmill
