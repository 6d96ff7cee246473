import Sanmill.Proof.Kernel
import Sanmill.Proof.Reload
import Sanmill.Proof.Symmetry.Play
import Sanmill.Session.RulesPort

/-!
# Sessions are symmetric

Two sessions that are given each other's images cannot drift apart: every call is accepted by
both or by neither, and the positions they show are images of each other.

The repetition rule is left out. It counts position keys, a key is a hash of the board as it
is presented, and nothing says that two boards collide exactly when their images do.
-/

namespace Sanmill

variable {t : BoardTransform} {r : MillRules} {s s' : MillState} {adjudicate : Bool}

/-! ## Snapshots -/

theorem Presents.withHistory (h : Presents r adjudicate t s s') (keys keys' : List Key)
    (len len' : Nat) :
    Presents r adjudicate t { s with keyHistory := keys, keyHistoryLen := len }
      { s' with keyHistory := keys', keyHistoryLen := len' } where
  image := { h.image with }
  source := h.source.withHistory keys len
  target := h.target.withHistory keys' len'
  clock := h.clock

/-- Writing a state to a snapshot and reading it back does not move it. -/
theorem Presents.reload (h : Presents r adjudicate t s s') :
    Presents r adjudicate t (reloaded r.options s) (reloaded r.options s') where
  image :=
    { h.image with
      position := by
        rw [reloaded_position h.source.position, reloaded_position h.target.position]
        exact h.image.position
      flags := { h.image.flags with } }
  source := h.source.reload
  target := h.target.reload
  clock hadjudicate := by
    obtain ⟨hoff, hply⟩ := h.clock hadjudicate
    refine ⟨hoff, ?_⟩
    change s'.plySinceCapture % 65536 = s.plySinceCapture % 65536
    rw [hply]

/-- The states of two snapshots present each other in real play. -/
def SnapshotImage (r : MillRules) (t : BoardTransform) (snap snap' : GameStateSnapshot) : Prop :=
  Presents r true t (MillState.decodeWithOptions snap r.options)
    (MillState.decodeWithOptions snap' r.options)

variable {snap snap' : GameStateSnapshot} {a : Action}

theorem snapshotImage_encode (h : Presents r true t s s') :
    SnapshotImage r t (s.encode r.options) (s'.encode r.options) := by
  unfold SnapshotImage
  rw [decode_encode r.options h.source.encodable, decode_encode r.options h.target.encodable]
  exact h.reload

namespace SnapshotImage

theorem legal_iff (h : SnapshotImage r t snap snap') (a : Action) :
    transformAction t a ∈ r.legalActions snap' ↔ a ∈ r.legalActions snap := by
  rw [mem_legalActions_iff, mem_legalActions_iff]
  exact Presents.legal_iff h a

theorem isLegal_eq (h : SnapshotImage r t snap snap') (a : Action) :
    r.gameRules.isLegal snap' (transformAction t a) = r.gameRules.isLegal snap a := by
  unfold GameRules.isLegal
  rw [Bool.eq_iff_iff, List.contains_iff_mem, List.contains_iff_mem]
  exact h.legal_iff a

/-- **One action**, whatever the histories it is applied with. -/
theorem apply (h : SnapshotImage r t snap snap') (ha : r.gameRules.isLegal snap a = true)
    (history history' : List GameStateSnapshot) :
    SnapshotImage r t (r.applyWithHistory snap a history)
      (r.applyWithHistory snap' (transformAction t a) history') := by
  have hlegal : LegalAction (MillState.decodeWithOptions snap r.options) r.options a := by
    unfold GameRules.isLegal at ha
    rw [List.contains_iff_mem] at ha
    exact (mem_legalActions_iff r snap a).1 ha
  have hlegal' := (Presents.legal_iff h a).2 hlegal
  obtain ⟨keys, len, heq⟩ := applyWithHistory_legal h.source snap rfl hlegal history
  obtain ⟨keys', len', heq'⟩ := applyWithHistory_legal h.target snap' rfl hlegal' history'
  rw [heq, heq']
  exact snapshotImage_encode ((Presents.withHistory h keys keys' len len').apply hlegal)

theorem outcome_eq (h : SnapshotImage r t snap snap') : r.outcome snap' = r.outcome snap := by
  unfold MillRules.outcome
  simp only [h.image.phase, h.image.winner, h.image.outcomeReason]

end SnapshotImage

/-- Both sessions start on the empty board. -/
theorem initial_snapshotImage (hoff : r.options.threefoldRepetitionRule = false) :
    SnapshotImage r t r.gameRules.initialState r.gameRules.initialState :=
  snapshotImage_encode (initial_presents r t fun _ => hoff)

/-! ## Timelines -/

def KernelCommand.image (t : BoardTransform) : KernelCommand → KernelCommand
  | .apply a => .apply (transformAction t a)
  | .applyUnchecked a => .applyUnchecked (transformAction t a)
  | .undo => .undo
  | .redo => .redo
  | .reset => .reset
  | .replaceState newState => .replaceState newState

namespace Timeline

/-- The image of a line of play, from the same root. -/
def image (t : BoardTransform) (T : Timeline) : Timeline where
  root := T.root
  past := T.past.map (transformAction t)
  future := T.future.map (transformAction t)

variable {T : Timeline}

/-- A legal line and its image lead to images. -/
theorem replay_image (hoff : r.options.threefoldRepetitionRule = false) {line : List Action}
    (hline : r.gameRules.LegalLine r.gameRules.initialState line) :
    SnapshotImage r t (r.gameRules.replay r.gameRules.initialState line).state
      (r.gameRules.replay r.gameRules.initialState (line.map (transformAction t))).state := by
  let allowed (p : Played) (a : Action) : Prop := r.gameRules.isLegal p.state a = true
  let related (p p' : Played) : Prop := SnapshotImage r t p.state p'.state
  have hrun := @Run.bisimilar _ _ r.gameRules.advance _ _ r.gameRules.advance related allowed
    allowed (transformAction t) (fun _ _ a h => iff_of_eq (congrArg (· = true) (h.isLegal_eq a)))
    (fun p p' _ h ha => h.apply ha p.history p'.history) ⟨[], r.gameRules.initialState⟩
    ⟨[], r.gameRules.initialState⟩ (initial_snapshotImage hoff) line
  exact hrun.2 hline

theorem current_image (hoff : r.options.threefoldRepetitionRule = false)
    (hlegal : T.Legal r.gameRules) :
    SnapshotImage r t (T.current r.gameRules) ((T.image t).current r.gameRules) := by
  have hpast := (r.gameRules.legalLine_append.1 hlegal.line).1
  unfold current image
  rw [hlegal.root] at hpast ⊢
  exact replay_image hoff hpast

/-- **One call**: the image of the call does to the image of the line what the call does. -/
theorem execute_image (hoff : r.options.threefoldRepetitionRule = false)
    (hlegal : T.Legal r.gameRules) {command : KernelCommand} (hchecked : command.checked = true) :
    (T.image t).execute r.gameRules (command.image t)
      = (T.execute r.gameRules command).map (image t) := by
  have hcurrent := current_image (t := t) hoff hlegal
  obtain ⟨root, past, future⟩ := T
  cases command with
  | apply a =>
    simp only [KernelCommand.image, execute]
    rw [hcurrent.isLegal_eq a]
    split
    · rw [Option.map_some]
      simp only [image, List.map_append, List.map_cons, List.map_nil]
    · rfl
  | undo =>
    simp only [KernelCommand.image, execute, image]
    rcases List.eq_nil_or_concat' past with rfl | ⟨before, a, rfl⟩
    · rfl
    -- the last action of the past is undone on both sides
    · simp only [List.map_append, List.map_cons, List.map_nil, List.getLast?_concat,
        List.dropLast_concat, Option.map_some]
      rfl
  | redo =>
    cases future with
    | nil => rfl
    | cons a rest =>
      simp only [KernelCommand.image, execute, image, List.map_cons, List.head?_cons,
        List.tail_cons, Option.map_some, List.map_append, List.map_nil]
  | reset => rfl
  | applyUnchecked a => cases hchecked
  | replaceState newState => cases hchecked

theorem step_image (hoff : r.options.threefoldRepetitionRule = false)
    (hlegal : T.Legal r.gameRules) {command : KernelCommand} (hchecked : command.checked = true) :
    (T.image t).step r.gameRules (command.image t) = (T.step r.gameRules command).image t := by
  unfold step
  rw [execute_image hoff hlegal hchecked]
  cases T.execute r.gameRules command with
  | none => rfl
  | some u => rfl

theorem run_image (hoff : r.options.threefoldRepetitionRule = false) {commands : List KernelCommand}
    (hchecked : ∀ command ∈ commands, command.checked = true) (hlegal : T.Legal r.gameRules) :
    Run.last (step r.gameRules) (T.image t) (commands.map (KernelCommand.image t))
        = (Run.last (step r.gameRules) T commands).image t
      ∧ ((T.image t).returned r.gameRules (commands.map (KernelCommand.image t))).map Option.isSome
        = (T.returned r.gameRules commands).map Option.isSome := by
  induction commands generalizing T with
  | nil => exact ⟨rfl, rfl⟩
  | cons command rest ih =>
    have hfirst := hchecked command List.mem_cons_self
    obtain ⟨hlast, hreturned⟩ :=
      ih (fun c hc => hchecked c (List.mem_cons_of_mem _ hc)) (hlegal.step hfirst)
    have hstep := step_image (t := t) hoff hlegal hfirst
    refine ⟨?_, ?_⟩
    · rw [List.map_cons, Run.last_cons, Run.last_cons, hstep, hlast]
    · unfold returned
      rw [List.map_cons]
      simp only [List.map_cons]
      rw [hstep, hreturned, execute_image hoff hlegal hfirst]
      cases T.execute r.gameRules command with
      | none => rfl
      | some u => rfl

end Timeline

/-! ## Sessions -/

/-- **Sessions are symmetric.** A session that is given the images of another one's calls
accepts and refuses the same calls, and shows the image of the other's position: the same
counts and obligations, the image of each legal action, the same outcome, the same value to
the search. -/
theorem session_symmetric (hoff : r.options.threefoldRepetitionRule = false) (t : BoardTransform)
    (commands : List KernelCommand) (hchecked : ∀ command ∈ commands, command.checked = true) :
    let images := commands.map (KernelCommand.image t)
    let kernel := Run.last (GameKernel.step r.gameRules) (GameKernel.new r.gameRules) commands
    let kernel' := Run.last (GameKernel.step r.gameRules) (GameKernel.new r.gameRules) images
    let s := MillState.decodeWithOptions kernel.state r.options
    let s' := MillState.decodeWithOptions kernel'.state r.options
    ((GameKernel.new r.gameRules).returned r.gameRules images).map Option.isSome
        = ((GameKernel.new r.gameRules).returned r.gameRules commands).map Option.isSome
      ∧ kernel'.undoDepth = kernel.undoDepth ∧ kernel'.redoDepth = kernel.redoDepth
      ∧ StateImage t s s'
      ∧ (∀ a, transformAction t a ∈ r.legalActions kernel'.state
          ↔ a ∈ r.legalActions kernel.state)
      ∧ r.outcome kernel'.state = r.outcome kernel.state
      ∧ ∀ weights reset reset' ctx ctx' n,
          Searcher.minimaxPlies (MillGame.game weights reset') ctx' n ⟨r, s', []⟩
            = Searcher.minimaxPlies (MillGame.game weights reset) ctx n ⟨r, s, []⟩ := by
  intro images kernel kernel' s s'
  obtain ⟨hlast, hreturned⟩ :=
    Timeline.run_image (t := t) hoff hchecked (Timeline.legal_start r.gameRules)
  have hstart : (Timeline.start r.gameRules).image t = Timeline.start r.gameRules := rfl
  rw [hstart] at hlast hreturned
  have hlegal := @Timeline.legal_run r.gameRules _ hchecked
  -- a kernel is its timeline, so it is enough to compare the timelines
  have hkernel : kernel = (Run.last (Timeline.step r.gameRules) (Timeline.start r.gameRules)
      commands).toKernel r.gameRules :=
    Timeline.last_toKernel (Timeline.start r.gameRules) commands
  have hkernel' : kernel' = ((Run.last (Timeline.step r.gameRules) (Timeline.start r.gameRules)
      commands).image t).toKernel r.gameRules := by
    rw [← hlast]
    exact Timeline.last_toKernel (Timeline.start r.gameRules) images
  have himage := Timeline.current_image (t := t) hoff hlegal
  have hstates : SnapshotImage r t kernel.state kernel'.state := by
    rw [hkernel, hkernel']
    exact himage
  have hsearch : Presents r false t s s' :=
    { hstates with clock := fun h => absurd h Bool.false_ne_true }
  refine ⟨?_, ?_, ?_, hstates.image, hstates.legal_iff, hstates.outcome_eq,
    fun _ _ _ _ _ n => minimaxPlies_image n rfl rfl hsearch⟩
  · rw [← Timeline.toKernel_start, Timeline.returned_toKernel, Timeline.returned_toKernel]
    exact hreturned
  · rw [hkernel, hkernel']
    unfold GameKernel.undoDepth Timeline.toKernel
    rw [r.gameRules.length_replay_history, r.gameRules.length_replay_history]
    exact List.length_map _
  · rw [hkernel, hkernel']
    unfold GameKernel.redoDepth Timeline.toKernel
    rw [List.length_reverse, List.length_reverse, r.gameRules.length_positionsAfter,
      r.gameRules.length_positionsAfter]
    exact List.length_map _

/-- A quarter turn of a session in which a call is refused, without the repetition rule. -/
theorem session_symmetric_turned :
    let rules : MillRules := ⟨{ threefoldRepetitionRule := false }, by decide⟩
    let commands : List KernelCommand :=
      [.apply (placeAction 0), .apply (placeAction 0), .apply (placeAction 9), .undo, .redo]
    rules.options.threefoldRepetitionRule = false
      ∧ (∀ command ∈ commands, command.checked = true)
      ∧ ((GameKernel.new rules.gameRules).returned rules.gameRules
            (commands.map (KernelCommand.image 1))).map Option.isSome
          = ((GameKernel.new rules.gameRules).returned rules.gameRules commands).map
            Option.isSome := by
  refine ⟨rfl, ?_, (session_symmetric rfl 1 _ ?_).1⟩
  · simp [KernelCommand.checked]
  · simp [KernelCommand.checked]

end Sanmill
