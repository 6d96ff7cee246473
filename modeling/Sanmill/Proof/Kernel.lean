import Mathlib.Data.List.Induction
import Sanmill.Core.Game
import Sanmill.Lib.Run

/-!
# A session is a line of play with a cursor

The kernel keeps two stacks of snapshots and says nothing of the actions between them. What
a session is for is simpler: a line of actions from a root position, and a cursor on it.
`Timeline.toKernel` is the kernel that shows a timeline, with every snapshot computed again
from the root and the history it is applied with. `execute_toKernel` is the step, and
`kernel_shows_timeline` the run: no sequence of calls can tell the stacks from the line.
-/

namespace Sanmill

/-! ## Lines of play -/

/-- A position together with the positions before it, oldest first. -/
structure Played where
  history : List GameStateSnapshot
  state : GameStateSnapshot

namespace GameRules

variable (rules : GameRules)

/-- The position after `action`, which the rules compute with the history at hand. -/
def advance (played : Played) (action : Action) : Played :=
  { history := played.history ++ [played.state]
    state := rules.applyWithHistory played.state action played.history }

/-- Play the actions from a root position that has no history. -/
def replay (root : GameStateSnapshot) (actions : List Action) : Played :=
  Run.last rules.advance ⟨[], root⟩ actions

/-- The positions the actions lead through, the first one left out. -/
def positionsAfter (played : Played) : List Action → List GameStateSnapshot
  | [] => []
  | action :: rest =>
    (rules.advance played action).state :: positionsAfter (rules.advance played action) rest

theorem replay_append (root : GameStateSnapshot) (before after : List Action) :
    rules.replay root (before ++ after)
      = Run.last rules.advance (rules.replay root before) after :=
  Run.last_append _ _ _

theorem replay_snoc (root : GameStateSnapshot) (actions : List Action) (action : Action) :
    rules.replay root (actions ++ [action]) = rules.advance (rules.replay root actions) action :=
  rules.replay_append root actions [action]

theorem length_positionsAfter (played : Played) (actions : List Action) :
    (rules.positionsAfter played actions).length = actions.length := by
  induction actions generalizing played with
  | nil => rfl
  | cons action rest ih => simp only [positionsAfter, List.length_cons, ih]

/-- The history grows by one position an action. -/
theorem length_replay_history (root : GameStateSnapshot) (actions : List Action) :
    (rules.replay root actions).history.length = actions.length := by
  induction actions using List.reverseRecOn with
  | nil => rfl
  | append_singleton actions action ih =>
    rw [replay_snoc]
    simp only [advance, List.length_append, List.length_cons, List.length_nil, ih]

/-- Each action of the line is legal in the position it is played in. -/
def LegalLine (root : GameStateSnapshot) (actions : List Action) : Prop :=
  Run.Every rules.advance (fun played action => rules.isLegal played.state action = true)
    ⟨[], root⟩ actions

theorem legalLine_append {root : GameStateSnapshot} {before after : List Action} :
    rules.LegalLine root (before ++ after)
      ↔ rules.LegalLine root before
        ∧ Run.Every rules.advance (fun played action => rules.isLegal played.state action = true)
            (rules.replay root before) after :=
  Run.every_append

end GameRules

/-! ## Calls -/

/-- The calls that change a kernel. -/
inductive KernelCommand where
  | apply (action : Action)
  | applyUnchecked (action : Action)
  | undo
  | redo
  | reset
  | replaceState (newState : GameStateSnapshot)

namespace GameKernel

variable (rules : GameRules)

/-- `none` where the call returns an error. -/
def execute (kernel : GameKernel) : KernelCommand → Option GameKernel
  | .apply action => kernel.apply rules action
  | .applyUnchecked action => some (kernel.applyUnchecked rules action)
  | .undo => kernel.undo
  | .redo => kernel.redo
  | .reset => some (kernel.reset rules)
  | .replaceState newState => some (kernel.replaceState newState)

/-- A call that fails leaves the kernel as it was. -/
def step (kernel : GameKernel) (command : KernelCommand) : GameKernel :=
  (kernel.execute rules command).getD kernel

/-- What the calls return, in order: the new snapshot, or an error. -/
def returned (kernel : GameKernel) : List KernelCommand → List (Option GameStateSnapshot)
  | [] => []
  | command :: rest =>
    (kernel.execute rules command).map GameKernel.state
      :: returned (kernel.step rules command) rest

end GameKernel

/-! ## Timelines -/

/-- The actions played from `root`, and those taken back, the next one to redo first. -/
structure Timeline where
  root : GameStateSnapshot
  past : List Action
  future : List Action

namespace Timeline

variable (rules : GameRules)

/-- The position under the cursor. -/
def current (t : Timeline) : GameStateSnapshot := (rules.replay t.root t.past).state

def start : Timeline := ⟨rules.initialState, [], []⟩

def execute (t : Timeline) : KernelCommand → Option Timeline
  | .apply action =>
    if rules.isLegal (t.current rules) action then some ⟨t.root, t.past ++ [action], []⟩ else none
  | .applyUnchecked action => some ⟨t.root, t.past ++ [action], []⟩
  | .undo => t.past.getLast?.map fun action => ⟨t.root, t.past.dropLast, action :: t.future⟩
  | .redo => t.future.head?.map fun action => ⟨t.root, t.past ++ [action], t.future.tail⟩
  | .reset => some (start rules)
  | .replaceState newState => some ⟨newState, [], []⟩

def step (t : Timeline) (command : KernelCommand) : Timeline := (t.execute rules command).getD t

def returned (t : Timeline) : List KernelCommand → List (Option GameStateSnapshot)
  | [] => []
  | command :: rest =>
    (t.execute rules command).map (current rules) :: returned (t.step rules command) rest

/-- The kernel that shows a timeline. -/
def toKernel (t : Timeline) : GameKernel where
  state := t.current rules
  history := (rules.replay t.root t.past).history
  redoStack := (rules.positionsAfter (rules.replay t.root t.past) t.future).reverse

/-! ## The step -/

variable {rules}

theorem toKernel_snoc (root : GameStateSnapshot) (past future : List Action) (action : Action) :
    toKernel rules ⟨root, past ++ [action], future⟩
      = { state := (rules.advance (rules.replay root past) action).state
          history := (rules.advance (rules.replay root past) action).history
          redoStack := (rules.positionsAfter (rules.advance (rules.replay root past) action)
            future).reverse } := by
  unfold toKernel current
  simp only [rules.replay_snoc]

theorem undo_toKernel (root : GameStateSnapshot) (past future : List Action) (action : Action) :
    (toKernel rules ⟨root, past ++ [action], future⟩).undo
      = some (toKernel rules ⟨root, past, action :: future⟩) := by
  rw [toKernel_snoc]
  unfold GameKernel.undo toKernel current
  simp only [GameRules.advance, List.getLast?_concat, Option.map_some, List.dropLast_concat,
    GameRules.positionsAfter, List.reverse_cons]

theorem redo_toKernel (root : GameStateSnapshot) (past future : List Action) (action : Action) :
    (toKernel rules ⟨root, past, action :: future⟩).redo
      = some (toKernel rules ⟨root, past ++ [action], future⟩) := by
  rw [toKernel_snoc]
  unfold GameKernel.redo toKernel current
  simp only [GameRules.positionsAfter, List.reverse_cons, List.getLast?_concat, Option.map_some,
    List.dropLast_concat, GameRules.advance]

/-- **One call** does to the stacks what it does to the line. -/
theorem execute_toKernel (t : Timeline) (command : KernelCommand) :
    (t.toKernel rules).execute rules command = (t.execute rules command).map (toKernel rules) := by
  obtain ⟨root, past, future⟩ := t
  cases command with
  | apply action =>
    simp only [GameKernel.execute, GameKernel.apply, execute]
    by_cases hlegal : rules.isLegal (current rules ⟨root, past, future⟩) action = true
    · rw [if_pos hlegal, Option.map_some, toKernel_snoc]
      exact if_pos hlegal
    · rw [if_neg hlegal]
      exact if_neg hlegal
  | applyUnchecked action =>
    simp only [GameKernel.execute, execute]
    rw [Option.map_some, toKernel_snoc]
    rfl
  | undo =>
    rcases List.eq_nil_or_concat' past with rfl | ⟨before, action, rfl⟩
    · rfl
    · simp only [GameKernel.execute, execute, List.getLast?_concat, List.dropLast_concat,
        Option.map_some]
      exact undo_toKernel root before future action
  | redo =>
    cases future with
    | nil => rfl
    | cons action rest => exact redo_toKernel root past rest action
  | reset => rfl
  | replaceState newState => rfl

theorem step_toKernel (t : Timeline) (command : KernelCommand) :
    (t.toKernel rules).step rules command = (t.step rules command).toKernel rules := by
  unfold GameKernel.step step
  rw [execute_toKernel]
  cases t.execute rules command with
  | none => rfl
  | some u => rfl

/-! ## Runs -/

theorem last_toKernel (t : Timeline) (commands : List KernelCommand) :
    Run.last (GameKernel.step rules) (t.toKernel rules) commands
      = (Run.last (step rules) t commands).toKernel rules := by
  induction commands generalizing t with
  | nil => rfl
  | cons command rest ih => rw [Run.last_cons, Run.last_cons, step_toKernel, ih]

theorem returned_toKernel (t : Timeline) (commands : List KernelCommand) :
    (t.toKernel rules).returned rules commands = t.returned rules commands := by
  induction commands generalizing t with
  | nil => rfl
  | cons command rest ih =>
    unfold GameKernel.returned returned
    rw [step_toKernel, ih, execute_toKernel, Option.map_map]
    rfl

theorem toKernel_start : (start rules).toKernel rules = GameKernel.new rules := rfl

end Timeline

/-- **A session is a line of play with a cursor**: whatever is called, in whatever order, the
snapshots the calls return and the stacks they leave are those of the timeline. -/
theorem kernel_shows_timeline (rules : GameRules) (commands : List KernelCommand) :
    (GameKernel.new rules).returned rules commands
        = (Timeline.start rules).returned rules commands
      ∧ Run.last (GameKernel.step rules) (GameKernel.new rules) commands
        = (Run.last (Timeline.step rules) (Timeline.start rules) commands).toKernel rules :=
  ⟨Timeline.returned_toKernel (Timeline.start rules) commands,
    Timeline.last_toKernel (Timeline.start rules) commands⟩

/-! ## Checked sessions -/

/-- A call that cannot bring in a position the rules did not reach. -/
def KernelCommand.checked : KernelCommand → Bool
  | .apply _ | .undo | .redo | .reset => true
  | .applyUnchecked _ | .replaceState _ => false

/-- The line of a session starts at the initial position and is legal from end to end. -/
structure Timeline.Legal (rules : GameRules) (t : Timeline) : Prop where
  root : t.root = rules.initialState
  line : rules.LegalLine t.root (t.past ++ t.future)

theorem Timeline.legal_start (rules : GameRules) : (Timeline.start rules).Legal rules :=
  ⟨rfl, trivial⟩

/-- A checked call keeps the line legal. -/
theorem Timeline.Legal.step {rules : GameRules} {t : Timeline} (h : t.Legal rules)
    {command : KernelCommand} (hchecked : command.checked = true) :
    (t.step rules command).Legal rules := by
  obtain ⟨root, past, future⟩ := t
  obtain ⟨hroot, hline⟩ := h
  cases command with
  -- an applied action cuts the future off; the past stays legal up to the new action
  | apply action =>
    simp only [Timeline.step, Timeline.execute]
    by_cases hlegal : rules.isLegal (current rules ⟨root, past, future⟩) action = true
    · rw [if_pos hlegal]
      refine ⟨hroot, ?_⟩
      have hpast := (rules.legalLine_append.1 hline).1
      exact (List.append_nil (past ++ [action])).symm ▸
        rules.legalLine_append.2 ⟨hpast, hlegal, trivial⟩
    · rw [if_neg hlegal]
      exact ⟨hroot, hline⟩
  -- undo and redo move the cursor along one legal line
  | undo =>
    rcases List.eq_nil_or_concat' past with rfl | ⟨before, action, rfl⟩
    · exact ⟨hroot, hline⟩
    · simp only [Timeline.step, Timeline.execute, List.getLast?_concat, List.dropLast_concat,
        Option.map_some, Option.getD_some]
      refine ⟨hroot, ?_⟩
      rwa [List.append_assoc, List.singleton_append] at hline
  | redo =>
    cases future with
    | nil => exact ⟨hroot, hline⟩
    | cons action rest =>
      refine ⟨hroot, ?_⟩
      rwa [← List.singleton_append, ← List.append_assoc] at hline
  | reset => exact legal_start rules
  | applyUnchecked action => cases hchecked
  | replaceState newState => cases hchecked

/-- **A checked session stays on a legal line.** -/
theorem Timeline.legal_run {rules : GameRules} {commands : List KernelCommand}
    (hchecked : ∀ command ∈ commands, command.checked = true) :
    (Run.last (Timeline.step rules) (Timeline.start rules) commands).Legal rules := by
  have hall : ∀ {t : Timeline}, t.Legal rules →
      (Run.last (Timeline.step rules) t commands).Legal rules := by
    induction commands with
    | nil => exact fun h => h
    | cons command rest ih =>
      intro t h
      rw [Run.last_cons]
      exact ih (fun c hc => hchecked c (List.mem_cons_of_mem _ hc))
        (h.step (hchecked command List.mem_cons_self))
  exact hall (legal_start rules)

end Sanmill
