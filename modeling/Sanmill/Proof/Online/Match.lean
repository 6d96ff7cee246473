import Sanmill.Lib.Run
import Sanmill.Online.GameRoom

/-!
# The match a room plays

What the two players see of a room is a match: the actions, the position, whose request
is open, and how the match ended. Every handler that stores the record makes one of a
few moves of the match, or grants a request of a match that had ended; the second is the
only way out of an ended match.
-/

namespace Sanmill.Online

/-- The part of the record that the players see. -/
structure Match where
  gameId : Text
  rulesetId : Text
  ruleOptions : Json.Members
  inviteUsed : Bool
  status : RoomStatus
  seq : Nat
  position : RulePosition
  actions : List Text
  pendingControl : Option PendingControl
  endReason : Option EndReason
  winnerSeat : Option Seat

def RoomState.toMatch (s : RoomState) : Match where
  gameId := s.gameId
  rulesetId := s.rulesetId
  ruleOptions := s.ruleOptions
  inviteUsed := s.inviteUsed
  status := s.status
  seq := s.seq
  position := s.position
  actions := s.actions
  pendingControl := s.pendingControl
  endReason := s.endReason
  winnerSeat := s.winnerSeat

variable {mill : OnlineRuleAdapter}

/-- The position the actions of a match lead to. -/
def Match.replay (mill : OnlineRuleAdapter) (m : Match) : Option RulePosition := do
  let adapter ← ruleAdapterFor mill m.gameId m.rulesetId
  let result ← adapter.create m.ruleOptions
  let position ← completeRuleResult result
  m.actions.foldlM (adapter.play m.ruleOptions) position

theorem replayActions_eq (mill : OnlineRuleAdapter) (s : RoomState) :
    replayActions mill s = s.toMatch.replay mill := rfl

/-- One more action is one more step of the replay. -/
theorem Match.replay_append (m : Match) (action : Text) :
    Match.replay mill { m with actions := m.actions ++ [action] }
      = (m.replay mill).bind fun position =>
          (ruleAdapterFor mill m.gameId m.rulesetId).bind fun adapter =>
            adapter.play m.ruleOptions position action := by
  unfold Match.replay
  rcases ruleAdapterFor mill m.gameId m.rulesetId with _ | adapter
  · rfl
  rcases hresult : adapter.create m.ruleOptions with _ | result
  · simp [hresult]
  rcases hposition : completeRuleResult result with _ | position
  · simp [hresult, hposition]
  simp only [hresult, hposition, Option.bind_eq_bind, Option.bind_some, List.foldlM_append,
    List.foldlM_cons, List.foldlM_nil]
  rcases List.foldlM (adapter.play m.ruleOptions) position m.actions with _ | last
  · rfl
  · simp

/-- A granted request: the game is played again from the start, with other actions. -/
def Granted (mill : OnlineRuleAdapter) (m m' : Match) : Prop :=
  m.pendingControl.isSome ∧ ∃ actions position,
    Match.replay mill { m with actions } = some position
      ∧ m' = { m with
          actions, position, status := .active, pendingControl := none, seq := m.seq + 1 }

/-- A move of the match. -/
inductive MatchStep (mill : OnlineRuleAdapter) (m : Match) : Match → Prop
  | keep : MatchStep mill m m
  | join (hwaiting : m.status = .waiting) :
      MatchStep mill m { m with inviteUsed := true, status := .active, seq := m.seq + 1 }
  | play {adapter : OnlineRuleAdapter} {position : RulePosition} (action : Text)
      (hactive : m.status = .active) (hquiet : m.pendingControl = none)
      (hadapter : ruleAdapterFor mill m.gameId m.rulesetId = some adapter)
      (hplay : adapter.play m.ruleOptions m.position action = some position)
      (hongoing : position.outcome.kind = .ongoing) :
      MatchStep mill m { m with position, actions := m.actions ++ [action], seq := m.seq + 1 }
  | finish {adapter : OnlineRuleAdapter} {position : RulePosition} (action : Text)
      (winnerSeat : Option Seat) (hactive : m.status = .active) (hquiet : m.pendingControl = none)
      (hadapter : ruleAdapterFor mill m.gameId m.rulesetId = some adapter)
      (hplay : adapter.play m.ruleOptions m.position action = some position) :
      MatchStep mill m { m with
        position, actions := m.actions ++ [action], seq := m.seq + 1
        status := .ended, endReason := some .outcome, winnerSeat }
  | request (pending : PendingControl) (hactive : m.status = .active)
      (hsteps : pending.kind = .takeBack → pending.steps.getD 0 ≤ m.actions.length) :
      MatchStep mill m { m with pendingControl := some pending, seq := m.seq + 1 }
  | grant {m' : Match} (hlive : m.status ≠ .ended) (h : Granted mill m m') : MatchStep mill m m'
  | drop : MatchStep mill m { m with pendingControl := none, seq := m.seq + 1 }
  | quit (reason : EndReason) (winnerSeat : Option Seat) (hactive : m.status = .active) :
      MatchStep mill m { m with
        status := .ended, endReason := some reason, winnerSeat, seq := m.seq + 1 }

/-! ## Invariants -/

variable {m m' : Match}

/-- The position is the one the actions lead to, and a take-back can be granted. -/
structure Match.Sound (mill : OnlineRuleAdapter) (m : Match) : Prop where
  replay : m.replay mill = some m.position
  steps : ∀ pending, m.pendingControl = some pending → pending.kind = .takeBack →
    pending.steps.getD 0 ≤ m.actions.length

theorem Granted.sound (h : Granted mill m m') : m'.Sound mill := by
  obtain ⟨-, actions, position, hreplay, rfl⟩ := h
  exact ⟨hreplay, fun pending hpending => by cases hpending⟩

/-- A played action extends the replay. -/
theorem Match.Sound.play {adapter : OnlineRuleAdapter} {position : RulePosition} {action : Text}
    (h : m.Sound mill) (hadapter : ruleAdapterFor mill m.gameId m.rulesetId = some adapter)
    (hplay : adapter.play m.ruleOptions m.position action = some position) :
    Match.replay mill { m with actions := m.actions ++ [action] } = some position := by
  rw [Match.replay_append, h.replay, Option.bind_some, hadapter, Option.bind_some, hplay]

theorem MatchStep.sound (hs : MatchStep mill m m') (h : m.Sound mill) : m'.Sound mill := by
  cases hs with
  | keep => exact h
  | join hwaiting => exact ⟨h.replay, h.steps⟩
  | play action hactive hquiet hadapter hplay hongoing =>
    refine ⟨h.play hadapter hplay, fun pending hpending => ?_⟩
    rw [show m.pendingControl = some pending from hpending] at hquiet
    cases hquiet
  | finish action winnerSeat hactive hquiet hadapter hplay =>
    refine ⟨h.play hadapter hplay, fun pending hpending => ?_⟩
    rw [show m.pendingControl = some pending from hpending] at hquiet
    cases hquiet
  | request pending hactive hsteps =>
    refine ⟨h.replay, fun pending' hpending hkind => ?_⟩
    obtain rfl := Option.some.inj hpending
    exact hsteps hkind
  | grant hlive hgrant => exact hgrant.sound
  | drop => exact ⟨h.replay, fun pending hpending => by cases hpending⟩
  | quit reason winnerSeat hactive => exact ⟨h.replay, h.steps⟩

theorem Granted.seq_eq (h : Granted mill m m') : m'.seq = m.seq + 1 := by
  obtain ⟨-, actions, position, -, rfl⟩ := h
  rfl

theorem MatchStep.seq_le (hs : MatchStep mill m m') : m.seq ≤ m'.seq := by
  cases hs with
  | keep => exact Nat.le_refl _
  | grant hlive hgrant => exact hgrant.seq_eq ▸ Nat.le_succ _
  | _ => exact Nat.le_succ _

/-- A reason is recorded exactly when the match has ended. -/
def Match.Explained (m : Match) : Prop := m.endReason.isSome ↔ m.status = .ended

theorem MatchStep.explained (hs : MatchStep mill m m') (h : m.Explained) : m'.Explained := by
  unfold Match.Explained at *
  cases hs with
  | keep => exact h
  | join hwaiting =>
    rw [hwaiting] at h
    exact h.trans (by simp)
  | play action hactive hquiet hadapter hplay hongoing => exact h
  | finish action winnerSeat hactive hquiet hadapter hplay => exact iff_of_true rfl rfl
  | request pending hactive hsteps => exact h
  | grant hlive hgrant =>
    obtain ⟨-, actions, position, -, rfl⟩ := hgrant
    have hnone : ¬m.endReason.isSome = true := fun hsome => hlive (h.1 hsome)
    exact iff_of_false hnone (by simp)
  | drop => exact h
  | quit reason winnerSeat hactive => exact iff_of_true rfl rfl

/-- An ended match stays as it is, its open request apart. -/
def Match.Final (m m' : Match) : Prop :=
  m.status = .ended → m'.status = .ended ∧ m'.actions = m.actions ∧ m'.position = m.position
    ∧ m'.endReason = m.endReason ∧ m'.winnerSeat = m.winnerSeat

theorem Match.Final.refl (m : Match) : m.Final m := fun h => ⟨h, rfl, rfl, rfl, rfl⟩

theorem Match.Final.trans {a b c : Match} (hab : a.Final b) (hbc : b.Final c) : a.Final c := by
  intro ha
  obtain ⟨hb, hactions, hposition, hreason, hwinner⟩ := hab ha
  obtain ⟨hc, hactions', hposition', hreason', hwinner'⟩ := hbc hb
  exact ⟨hc, hactions'.trans hactions, hposition'.trans hposition, hreason'.trans hreason,
    hwinner'.trans hwinner⟩

theorem MatchStep.final (hs : MatchStep mill m m') : m.Final m' := by
  intro hended
  -- every move but three starts in a match that has not ended
  have hlive : ∀ status, m.status = status → status ≠ .ended → False := fun status h hne =>
    hne (h ▸ hended)
  cases hs with
  | keep => exact Match.Final.refl m hended
  | join hwaiting => exact (hlive _ hwaiting (by decide)).elim
  | play action hactive hquiet hadapter hplay hongoing => exact (hlive _ hactive (by decide)).elim
  | finish action winnerSeat hactive hquiet hadapter hplay =>
    exact (hlive _ hactive (by decide)).elim
  | request pending hactive hsteps => exact (hlive _ hactive (by decide)).elim
  | grant hlive' hgrant => exact absurd hended hlive'
  | drop => exact ⟨hended, rfl, rfl, rfl, rfl⟩
  | quit reason winnerSeat hactive => exact (hlive _ hactive (by decide)).elim

/-- A room waits for its second player until the invitation is used, and nobody asks for
anything before. -/
structure Match.Seated (m : Match) : Prop where
  waiting : m.status = .waiting ↔ m.inviteUsed = false
  quiet : m.status = .waiting → m.pendingControl = none

/-- A match that two players play: the invitation is used. -/
theorem Match.Seated.of_used (hused : m.inviteUsed = true) (hstatus : m.status ≠ .waiting) :
    m.Seated where
  waiting := iff_of_false hstatus (by rw [hused]; decide)
  quiet h := absurd h hstatus

theorem Match.Seated.used (h : m.Seated) (hstatus : m.status ≠ .waiting) : m.inviteUsed = true := by
  rcases hused : m.inviteUsed with _ | _
  · exact absurd (h.waiting.2 hused) hstatus
  · rfl

theorem Granted.seated (hg : Granted mill m m') (h : m.Seated) : m'.Seated := by
  obtain ⟨hopen, actions, position, -, rfl⟩ := hg
  have hstatus : m.status ≠ .waiting := fun hwaiting => by
    rw [h.quiet hwaiting] at hopen
    cases hopen
  exact .of_used (h.used hstatus) (by simp)

theorem MatchStep.seated (hs : MatchStep mill m m') (h : m.Seated) : m'.Seated := by
  have hused : m.status = .active → m.inviteUsed = true := fun hactive =>
    h.used (by rw [hactive]; decide)
  cases hs with
  | keep => exact h
  | join hwaiting => exact .of_used rfl (by simp)
  | play action hactive hquiet hadapter hplay hongoing =>
    exact .of_used (hused hactive) (by simp [hactive])
  | finish action winnerSeat hactive hquiet hadapter hplay =>
    exact .of_used (hused hactive) (by simp)
  | request pending hactive hsteps => exact .of_used (hused hactive) (by simp [hactive])
  | grant hlive hgrant => exact hgrant.seated h
  | drop => exact ⟨h.waiting, fun _ => rfl⟩
  | quit reason winnerSeat hactive => exact .of_used (hused hactive) (by simp)

end Sanmill.Online
