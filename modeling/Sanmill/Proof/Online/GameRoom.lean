import Sanmill.Proof.Online.Match

/-!
# Rooms play matches

Each handler makes a move of the match its room plays. A command that is accepted
counts as one move: the sequence number goes up by one, so the same message finds
another number when it is delivered again.
-/

namespace Sanmill.Online

variable {mill : OnlineRuleAdapter} {tokenHash : Text → Text} {s s' : RoomState} {seat : Seat}
  {command : ClientCommand} {kind : ControlKind} {now : Nat} {room : Option RoomState}
  {attachment : Option Seat} {frame : Frame}

/-- Who may sit where: what no socket message changes. -/
structure Seats where
  creatorSeat : Seat
  creatorTokenHash : Text
  joinerTokenHash : Option Text
  inviteTokenHash : Text
  inviteUsed : Bool
  tickets : List TicketRecord

def RoomState.seats (s : RoomState) : Seats where
  creatorSeat := s.creatorSeat
  creatorTokenHash := s.creatorTokenHash
  joinerTokenHash := s.joinerTokenHash
  inviteTokenHash := s.inviteTokenHash
  inviteUsed := s.inviteUsed
  tickets := s.tickets

@[simp] theorem remember_seats (s : RoomState) (seat : Seat) (id : Text) (error : Option Text) :
    (remember s seat id error).seats = s.seats := by
  simp only [remember, RoomState.seats]

@[simp] theorem remember_toMatch (s : RoomState) (seat : Seat) (id : Text) (error : Option Text) :
    (remember s seat id error).toMatch = s.toMatch := by
  simp only [remember, RoomState.toMatch]

/-! ## Commands -/

/-- What a handled command leaves: the match as it was, or one move further when it is accepted. -/
structure Moves (mill : OnlineRuleAdapter) (s : RoomState) (revives : Prop) (h : Handled) :
    Prop where
  seats : ∃ s', h.room = some s' ∧ s'.seats = s.seats
  kept : h.verdict ≠ .accepted → ∃ s', h.room = some s' ∧ s'.toMatch = s.toMatch
  moved : h.verdict = .accepted → ∃ s', h.room = some s' ∧ s'.seq = s.seq + 1
    ∧ (MatchStep mill s.toMatch s'.toMatch ∨ revives ∧ Granted mill s.toMatch s'.toMatch)

variable {revives : Prop}

theorem Moves.ite {c : Prop} [Decidable c] {yes no : Handled} (hyes : c → Moves mill s revives yes)
    (hno : ¬c → Moves mill s revives no) : Moves mill s revives (if c then yes else no) := by
  split
  · exact hyes ‹c›
  · exact hno ‹¬c›

theorem rejectCommand_moves (error : String) :
    Moves mill s revives (rejectCommand s seat command error) where
  seats := ⟨_, rfl, remember_seats _ _ _ _⟩
  kept _ := ⟨_, rfl, rfl⟩
  moved h := by cases h

theorem failCommand_moves : Moves mill s revives (failCommand s command) where
  seats := ⟨_, rfl, rfl⟩
  kept _ := ⟨_, rfl, rfl⟩
  moved h := by cases h

/-- An accepted command leaves a record whose match is one move further. -/
theorem moves_of_step (sent : List Outgoing) (hseats : s'.seats = s.seats)
    (hseq : s'.seq = s.seq + 1) (hstep : MatchStep mill s.toMatch s'.toMatch) :
    Moves mill s revives ⟨some s', sent, .accepted⟩ where
  seats := ⟨s', rfl, hseats⟩
  kept h := absurd rfl h
  moved _ := ⟨s', rfl, hseq, .inl hstep⟩

theorem applyAction_moves : Moves mill s revives (applyAction mill s seat command) := by
  unfold applyAction
  dsimp only
  -- a refused or failed command leaves the match as it is
  split
  · exact rejectCommand_moves _
  rename_i hguard
  simp only [not_or, not_not, ne_eq] at hguard
  obtain ⟨hactive, -, -, -, hquiet⟩ := hguard
  split
  · exact failCommand_moves
  rename_i adapter hadapter
  split
  · exact failCommand_moves
  rename_i result hresult
  split
  · exact rejectCommand_moves _
  rename_i position hposition
  have hplay : adapter.play s.ruleOptions s.position
      (((command.payload.get "action").bind Json.asString).getD []) = some position := by
    unfold OnlineRuleAdapter.play
    rw [hresult, Option.bind_some, hposition]
  have hnone : s.pendingControl = none := by simpa using hquiet
  refine moves_of_step _ ?_ ?_ ?_
  · split
    · simp only [remember, RoomState.seats]
    · simp only [remember, RoomState.seats]
  · split
    · rfl
    · rfl
  -- the action either goes on with the game or ends it
  · by_cases hongoing : position.outcome.kind = .ongoing
    · rw [if_neg (not_not.2 hongoing)]
      exact MatchStep.play (m := s.toMatch) _ hactive hnone hadapter hplay hongoing
    · rw [if_pos hongoing]
      exact MatchStep.finish (m := s.toMatch) _ _ hactive hnone hadapter hplay

theorem requestControl_moves : Moves mill s revives (requestControl now s seat command kind) := by
  unfold requestControl
  dsimp only
  refine Moves.ite (fun _ => rejectCommand_moves _) fun hguard => ?_
  simp only [not_or, not_and, not_not, ne_eq, Nat.not_lt] at hguard
  obtain ⟨hactive, -, hsteps, -⟩ := hguard
  refine moves_of_step _ (remember_seats _ _ _ _) rfl
    (MatchStep.request (m := s.toMatch) _ hactive fun hkind => ?_)
  exact (hsteps hkind).2

theorem endGame_moves (reason : EndReason) (winnerSeat : Option Seat) (sent : List Outgoing) :
    Moves mill s revives (endGame s seat command reason winnerSeat sent) := by
  unfold endGame
  split
  · exact rejectCommand_moves _
  · rename_i hactive
    exact moves_of_step _ (remember_seats s seat command.commandId none) rfl
      (MatchStep.quit (m := s.toMatch) reason winnerSeat (not_not.1 hactive))

/-- A granted request changes the game and leaves the rest of the record. -/
theorem grantControl_eq_some {pending : PendingControl}
    (h : grantControl mill s pending = some s') :
    s'.status = .active ∧ s'.seats = s.seats ∧ s'.seq = s.seq ∧ ∃ actions position,
      Match.replay mill { s.toMatch with actions } = some position
        ∧ s'.toMatch = { s.toMatch with actions, position, status := .active } := by
  unfold grantControl at h
  split at h
  · obtain ⟨position, hreplay, heq⟩ := Option.bind_eq_some_iff.1 h
    obtain rfl := Option.some.inj heq
    exact ⟨rfl, rfl, rfl, _, position, hreplay, rfl⟩
  · obtain ⟨position, hreplay, heq⟩ := Option.bind_eq_some_iff.1 h
    obtain rfl := Option.some.inj heq
    exact ⟨rfl, rfl, rfl, _, position, hreplay, rfl⟩
  · obtain ⟨transformation, -, h⟩ := Option.bind_eq_some_iff.1 h
    obtain ⟨position, hreplay, heq⟩ := Option.bind_eq_some_iff.1 h
    obtain rfl := Option.some.inj heq
    exact ⟨rfl, rfl, rfl, _, position, hreplay, rfl⟩

/-- The command accepts the open request of a match that has ended. -/
def Revives (s : RoomState) (seat : Seat) (command : ClientCommand) (kind : ControlKind) : Prop :=
  s.status = .ended ∧ (answeredControl s seat command kind).isSome
    ∧ (command.payload.get "accepted").bind Json.asBool = some true

theorem respondControl_moves (himp : Revives s seat command kind → revives) :
    Moves mill s revives (respondControl mill s seat command kind) := by
  unfold respondControl
  dsimp only
  split
  · rename_i pending accepted hpending haccepted
    -- the answered request is the open one
    have hopen : s.pendingControl.isSome := by
      rw [Option.isSome_iff_exists]
      exact ⟨pending, (Option.filter_eq_some_iff.1 hpending).1⟩
    cases accepted with
    | false => exact moves_of_step _ (remember_seats _ _ _ _) rfl (MatchStep.drop (m := s.toMatch))
    | true =>
      -- a grant that the replay refuses fails; any other one replaces the line of play
      rw [if_pos rfl]
      split
      · exact failCommand_moves
      · rename_i g hgrant
        obtain ⟨hactive, hseats, hseq, actions, position, hreplay, hmatch⟩ :=
          grantControl_eq_some hgrant
        have hgranted : Granted mill s.toMatch
            { s.toMatch with actions, position, status := .active, pendingControl := none
                             seq := s.toMatch.seq + 1 } :=
          ⟨hopen, actions, position, hreplay, rfl⟩
        have hview : ({ g with pendingControl := none, seq := g.seq + 1 } : RoomState).toMatch
            = { g.toMatch with pendingControl := none, seq := g.seq + 1 } := rfl
        rw [hmatch] at hview
        refine ⟨⟨_, rfl, (remember_seats _ _ _ _).trans hseats⟩, fun h => absurd rfl h,
          fun _ => ⟨_, rfl, by simp [remember, hseq], ?_⟩⟩
        rw [remember_toMatch, hview, hseq]
        -- the branch of the source does not ask for the status, so a grant after the end revives
        -- the match
        by_cases hended : s.status = .ended
        · refine .inr ⟨himp ⟨hended, ?_, haccepted⟩, hgranted⟩
          rw [hpending]
          rfl
        · exact .inl (MatchStep.grant hended hgranted)
  · exact rejectCommand_moves _

/-- The kind of request a response answers. -/
def CommandType.answers : CommandType → Option ControlKind
  | .takeBackResponse => some .takeBack
  | .restartResponse => some .restart
  | .boardTransformResponse => some .boardTransform
  | _ => none

theorem handleCommand_moves (himp : ∀ kind, command.type.answers = some kind →
    Revives s seat command kind → revives) :
    Moves mill s revives (handleCommand mill now s seat command) := by
  unfold handleCommand
  split
  · exact applyAction_moves
  · exact requestControl_moves
  · exact requestControl_moves
  · exact requestControl_moves
  · rename_i htype
    exact respondControl_moves (himp _ (by rw [htype]; rfl))
  · rename_i htype
    exact respondControl_moves (himp _ (by rw [htype]; rfl))
  · rename_i htype
    exact respondControl_moves (himp _ (by rw [htype]; rfl))
  · exact endGame_moves _ _ _
  · exact endGame_moves _ _ _

/-! ## Messages -/

/-- What an admitted command says: the record is there, and the command knows its number. -/
theorem admitCommand_eq_ok (h : admitCommand now room attachment frame = .ok (s, seat, command)) :
    room = some s ∧ attachment = some seat ∧ command.expectedSeq = s.seq
      ∧ ∃ length decoded, frame = .text length (some decoded)
        ∧ parseCommand decoded = some command := by
  unfold admitCommand at h
  split at h
  · rename_i seat' length decoded
    split at h
    · cases h
    split at h
    · cases h
    rename_i state
    split at h
    · cases h
    split at h
    · cases h
    rename_i command' hcommand
    split at h
    · cases h
    split at h
    · cases h
    split at h
    · cases h
    rename_i hseq
    obtain ⟨rfl, rfl, rfl⟩ : state = s ∧ seat' = seat ∧ command' = command := by
      simpa using Except.ok.inj h
    obtain ⟨value, rfl, hparse⟩ := Option.bind_eq_some_iff.1 hcommand
    exact ⟨rfl, rfl, not_not.1 hseq, length, value, rfl, hparse⟩
  · cases h

/-- A message that is not admitted leaves the match and the seats as they are. -/
theorem admitCommand_eq_error {handled : Handled}
    (h : admitCommand now room attachment frame = .error handled) :
    handled.verdict ≠ .accepted ∧ handled.room.map RoomState.toMatch = room.map RoomState.toMatch
      ∧ handled.room.map RoomState.seats = room.map RoomState.seats := by
  unfold admitCommand at h
  -- every refusal of the door carries the room it was given
  split at h
  · split at h
    · cases h
      exact ⟨nofun, rfl, rfl⟩
    split at h
    · cases h
      exact ⟨nofun, rfl, rfl⟩
    split at h
    · cases h
      exact ⟨nofun, rfl, rfl⟩
    split at h
    · cases h
      exact ⟨nofun, rfl, rfl⟩
    split at h
    · cases h
      exact ⟨nofun, rfl, rfl⟩
    split at h
    · cases h
      exact ⟨nofun, rfl, rfl⟩
    split at h
    · cases h
      exact ⟨nofun, rfl, rfl⟩
    · cases h
  · cases h
    exact ⟨nofun, rfl, rfl⟩

/-- The message accepts the open request of a match that has ended. -/
def AnswersEnded (room : Option RoomState) : RoomEvent → Prop
  | .message now attachment frame => ∃ s seat command kind,
      admitCommand now room attachment frame = .ok (s, seat, command)
        ∧ command.type.answers = some kind ∧ Revives s seat command kind
  | _ => False

/-- The room accepts a message. -/
def Accepts (mill : OnlineRuleAdapter) (room : Option RoomState) (now : Nat)
    (attachment : Option Seat) (frame : Frame) : Prop :=
  (webSocketMessage mill now room attachment frame).verdict = .accepted

/-- An accepted message raises the number it expects by one. -/
theorem Accepts.seq (h : Accepts mill room now attachment frame) :
    ∃ s s' length decoded command, room = some s
      ∧ (webSocketMessage mill now room attachment frame).room = some s'
      ∧ s'.seq = s.seq + 1 ∧ frame = .text length (some decoded)
      ∧ parseCommand decoded = some command ∧ command.expectedSeq = s.seq := by
  unfold Accepts webSocketMessage at *
  split at h
  · rename_i handled herror
    exact absurd h (admitCommand_eq_error herror).1
  · rename_i s seat command hok
    obtain ⟨rfl, -, hexpected, length, decoded, rfl, hparse⟩ := admitCommand_eq_ok hok
    have hmoves : Moves mill s True (handleCommand mill now s seat command) :=
      handleCommand_moves fun _ _ _ => trivial
    obtain ⟨s', hroom, hseq, -⟩ := hmoves.moved h
    exact ⟨s, s', length, decoded, command, rfl, hroom, hseq, rfl, hparse, hexpected⟩

/-- A socket message leaves the seats as they are. -/
theorem webSocketMessage_seats {s' : RoomState}
    (h : (webSocketMessage mill now room attachment frame).room = some s') :
    ∃ s, room = some s ∧ s'.seats = s.seats := by
  unfold webSocketMessage at h
  split at h
  · rename_i handled herror
    obtain ⟨-, -, hseats⟩ := admitCommand_eq_error herror
    rw [h] at hseats
    obtain ⟨s, hs, heq⟩ := Option.map_eq_some_iff.1 hseats.symm
    exact ⟨s, hs, heq.symm⟩
  · rename_i s seat command hok
    obtain ⟨rfl, -⟩ := admitCommand_eq_ok hok
    have hmoves : Moves mill s True (handleCommand mill now s seat command) :=
      handleCommand_moves fun _ _ _ => trivial
    obtain ⟨t, ht, hseats⟩ := hmoves.seats
    obtain rfl := Option.some.inj (ht.symm.trans h)
    exact ⟨s, rfl, hseats⟩

/-! ## Handlers -/

/-- The record `to` is stored over `from`: a move of the match, or a revival of it. -/
def Advances (mill : OnlineRuleAdapter) (revives : Prop) (room room' : Option RoomState) : Prop :=
  ∀ s', room' = some s' → ∃ s, room = some s
    ∧ (MatchStep mill s.toMatch s'.toMatch ∨ revives ∧ Granted mill s.toMatch s'.toMatch)

theorem Advances.of_toMatch {room' : Option RoomState}
    (h : room'.map RoomState.toMatch = room.map RoomState.toMatch) :
    Advances mill revives room room' := by
  rintro s' rfl
  obtain ⟨s, rfl, hmatch⟩ := Option.map_eq_some_iff.1 h.symm
  exact ⟨s, rfl, .inl (hmatch ▸ .keep)⟩

theorem webSocketMessage_advances :
    Advances mill (AnswersEnded room (.message now attachment frame)) room
      (webSocketMessage mill now room attachment frame).room := by
  unfold webSocketMessage
  split
  · rename_i handled herror
    exact .of_toMatch (admitCommand_eq_error herror).2.1
  · rename_i s seat command hok
    obtain ⟨rfl, -⟩ := admitCommand_eq_ok hok
    have hmoves : Moves mill s (AnswersEnded (some s) (.message now attachment frame))
        (handleCommand mill now s seat command) :=
      handleCommand_moves fun kind htype hrevives => ⟨s, seat, command, kind, hok, htype, hrevives⟩
    intro s' hs'
    by_cases haccepted : (handleCommand mill now s seat command).verdict = .accepted
    · obtain ⟨t, ht, -, hstep⟩ := hmoves.moved haccepted
      obtain rfl := Option.some.inj (ht.symm.trans hs')
      exact ⟨s, rfl, hstep⟩
    · obtain ⟨t, ht, hmatch⟩ := hmoves.kept haccepted
      obtain rfl := Option.some.inj (ht.symm.trans hs')
      exact ⟨s, rfl, .inl (hmatch ▸ .keep)⟩

theorem alarm_advances : Advances mill revives room (alarm room) := by
  unfold alarm
  split
  · exact fun s' h => by cases h
  · rename_i s
    split
    · split
      · rintro s' ⟨⟩
        exact ⟨s, rfl, .inl (MatchStep.drop (m := s.toMatch))⟩
      · exact fun s' h => by cases h
    · exact fun s' h => by cases h

/-! ## Requests -/

/-- A `join` that has passed its checks knows that the room is waiting. -/
def Flight.Checked : Flight → Prop
  | .joinSeat loaded _ _ =>
    loaded.status = .waiting ∧ loaded.inviteUsed = false ∧ loaded.joinerTokenHash = none
  | _ => True

/-- What a waiting handler does when it goes on. -/
inductive Resumed (tokenHash : Text → Text) (room : Option RoomState) (now : Nat) :
    Flight → Option RoomState × Progress → Prop
  | waits {f : Flight} (f' : Flight) (hloaded : f'.loaded = f.loaded) (hchecked : f'.Checked) :
      Resumed tokenHash room now f (room, .waits f')
  | refuses (f : Flight) (error : HttpError) :
      Resumed tokenHash room now f (room, .responds (.protocolError error))
  | joins (loaded : RoomState) (eloRating : Option EloRating) (seatToken : Text) :
      Resumed tokenHash room now (.joinSeat loaded eloRating seatToken)
        (some (joinRoom loaded (tokenHash seatToken) eloRating),
          .responds (.joined (opposite loaded.creatorSeat) seatToken))
  | issues (loaded : RoomState) (seat : Seat) (drawn : Nat) (ticket : Text) :
      Resumed tokenHash room now (.ticketHash loaded seat drawn ticket)
        (some (addTicket loaded seat drawn (tokenHash ticket)),
          .responds (.ticket ticket (drawn + TICKET_LIFETIME_MS)))
  | opens (loaded : RoomState) (ticket : Text) {record : TicketRecord}
      {tickets : List TicketRecord}
      (huse : useTicket (tokenHash ticket) now loaded.tickets = some (record, tickets)) :
      Resumed tokenHash room now (.socketHash loaded ticket)
        (some { loaded with tickets }, .responds (.socket record.seat))
  | cancels (loaded : RoomState) (token : Text) (hwaiting : loaded.status = .waiting)
      (hseat : authorizedSeat loaded (tokenHash token) = some loaded.creatorSeat) :
      Resumed tokenHash room now (.cancelAuth loaded token) (none, .responds .canceled)

theorem checkInvite_ok {loaded : RoomState} {hash : Text} (h : checkInvite loaded hash = .ok ()) :
    loaded.status = .waiting ∧ loaded.inviteUsed = false ∧ loaded.joinerTokenHash = none := by
  unfold checkInvite at h
  split at h
  · cases h
  split at h
  · cases h
  split at h
  · cases h
  split at h
  · cases h
  · rename_i hunused hopen
    simp only [not_or, not_not, ne_eq] at hopen
    exact ⟨hopen.1, by simpa using hunused, by simpa using hopen.2⟩

theorem resumeFlight_resumed (tokenHash : Text → Text) (room : Option RoomState) (f : Flight)
    (supply : Supply) :
    Resumed tokenHash room supply.now f (resumeFlight tokenHash room f supply) := by
  unfold resumeFlight
  split
  · split
    · exact .refuses _ _
    · exact .waits _ rfl trivial
  · split
    · exact .refuses _ _
    · rename_i hchecks
      exact .waits _ rfl (checkInvite_ok hchecks)
  · exact .joins _ _ _
  · split
    · exact .refuses _ _
    · exact .waits _ rfl trivial
  · exact .issues _ _ _ _
  · split
    · exact .refuses _ _
    · rename_i huse
      exact .opens _ _ huse
  · split
    · exact .refuses _ _
    · rename_i seat hseat
      split
      · exact .refuses _ _
      · rename_i hwaiting
        simp only [not_or, not_not, ne_eq] at hwaiting
        exact .cancels _ _ hwaiting.2 (hwaiting.1 ▸ hseat)

/-- A request begins with the record as it is, or finds the room expired. -/
theorem beginRequest_cases (now : Nat) (room : Option RoomState) (request : Request) :
    (∃ s f, room = some s ∧ beginRequest now room request = (room, .waits f)
        ∧ f.loaded = s ∧ f.Checked)
      ∨ (∃ error, beginRequest now room request = (room, .responds (.protocolError error)))
      ∨ ∃ error, beginRequest now room request = (none, .responds (.protocolError error)) := by
  unfold beginRequest
  -- without a room every request is answered at once
  rcases room with _ | s
  · rcases request with _ | authorization | ⟨upgrade, ticket⟩ | authorization
    · exact .inr (.inl ⟨_, rfl⟩)
    · exact .inr (.inl ⟨_, rfl⟩)
    · cases upgrade with
      | false => exact .inr (.inl ⟨_, rfl⟩)
      | true => exact .inr (.inl ⟨_, rfl⟩)
    · exact .inr (.inl ⟨_, rfl⟩)
  · dsimp only
    -- an expired room is dropped, whatever was asked; any other one is loaded
    split
    · cases request with
      | join => exact .inr (.inr ⟨_, rfl⟩)
      | _ => exact .inr (.inr ⟨_, rfl⟩)
    · rcases request with _ | authorization | ⟨upgrade, ticket⟩ | authorization
      · exact .inl ⟨s, _, rfl, rfl, rfl, trivial⟩
      · dsimp only
        split
        · exact .inr (.inl ⟨_, rfl⟩)
        · exact .inl ⟨s, _, rfl, rfl, rfl, trivial⟩
      · dsimp only
        split_ifs
        · exact .inr (.inl ⟨_, rfl⟩)
        · exact .inr (.inl ⟨_, rfl⟩)
        · exact .inl ⟨s, _, rfl, rfl, rfl, trivial⟩
      · dsimp only
        split
        · exact .inr (.inl ⟨_, rfl⟩)
        · exact .inl ⟨s, _, rfl, rfl, rfl, trivial⟩

theorem serve_responds (tokenHash : Text → Text) (supplies : List Supply)
    (room : Option RoomState) (response : Response) :
    serve tokenHash supplies (room, .responds response) = room := by
  unfold serve
  cases supplies with
  | nil => rfl
  | cons supply rest => rfl

/-- An uninterrupted handler makes a move of the match of the record it has loaded. -/
theorem serve_advances {f : Flight} (hchecked : f.Checked) (supplies : List Supply) :
    Advances mill revives (some f.loaded) (serve tokenHash supplies (some f.loaded, .waits f)) := by
  induction supplies generalizing f with
  | nil => exact .of_toMatch rfl
  | cons supply rest ih =>
    unfold serve
    have hresumed := resumeFlight_resumed tokenHash (some f.loaded) f supply
    generalize resumeFlight tokenHash (some f.loaded) f supply = result at hresumed ⊢
    cases hresumed with
    | waits f' hloaded hchecked' =>
      rw [← hloaded]
      exact ih hchecked'
    | refuses error =>
      rw [serve_responds]
      exact .of_toMatch rfl
    | joins loaded eloRating seatToken =>
      rw [serve_responds]
      rintro s' ⟨⟩
      exact ⟨loaded, rfl, .inl (MatchStep.join (m := loaded.toMatch) hchecked.1)⟩
    | issues loaded seat drawn ticket =>
      rw [serve_responds]
      exact .of_toMatch rfl
    | opens loaded ticket huse =>
      rw [serve_responds]
      exact .of_toMatch rfl
    | cancels loaded token hwaiting hseat =>
      rw [serve_responds]
      exact fun s' h => by cases h

/-- **Every handler advances the match.** Only an answer to a request of an ended match revives. -/
theorem roomStep_advances (room : Option RoomState) (e : RoomEvent) :
    Advances mill (AnswersEnded room e) room (roomStep mill tokenHash room e) := by
  cases e with
  | message now attachment frame => exact webSocketMessage_advances
  | alarm => exact alarm_advances
  | request now request supplies =>
    unfold roomStep
    rcases beginRequest_cases now room request with ⟨s, f, rfl, heq, rfl, hchecked⟩ | ⟨error, heq⟩
      | ⟨error, heq⟩
    · dsimp only
      rw [heq]
      exact serve_advances hchecked supplies
    · dsimp only
      rw [heq, serve_responds]
      exact .of_toMatch rfl
    · dsimp only
      rw [heq, serve_responds]
      exact fun s' h => by cases h
  | close => exact .of_toMatch rfl

end Sanmill.Online
