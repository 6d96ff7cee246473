import Sanmill.Proof.Online.GameRoom

/-!
# Runs of a room

From its creation on, a room holds the position its actions lead to, and applies a
message at most once. It stays ended once it has ended, as long as nobody accepts a
request that was still open when it ended: the response handlers do not look at the
status, as the request handlers do, and make the room active again.
-/

namespace Sanmill.Online

open Run (last Every)

variable {mill : OnlineRuleAdapter} {tokenHash : Text → Text} {room : Option RoomState}

/-- A new room has no history. -/
theorem create_ok {supply : CreateSupply} {body : Json.Members} {s : RoomState}
    (h : create mill tokenHash supply body = .ok s) :
    (∃ adapter result, ruleAdapterFor mill s.gameId s.rulesetId = some adapter
        ∧ adapter.create s.ruleOptions = some result
        ∧ completeRuleResult result = some s.position)
      ∧ s.actions = [] ∧ s.pendingControl = none ∧ s.status = .waiting ∧ s.endReason = none
      ∧ s.inviteUsed = false ∧ s.joinerTokenHash = none ∧ s.tickets = [] := by
  unfold create at h
  rcases hversion : checkVersion body "invalid_request" with error | _
  · rw [hversion] at h
    cases h
  rw [hversion] at h
  simp only [bind, Except.bind] at h
  split at h
  · split at h
    · rename_i adapter hadapter
      split at h
      · rename_i result hresult
        split at h
        · rename_i position hposition
          split at h
          · cases h
          · obtain rfl := Except.ok.inj h
            exact ⟨⟨adapter, result, hadapter, hresult, hposition⟩, rfl, rfl, rfl, rfl,
              rfl, rfl, rfl⟩
        · cases h
      · cases h
    · cases h
  · cases h

theorem create_sound {supply : CreateSupply} {body : Json.Members} {s : RoomState}
    (h : create mill tokenHash supply body = .ok s) :
    s.toMatch.Sound mill ∧ s.toMatch.Explained := by
  obtain ⟨⟨adapter, result, hadapter, hresult, hposition⟩, hactions, hpending, hstatus,
      hreason, -⟩ :=
    create_ok h
  refine ⟨⟨?_, fun pending hsome => ?_⟩, ?_⟩
  · rw [← replayActions_eq]
    unfold replayActions
    rw [hadapter, hactions]
    simp only [Option.bind_eq_bind, Option.bind_some, hresult, hposition, List.foldlM_nil]
    rfl
  · rw [show s.toMatch.pendingControl = s.pendingControl from rfl, hpending] at hsome
    cases hsome
  · unfold Match.Explained
    rw [show s.toMatch.endReason = s.endReason from rfl, hreason,
      show s.toMatch.status = s.status from rfl, hstatus]
    decide

/-! ## One step -/

theorem roomStep_sound (room : Option RoomState) (e : RoomEvent)
    (h : ∀ s, room = some s → s.toMatch.Sound mill) :
    ∀ s, roomStep mill tokenHash room e = some s → s.toMatch.Sound mill := by
  intro s' hs'
  obtain ⟨s, hs, hstep | ⟨-, hgranted⟩⟩ := roomStep_advances room e s' hs'
  · exact hstep.sound (h s hs)
  · exact hgranted.sound

theorem run_sound (room : Option RoomState) (events : List RoomEvent)
    (h : ∀ s, room = some s → s.toMatch.Sound mill) :
    ∀ s, last (roomStep mill tokenHash) room events = some s → s.toMatch.Sound mill :=
  Run.invariant (I := fun room => ∀ s, room = some s → s.toMatch.Sound mill)
    (C := fun _ _ => True) (fun room e hroom _ => roomStep_sound room e hroom) h
    (Run.every_of_forall (fun _ _ => trivial) room events)

/-- The number never goes back. -/
def SeqLe (room room' : Option RoomState) : Prop :=
  ∀ s', room' = some s' → ∃ s, room = some s ∧ s.seq ≤ s'.seq

theorem roomStep_seqLe (room : Option RoomState) (e : RoomEvent) :
    SeqLe room (roomStep mill tokenHash room e) := by
  intro s' hs'
  obtain ⟨s, hs, hstep | ⟨-, hgranted⟩⟩ := @roomStep_advances mill tokenHash room e s' hs'
  · exact ⟨s, hs, hstep.seq_le⟩
  · exact ⟨s, hs, (Nat.le_succ _).trans hgranted.seq_eq.ge⟩

theorem SeqLe.trans {a b c : Option RoomState} (hab : SeqLe a b) (hbc : SeqLe b c) : SeqLe a c := by
  intro t ht
  obtain ⟨s, hs, hst⟩ := hbc t ht
  obtain ⟨r, hr, hrs⟩ := hab s hs
  exact ⟨r, hr, hrs.trans hst⟩

theorem run_seqLe (room : Option RoomState) (events : List RoomEvent) :
    SeqLe room (last (roomStep mill tokenHash) room events) :=
  Run.related (R := SeqLe) (C := fun _ _ => True) (fun _ s hs => ⟨s, hs, Nat.le_refl _⟩)
    (fun _ _ _ => SeqLe.trans) (fun room e _ => roomStep_seqLe room e)
    (Run.every_of_forall (fun _ _ => trivial) room events)

theorem roomStep_explained (room : Option RoomState) (e : RoomEvent)
    (h : ∀ s, room = some s → s.toMatch.Explained) (hnot : ¬AnswersEnded room e) :
    ∀ s, roomStep mill tokenHash room e = some s → s.toMatch.Explained := by
  intro s' hs'
  obtain ⟨s, hs, hstep | ⟨hanswers, -⟩⟩ := @roomStep_advances mill tokenHash room e s' hs'
  · exact hstep.explained (h s hs)
  · exact absurd hanswers hnot

/-- A match that has ended stays as it is. -/
def FinalRoom (room room' : Option RoomState) : Prop :=
  ∀ s', room' = some s' → ∃ s, room = some s ∧ s.toMatch.Final s'.toMatch

theorem roomStep_final (room : Option RoomState) (e : RoomEvent) (hnot : ¬AnswersEnded room e) :
    FinalRoom room (roomStep mill tokenHash room e) := by
  intro s' hs'
  obtain ⟨s, hs, hstep | ⟨hanswers, -⟩⟩ := @roomStep_advances mill tokenHash room e s' hs'
  · exact ⟨s, hs, hstep.final⟩
  · exact absurd hanswers hnot

theorem run_final {events : List RoomEvent}
    (h : Every (roomStep mill tokenHash) (fun room e => ¬AnswersEnded room e) room events) :
    FinalRoom room (last (roomStep mill tokenHash) room events) :=
  Run.related (R := FinalRoom) (fun room s hs => ⟨s, hs, Match.Final.refl _⟩)
    (fun a b c hab hbc t ht => by
      obtain ⟨s, hs, hst⟩ := hbc t ht
      obtain ⟨r, hr, hrs⟩ := hab s hs
      exact ⟨r, hr, hrs.trans hst⟩)
    (fun room e => roomStep_final room e) h

/-- Where the source can replay the actions, an answer to a request of an ended match makes
the room active. -/
theorem AnswersEnded.revives {e : RoomEvent} (h : AnswersEnded room e) :
    roomStep mill tokenHash room e = room
      ∨ ∃ s, roomStep mill tokenHash room e = some s ∧ s.status = .active := by
  cases e with
  | message now attachment frame =>
    obtain ⟨s, seat, command, kind, hok, htype, hended, hopen, haccepted⟩ := h
    obtain ⟨pending, hpending⟩ := Option.isSome_iff_exists.1 hopen
    -- the three answers all reach `respondControl`
    have hhandle : (webSocketMessage mill now room attachment frame)
        = respondControl mill s seat command kind := by
      unfold webSocketMessage
      rw [hok]
      dsimp only
      unfold handleCommand
      unfold CommandType.answers at htype
      split at htype
      · obtain rfl := Option.some.inj htype
        simp only [*]
      · obtain rfl := Option.some.inj htype
        simp only [*]
      · obtain rfl := Option.some.inj htype
        simp only [*]
      · cases htype
    show (webSocketMessage mill now room attachment frame).room = room ∨ _
    rw [show roomStep mill tokenHash room (.message now attachment frame)
      = (webSocketMessage mill now room attachment frame).room from rfl, hhandle]
    unfold respondControl
    dsimp only
    rw [hpending, haccepted]
    dsimp only
    rw [if_pos rfl]
    split
    · obtain ⟨rfl, -⟩ := admitCommand_eq_ok hok
      exact .inl rfl
    · rename_i g hgrant
      exact .inr ⟨_, rfl, (grantControl_eq_some hgrant).1⟩
  | alarm => exact h.elim
  | request now request supplies => exact h.elim
  | close => exact h.elim

/-! ## A whole run -/

/--
**A room, one handler at a time.** The position is the replay of the actions and a
take-back that is asked for can be granted; an accepted message raises the number by one
and is never accepted again. In a run in which no open request of an ended game is
accepted, a reason is recorded exactly when the game has ended, and an ended game stays
as it is. Accepting such a request makes the room active, unless the replay fails.
-/
theorem room_run (mill : OnlineRuleAdapter) (tokenHash : Text → Text) {supply : CreateSupply}
    {body : Json.Members} {s₀ : RoomState} (h : create mill tokenHash supply body = .ok s₀)
    (events : List RoomEvent) :
    (∀ s, last (roomStep mill tokenHash) (some s₀) events = some s →
        replayActions mill s = some s.position
          ∧ ∀ pending, s.pendingControl = some pending → pending.kind = .takeBack →
            pending.steps.getD 0 ≤ s.actions.length)
      ∧ (∀ before rest now attachment frame, events
        = before ++ .message now attachment frame :: rest →
          Accepts mill (last (roomStep mill tokenHash) (some s₀) before) now attachment frame →
          (∃ s s', last (roomStep mill tokenHash) (some s₀) before = some s
            ∧ last (roomStep mill tokenHash) (some s₀) (before ++ [.message now attachment frame])
                = some s'
            ∧ s'.seq = s.seq + 1)
          ∧ ∀ between now' attachment' after, rest
            = between ++ .message now' attachment' frame :: after →
            ¬Accepts mill (last (roomStep mill tokenHash) (some s₀)
              (before ++ .message now attachment frame :: between)) now' attachment' frame)
      ∧ (Every (roomStep mill tokenHash) (fun room e => ¬AnswersEnded room e) (some s₀) events →
          (∀ s, last (roomStep mill tokenHash) (some s₀) events = some s →
            (s.endReason.isSome ↔ s.status = .ended))
          ∧ ∀ before rest s s', events = before ++ rest →
            last (roomStep mill tokenHash) (some s₀) before = some s →
            last (roomStep mill tokenHash) (some s₀) events = some s' → s.status = .ended →
            s'.status = .ended ∧ s'.actions = s.actions ∧ s'.position = s.position
              ∧ s'.endReason = s.endReason ∧ s'.winnerSeat = s.winnerSeat)
      ∧ ∀ room e, AnswersEnded room e → roomStep mill tokenHash room e = room
          ∨ ∃ s, roomStep mill tokenHash room e = some s ∧ s.status = .active := by
  obtain ⟨hsound, hexplained⟩ := create_sound h
  refine ⟨fun s hs => ?_, fun before rest now attachment frame heq haccepts => ?_, fun hevery => ?_,
    fun room e he => he.revives⟩
  · have hrun := run_sound (some s₀) events (fun s heq => Option.some.inj heq ▸ hsound) s hs
    exact ⟨hrun.replay, hrun.steps⟩
  · obtain ⟨s, s', length, decoded, command, hs, hs', hseq, rfl, hparse, hexpected⟩ := haccepts.seq
    have hnext : last (roomStep mill tokenHash) (some s₀)
        (before ++ [.message now attachment (.text length (some decoded))]) = some s' := by
      rw [Run.last_append]
      exact hs'
    refine ⟨⟨s, s', hs, hnext, hseq⟩, fun between now' attachment' after _ hagain => ?_⟩
    obtain ⟨t, -, length', decoded', command', ht, -, -, hframe, hparse', hexpected'⟩ := hagain.seq
    obtain ⟨rfl, hdecoded⟩ := Frame.text.inj hframe
    obtain rfl := Option.some.inj hdecoded
    obtain rfl := Option.some.inj (hparse.symm.trans hparse')
    -- the second delivery would find a number above the one the message expects
    rw [show before ++ .message now attachment (.text length (some decoded)) :: between
        = (before ++ [.message now attachment (.text length (some decoded))]) ++ between by simp,
      Run.last_append, hnext] at ht
    obtain ⟨_, heq', hle⟩ := @run_seqLe mill tokenHash (some s') between t ht
    obtain rfl := Option.some.inj heq'
    omega
  · refine ⟨fun s hs => ?_, fun before rest s s' heq hs hs' hended => ?_⟩
    · exact Run.invariant (I := fun room => ∀ s, room = some s → s.toMatch.Explained)
        (fun room e hroom hnot => roomStep_explained room e hroom hnot)
        (fun s heq => Option.some.inj heq ▸ hexplained) hevery s hs
    · subst heq
      have hrest := (Run.every_append.1 hevery).2
      rw [Run.last_append] at hs'
      obtain ⟨t, ht, hfinal⟩ := run_final hrest s' hs'
      obtain rfl := Option.some.inj (ht.symm.trans hs)
      exact hfinal hended

/-! ## A sample room -/

/-- Nine men's morris, as the client writes its options. -/
def sampleOptions : Json.Members :=
  let capture : Json := .obj [("enabled".toList, .bool false), ("onSquareEdges".toList, .bool true),
    ("onCrossLines".toList, .bool true), ("onDiagonalLines".toList, .bool true),
    ("inPlacingPhase".toList, .bool true), ("inMovingPhase".toList, .bool true),
    ("onlyAvailableWhenOwnPiecesLeq3".toList, .bool false)]
  [("pieceCount".toList, .int 9), ("flyPieceCount".toList, .int 3),
    ("piecesAtLeastCount".toList, .int 3), ("mayFly".toList, .bool true),
    ("hasDiagonalLines".toList, .bool false),
    ("millFormationActionInPlacingPhase".toList, .str "removeOpponentsPieceFromBoard".toList),
    ("mayRemoveFromMillsAlways".toList, .bool false), ("mayRemoveMultiple".toList, .bool false),
    ("nMoveRule".toList, .int 100), ("endgameNMoveRule".toList, .int 100),
    ("mayMoveInPlacingPhase".toList, .bool false), ("isDefenderMoveFirst".toList, .bool false),
    ("restrictRepeatedMillsFormation".toList, .bool false), ("oneTimeUseMill".toList, .bool false),
    ("stopPlacingWhenTwoEmptySquares".toList, .bool false),
    ("boardFullAction".toList, .str "firstPlayerLose".toList),
    ("threefoldRepetitionRule".toList, .bool true), ("custodianCapture".toList, capture),
    ("interventionCapture".toList, capture), ("leapCapture".toList, capture),
    ("stalemateAction".toList, .str "endWithStalemateLoss".toList)]

/-- What the Mill adapter answers for these options; the runs below apply no action. -/
def sampleAdapter : OnlineRuleAdapter where
  create _ := some {
    ok := true
    error := none
    snapshot := some ("AQAB".toList ++ List.replicate 47 'A' ++ "JCQAAAAD_AAD__w".toList
      ++ List.replicate 290 'A' ++ "____".toList ++ List.replicate 86 'A')
    fen := some "********/********/******** w p p 0 9 0 9 0 0 -1 -1 -1 -1 0 0 1 ids:nodes".toList
    sideToMove := some 0
    outcome := some ⟨.ongoing, none, "ongoing".toList⟩ }
  apply _ _ _ := some ⟨false, some "invalid_snapshot".toList, none, none, none, none⟩

/-- A token of 43 equal characters. -/
def sampleToken (c : Char) : Text := List.replicate 43 c

/-- SHA-256 in base 64, of the tokens that occur below. -/
def sampleHash (token : Text) : Text :=
  if token = sampleToken 'A' then "DwBzhbb51LfusnSGBa_hqYSgo7-j8BTQnip4TOnlzRo".toList
  else if token = sampleToken 'c' then "DEnYkjBpb_PAMcpaEopOEh41ib-HLBf6BEh-0MwkXSE".toList
  else if token = sampleToken 'g' then "4Ep-Yn35LrWGFOeowPMHL0mxgNQwGtcWbTVvgJJWHYg".toList
  else "oEhKYYWzJOLzVRlPM0SC_HkZTNgFGFFV3c9oBP25CQo".toList

def sampleSupply : CreateSupply where
  now := 0
  roomId := List.replicate 22 'g'
  creatorToken := sampleToken 'A'
  inviteToken := sampleToken 'c'
  randomSeat := .first

def sampleBody : Json.Members :=
  [("protocolVersion".toList, .int 1), ("appId".toList, .str "sanmill".toList),
    ("gameId".toList, .str "mill".toList), ("rulesetId".toList, .str "custom-v1".toList),
    ("ruleOptions".toList, .obj sampleOptions), ("sidePreference".toList, .str "first".toList)]

def sampleRoom : Option RoomState :=
  (create sampleAdapter sampleHash sampleSupply sampleBody).toOption

def sampleJoinBody : Json.Members :=
  [("protocolVersion".toList, .int 1), ("appId".toList, .str "sanmill".toList),
    ("inviteToken".toList, .str (sampleToken 'c')),
    ("supportedGames".toList, .arr [.str "mill".toList]),
    ("supportedRulesets".toList, .arr [.str "custom-v1".toList])]

/-- The second player joins and draws the given seat token. -/
def sampleJoin (seatToken : Text) : RoomEvent :=
  .request 1 .join (List.replicate 3 ⟨1, seatToken, .ok sampleJoinBody⟩)

/-- A command, as the clients write it. -/
def commandJson (id : String) (expectedSeq : Nat) (type : String) (payload : Json.Members) : Json :=
  .obj [("protocolVersion".toList, .int 1), ("commandId".toList, .str id.toList),
    ("expectedSeq".toList, .int expectedSeq), ("type".toList, .str type.toList),
    ("payload".toList, .obj payload)]

def sampleCommand (seat : Seat) (id : String) (expectedSeq : Nat) (type : String)
    (payload : Json.Members) : RoomEvent :=
  .message 2 (some seat) (.text 160 (some (commandJson id expectedSeq type payload)))

/-- A player who resigns ends the game, and the reason is recorded. -/
theorem room_run_resign :
    ∃ s, last (roomStep sampleAdapter sampleHash) sampleRoom
        [sampleJoin (sampleToken 'g'), sampleCommand .second "resign-0001" 1 "resign" []] = some s
      ∧ s.status = .ended ∧ s.endReason.isSome := by
  obtain ⟨s₀, h⟩ : ∃ s₀, create sampleAdapter sampleHash sampleSupply sampleBody = .ok s₀ :=
    ⟨_, rfl⟩
  have hroom : sampleRoom = some s₀ := by
    unfold sampleRoom
    rw [h]
    rfl
  have hstatus : (last (roomStep sampleAdapter sampleHash) sampleRoom
      [sampleJoin (sampleToken 'g'), sampleCommand .second "resign-0001" 1 "resign" []]).map
        (fun s => s.status) = some .ended := by decide +kernel
  obtain ⟨s, hs, hended⟩ := Option.map_eq_some_iff.1 hstatus
  refine ⟨s, hs, hended, ?_⟩
  rw [hroom] at hs
  refine (((room_run sampleAdapter sampleHash h _).2.2.1 ?_).1 s hs).2 hended
  refine ⟨id, ?_, trivial⟩
  -- a resignation answers nothing
  rintro ⟨t, seat, command, kind, hok, htype, -⟩
  obtain ⟨-, -, -, length, decoded, hframe, hparse⟩ := admitCommand_eq_ok hok
  obtain ⟨rfl, hdecoded⟩ := Frame.text.inj hframe
  obtain rfl := Option.some.inj hdecoded
  have hresign : (parseCommand (commandJson "resign-0001" 1 "resign" [])).map
      (fun c => c.type.answers) = some none := by decide +kernel
  rw [hparse] at hresign
  have hnone : command.type.answers = none := Option.some.inj hresign
  rw [hnone] at htype
  cases htype

/-- A request to restart is accepted after the resignation: the game is active again, and
still records why it ended. -/
theorem room_run_revived :
    let run := fun events => (last (roomStep sampleAdapter sampleHash) sampleRoom events).map
      fun s => (s.status, s.endReason)
    let start := [sampleJoin (sampleToken 'g'),
      sampleCommand .first "restart-0001" 1 "restartRequest" [],
      sampleCommand .second "resign-0001" 2 "resign" []]
    let accept := sampleCommand .second "restart-0002" 3 "restartResponse"
      [("requestId".toList, .str "restart-0001".toList), ("accepted".toList, .bool true)]
    run start = some (.ended, some .resign)
      ∧ run (start ++ [accept]) = some (.active, some .resign) := by
  decide +kernel

end Sanmill.Online
