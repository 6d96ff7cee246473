import Sanmill.Online.GameRoom
import Sanmill.Proof.Online.Room

/-!
# What interleaved handlers promise

A handler that waits stores a record it loaded earlier. As long as the record is still
the one it loaded, storing it is an update of what is there, and everything promised
holds: nothing is lost, one join succeeds, a ticket opens one socket, and no room is
canceled that somebody has joined. Nothing in the source ensures that condition.
-/

namespace Sanmill.Online

open Run (last Every)

variable {mill : OnlineRuleAdapter} {tokenHash : Text → Text} {w : World} {e : WorldEvent}
  {hash : Text} {now : Nat}

/-! ## Tickets -/

/-- The tickets for `hash` that have not opened a socket. -/
def unusedTickets (hash : Text) (tickets : List TicketRecord) : Nat :=
  tickets.countP fun ticket => ticket.hash = hash ∧ ticket.used = false

theorem TicketRecord.admits_iff {ticket : TicketRecord} :
    ticket.admits hash now = true
      ↔ (ticket.hash = hash ∧ ticket.used = false) ∧ now < ticket.expiresAt := by
  unfold TicketRecord.admits equalTokenHash
  simp

/-- A new ticket takes the place of older ones. -/
theorem unusedTickets_addTicket (s : RoomState) (seat : Seat) (drawn : Nat) (issued : Text) :
    unusedTickets hash (addTicket s seat drawn issued).tickets
      ≤ unusedTickets hash s.tickets + if issued = hash then 1 else 0 := by
  unfold unusedTickets addTicket
  rw [List.countP_append]
  refine Nat.add_le_add List.filter_sublist.countP_le ?_
  simp [List.countP_cons]

/-- Using a ticket takes one away. -/
theorem unusedTickets_useTicket {hash' : Text} {tickets tickets' : List TicketRecord}
    {record : TicketRecord} (h : useTicket hash' now tickets = some (record, tickets')) :
    unusedTickets hash tickets = unusedTickets hash tickets' + if hash' = hash then 1 else 0 := by
  unfold unusedTickets
  induction tickets generalizing tickets' with
  | nil => cases h
  | cons ticket rest ih =>
    unfold useTicket at h
    split at h
    · rename_i hadmits
      obtain ⟨rfl, rfl⟩ := Prod.mk.inj (Option.some.inj h)
      obtain ⟨⟨rfl, hunused⟩, -⟩ := TicketRecord.admits_iff.1 hadmits
      simp [List.countP_cons, hunused]
    · obtain ⟨⟨record', rest'⟩, hrest, heq⟩ := Option.map_eq_some_iff.1 h
      obtain ⟨rfl, rfl⟩ := Prod.mk.inj heq
      rw [List.countP_cons, List.countP_cons, ih hrest]
      omega

/-! ## Updates -/

/-- The update a waiting handler makes of a record. -/
inductive Updates (tokenHash : Text → Text) (s : RoomState) : RoomState → List Done → Prop
  | keep : Updates tokenHash s s []
  | join (seatToken : Text) (eloRating : Option EloRating) (hwaiting : s.status = .waiting)
      (hunused : s.inviteUsed = false) (hopen : s.joinerTokenHash = none) :
      Updates tokenHash s (joinRoom s (tokenHash seatToken) eloRating) [.joined]
  | ticket (seat : Seat) (drawn : Nat) (ticket : Text) :
      Updates tokenHash s (addTicket s seat drawn (tokenHash ticket)) [.issued (tokenHash ticket)]
  | socket (now : Nat) (ticket : Text) {record : TicketRecord} {tickets : List TicketRecord}
      (huse : useTicket (tokenHash ticket) now s.tickets = some (record, tickets)) :
      Updates tokenHash s { s with tickets } [.opened (tokenHash ticket)]

/-- What another handler has stored before, and an update leaves. -/
structure Kept (s s' : RoomState) : Prop where
  actions : s'.actions = s.actions
  position : s'.position = s.position
  recentCommands : s'.recentCommands = s.recentCommands
  pendingControl : s'.pendingControl = s.pendingControl
  ended : s'.endReason = s.endReason ∧ s'.winnerSeat = s.winnerSeat
  seq : s.seq ≤ s'.seq
  joined : s.inviteUsed = true → s'.inviteUsed = true ∧ s'.joinerTokenHash = s.joinerTokenHash
    ∧ s'.joinerEloRating = s.joinerEloRating ∧ s'.status = s.status
  /-- A ticket that was used stays used. -/
  tickets : ∀ ticket ∈ s'.tickets, ticket.used = false → ticket ∈ s.tickets
    ∨ ∃ seat drawn hash, s' = addTicket s seat drawn hash

theorem useTicket_unused {hash' : Text} {tickets tickets' : List TicketRecord}
    {record : TicketRecord} (h : useTicket hash' now tickets = some (record, tickets')) :
    ∀ ticket ∈ tickets', ticket.used = false → ticket ∈ tickets := by
  induction tickets generalizing tickets' with
  | nil => cases h
  | cons head rest ih =>
    unfold useTicket at h
    split at h
    · obtain ⟨rfl, rfl⟩ := Prod.mk.inj (Option.some.inj h)
      intro ticket hmem hunused
      rcases List.mem_cons.1 hmem with rfl | hmem
      · cases hunused
      · exact List.mem_cons_of_mem _ hmem
    · obtain ⟨⟨record', rest'⟩, hrest, heq⟩ := Option.map_eq_some_iff.1 h
      obtain ⟨rfl, rfl⟩ := Prod.mk.inj heq
      intro ticket hmem hunused
      rcases List.mem_cons.1 hmem with rfl | hmem
      · exact List.mem_cons_self
      · exact List.mem_cons_of_mem _ (ih hrest ticket hmem hunused)

theorem Updates.kept {s s' : RoomState} {done : List Done} (h : Updates tokenHash s s' done) :
    Kept s s' := by
  cases h with
  | keep => exact ⟨rfl, rfl, rfl, rfl, ⟨rfl, rfl⟩, le_rfl, fun hused => ⟨hused, rfl, rfl, rfl⟩,
      fun ticket hmem _ => .inl hmem⟩
  | join seatToken eloRating hwaiting hunused hopen =>
    refine ⟨rfl, rfl, rfl, rfl, ⟨rfl, rfl⟩, Nat.le_succ _, fun hused => ?_,
      fun ticket hmem _ => .inl hmem⟩
    rw [hunused] at hused
    cases hused
  | ticket seat drawn ticket =>
    exact ⟨rfl, rfl, rfl, rfl, ⟨rfl, rfl⟩, le_rfl, fun hused => ⟨hused, rfl, rfl, rfl⟩,
      fun _ _ _ => .inr ⟨seat, drawn, _, rfl⟩⟩
  | socket now ticket huse =>
    exact ⟨rfl, rfl, rfl, rfl, ⟨rfl, rfl⟩, le_rfl, fun hused => ⟨hused, rfl, rfl, rfl⟩,
      fun ticket hmem hunused => .inl (useTicket_unused huse ticket hmem hunused)⟩

/-! ## The condition -/

/-- The handler finds the record it has loaded where it stores its own: for a ticket, as far
as the new tickets depend on it, and for a deletion, as far as the room still waits. -/
def Flight.Undisturbed (tokenHash : Text → Text) (room : Option RoomState) (now : Nat) :
    Flight → Prop
  | .joinSeat loaded _ _ => room = some loaded
  | .ticketHash loaded seat drawn ticket => ∃ s, room = some s
      ∧ addTicket s seat drawn (tokenHash ticket) = addTicket loaded seat drawn (tokenHash ticket)
  | .socketHash loaded ticket =>
    (useTicket (tokenHash ticket) now loaded.tickets).isSome → room = some loaded
  | .cancelAuth loaded token =>
    authorizedSeat loaded (tokenHash token) = some loaded.creatorSeat → loaded.status = .waiting →
      ∀ s, room = some s → s.status = .waiting
  | _ => True

/-- A step that lets a handler go on finds it undisturbed. -/
def Undisturbed (tokenHash : Text → Text) (w : World) : WorldEvent → Prop
  | .resume index supply =>
    ∀ flight, w.flights[index]? = some flight → flight.Undisturbed tokenHash w.room supply.now
  | _ => True

/-- No handler waits, or one does and the record is still the one it has loaded. -/
def Alone (w : World) : Prop :=
  w.flights = [] ∨ ∃ flight, w.flights = [flight] ∧ w.room = some flight.loaded

theorem Alone.undisturbed (h : Alone w) (index : Nat) (supply : Supply) :
    Undisturbed tokenHash w (.resume index supply) := by
  intro flight hget
  rcases h with hnone | ⟨f, hone, hroom⟩
  · rw [hnone] at hget
    cases hget
  · obtain rfl : f = flight := by
      rw [hone] at hget
      exact (List.mem_singleton.1 (List.mem_of_getElem? hget)).symm
    rw [hroom]
    cases f with
    | joinSeat loaded eloRating seatToken => rfl
    | ticketHash loaded seat drawn ticket => exact ⟨loaded, rfl, rfl⟩
    | socketHash loaded ticket => exact fun _ => rfl
    | cancelAuth loaded token =>
      intro _ hwaiting s hs
      exact Option.some.inj hs ▸ hwaiting
    | _ => trivial

/-- A handler that is alone stays alone until it responds. -/
theorem Alone.resume (h : Alone w) (index : Nat) (supply : Supply) :
    Alone (worldStep mill tokenHash w (.resume index supply)) := by
  unfold worldStep
  dsimp only
  rcases hget : w.flights[index]? with _ | flight
  · exact h
  rcases h with hnone | ⟨f, hone, hroom⟩
  · rw [hnone] at hget
    cases hget
  obtain ⟨hlt, hf⟩ := List.getElem?_eq_some_iff.1 hget
  have hindex : index = 0 := by
    rw [hone] at hlt
    exact Nat.lt_one_iff.1 hlt
  subst hindex
  obtain rfl : f = flight := by simpa [hone] using hf
  have hresumed := resumeFlight_resumed tokenHash w.room f supply
  dsimp only
  generalize resumeFlight tokenHash w.room f supply = result at hresumed ⊢
  cases hresumed with
  | waits next hloaded hnext =>
    refine .inr ⟨next, by simp [hone], ?_⟩
    rw [hloaded]
    exact hroom
  | _ => exact .inl (by simp [hone])

theorem Alone.begin (h : w.flights = []) (now : Nat) (request : Request) :
    Alone (worldStep mill tokenHash w (.begin now request)) := by
  unfold worldStep
  dsimp only
  rcases beginRequest_cases now w.room request with ⟨s, flight, hroom, heq, hloaded, -⟩
    | ⟨error, heq⟩ | ⟨error, heq⟩
  · rw [heq]
    refine .inr ⟨flight, by simp [h], ?_⟩
    rw [hloaded]
    exact hroom
  · rw [heq]
    exact .inl h
  · rw [heq]
    exact .inl h

/-- A handler that nobody interrupts is undisturbed. -/
theorem undisturbed_of_alone (h : Alone w) (supplies : List Supply) :
    Every (worldStep mill tokenHash) (Undisturbed tokenHash) w
      (supplies.map fun supply => .resume 0 supply) := by
  induction supplies generalizing w with
  | nil => trivial
  | cons supply rest ih => exact ⟨h.undisturbed 0 supply, ih (h.resume 0 supply)⟩

/-! ## One step -/

/-- What a handler that waits makes of the record, and what it promises. -/
inductive Stores (tokenHash : Text → Text) (room : Option RoomState) :
    Option RoomState → List Done → Prop
  | deleted : Stores tokenHash room none []
  | canceled (hwaiting : ∀ s, room = some s → s.status = .waiting) :
      Stores tokenHash room none [.canceled]
  | updated {s s' : RoomState} {new : List Done} (hroom : room = some s)
      (h : Updates tokenHash s s' new) : Stores tokenHash room (some s') new

/-- What a socket message or an alarm makes of the record; neither promises anything. -/
inductive Plays (mill : OnlineRuleAdapter) (room : Option RoomState) :
    Option RoomState → List Done → Prop
  | deleted : Plays mill room none []
  | played {s s' : RoomState} (hroom : room = some s)
      (hstep : MatchStep mill s.toMatch s'.toMatch ∨ Granted mill s.toMatch s'.toMatch)
      (hseats : s'.seats = s.seats) : Plays mill room (some s') []

/-- A step that leaves the record as it is. -/
theorem Stores.same (room : Option RoomState) : Stores tokenHash room room [] := by
  cases room with
  | none => exact .deleted
  | some s => exact .updated rfl .keep

/-- What one step does to the whole room: `P` relates the records and the new promises. -/
structure Stepped (P : Option RoomState → Option RoomState → List Done → Prop) (w w' : World) :
    Prop where
  checked : ∀ flight ∈ w'.flights, flight.Checked
  outcome : ∃ new, w'.done = w.done ++ new ∧ P w.room w'.room new

theorem Stepped.of_flights {P : Option RoomState → Option RoomState → List Done → Prop}
    {flights : List Flight} (hchecked : ∀ flight ∈ flights, flight.Checked) {new : List Done}
    {room : Option RoomState} (h : P w.room room new) :
    Stepped P w { room, flights, done := w.done ++ new } where
  checked := hchecked
  outcome := ⟨new, rfl, h⟩

theorem Stepped.imp {P Q : Option RoomState → Option RoomState → List Done → Prop} {w' : World}
    (himp : ∀ {room room' new}, P room room' new → Q room room' new) (h : Stepped P w w') :
    Stepped Q w w' where
  checked := h.checked
  outcome := h.outcome.imp fun _ hnew => hnew.imp_right himp

theorem begin_stepped (hchecked : ∀ flight ∈ w.flights, flight.Checked) (now : Nat)
    (request : Request) : Stepped (Stores tokenHash) w
      (worldStep mill tokenHash w (.begin now request)) := by
  unfold worldStep
  dsimp only
  rcases beginRequest_cases now w.room request with ⟨s, flight, hroom, heq, -, hflight⟩
    | ⟨error, heq⟩ | ⟨error, heq⟩
  · rw [heq]
    refine ⟨fun f hf => ?_, [], (List.append_nil _).symm, .same _⟩
    rcases List.mem_append.1 hf with hf | hf
    · exact hchecked f hf
    · exact List.mem_singleton.1 hf ▸ hflight
  · rw [heq]
    exact ⟨hchecked, [], (List.append_nil _).symm, .same _⟩
  · rw [heq]
    exact ⟨hchecked, [], (List.append_nil _).symm, .deleted⟩

/-- An error promises nothing. -/
theorem promised_protocolError (flight : Flight) (error : HttpError) :
    promised tokenHash flight (.protocolError error) = [] := by
  cases flight <;> rfl

theorem resume_stepped (hchecked : ∀ flight ∈ w.flights, flight.Checked) {index : Nat}
    {supply : Supply} (h : Undisturbed tokenHash w (.resume index supply)) :
    Stepped (Stores tokenHash) w (worldStep mill tokenHash w (.resume index supply)) := by
  unfold worldStep
  dsimp only
  rcases hget : w.flights[index]? with _ | flight
  · exact ⟨hchecked, [], (List.append_nil _).symm, .same _⟩
  -- between its read and its write nothing has touched what the flight checked
  have hundisturbed := h flight hget
  have hflight : flight.Checked := hchecked flight (List.mem_of_getElem? hget)
  have herase : ∀ f ∈ w.flights.eraseIdx index, f.Checked := fun f hf =>
    hchecked f (List.mem_of_mem_eraseIdx hf)
  have hresumed := resumeFlight_resumed tokenHash w.room flight supply
  dsimp only
  generalize resumeFlight tokenHash w.room flight supply = result at hresumed ⊢
  -- one case for each way a flight can end
  cases hresumed with
  | waits next hloaded hnext =>
    refine ⟨fun f hf => ?_, [], (List.append_nil _).symm, .same _⟩
    rcases List.mem_or_eq_of_mem_set hf with hf | rfl
    · exact hchecked f hf
    · exact hnext
  | refuses error =>
    refine .of_flights herase ?_
    rw [promised_protocolError]
    exact .same _
  | joins loaded eloRating seatToken =>
    exact .of_flights herase (.updated hundisturbed
      (.join seatToken eloRating hflight.1 hflight.2.1 hflight.2.2))
  | issues loaded seat drawn ticket =>
    obtain ⟨s, hroom, heq⟩ := hundisturbed
    rw [← heq]
    exact .of_flights herase (.updated hroom (.ticket seat drawn ticket))
  | opens loaded ticket huse =>
    exact .of_flights herase (.updated (hundisturbed (by rw [huse]; rfl)) (.socket _ ticket huse))
  | cancels loaded token hwaiting hseat =>
    exact .of_flights herase (.canceled (hundisturbed hseat hwaiting))

theorem message_stepped (hchecked : ∀ flight ∈ w.flights, flight.Checked) (now : Nat)
    (attachment : Option Seat) (frame : Frame) :
    Stepped (Plays mill) w (worldStep mill tokenHash w (.message now attachment frame)) := by
  refine ⟨hchecked, [], (List.append_nil _).symm, ?_⟩
  rcases hroom : (worldStep mill tokenHash w (.message now attachment frame)).room with _ | s'
  · exact .deleted
  · obtain ⟨s, hs, hseats⟩ := webSocketMessage_seats hroom
    obtain ⟨t, ht, hstep⟩ := webSocketMessage_advances s' hroom
    obtain rfl := Option.some.inj (hs.symm.trans ht)
    exact .played hs (hstep.imp_right And.right) hseats

theorem alarm_stepped (hchecked : ∀ flight ∈ w.flights, flight.Checked) :
    Stepped (Plays mill) w (worldStep mill tokenHash w .alarm) := by
  refine ⟨hchecked, [], (List.append_nil _).symm, ?_⟩
  show Plays mill w.room (alarm w.room) []
  rcases w.room with _ | s
  · exact .deleted
  · unfold alarm
    dsimp only
    split
    · split
      · exact .played rfl (.inl (MatchStep.drop (m := s.toMatch))) rfl
      · exact .deleted
    · exact .deleted

/-- **One step**, with the handler that goes on undisturbed. -/
theorem worldStep_stepped (hchecked : ∀ flight ∈ w.flights, flight.Checked)
    (h : Undisturbed tokenHash w e) :
    Stepped (fun room room' new => Stores tokenHash room room' new ∨ Plays mill room room' new) w
      (worldStep mill tokenHash w e) := by
  cases e with
  | begin now request => exact (begin_stepped hchecked now request).imp .inl
  | resume index supply => exact (resume_stepped hchecked h).imp .inl
  | message now attachment frame => exact (message_stepped hchecked now attachment frame).imp .inr
  | alarm => exact (alarm_stepped hchecked).imp .inr

/-! ## Invariant -/

/-- What holds between the steps of undisturbed handlers. -/
structure WorldInv (w : World) : Prop where
  checked : ∀ flight ∈ w.flights, flight.Checked
  seated : ∀ s, w.room = some s → s.toMatch.Seated
  joins : w.done.count .joined ≤ 1
  unused : ∀ s, w.room = some s → s.inviteUsed = false → w.done.count .joined = 0
  tickets : ∀ hash, w.done.count (.opened hash)
    + w.room.elim 0 (fun s => unusedTickets hash s.tickets) ≤ w.done.count (.issued hash)

/-- A deleted room keeps what it has promised. -/
theorem WorldInv.of_deleted {flights : List Flight} {done : List Done}
    (hchecked : ∀ flight ∈ flights, flight.Checked) (hjoins : done.count .joined ≤ 1)
    (htickets : ∀ hash, done.count (.opened hash) ≤ done.count (.issued hash)) :
    WorldInv ⟨none, flights, done⟩ where
  checked := hchecked
  seated _ hs := (Option.some_ne_none _ hs.symm).elim
  joins := hjoins
  unused _ hs := (Option.some_ne_none _ hs.symm).elim
  tickets hash := by
    rw [Option.elim_none]
    exact htickets hash

/-- An update keeps two players seated. -/
theorem Updates.seated {s s' : RoomState} {done : List Done} (h : Updates tokenHash s s' done)
    (hseated : s.toMatch.Seated) : s'.toMatch.Seated := by
  cases h with
  | keep => exact hseated
  | join seatToken eloRating hwaiting hunused hopen =>
    have hjoin : MatchStep ⟨fun _ => none, fun _ _ _ => none⟩ s.toMatch _ := .join hwaiting
    exact hjoin.seated hseated
  | ticket seat drawn ticket => exact hseated
  | socket now ticket huse => exact hseated

/-- At most one join, by a room that nobody has joined; a room without a second player
stays so. -/
theorem Updates.joins {s s' : RoomState} {done : List Done} (h : Updates tokenHash s s' done) :
    (done.count .joined = 0 ∨ done.count .joined = 1 ∧ s.inviteUsed = false)
      ∧ (s'.inviteUsed = false → done.count .joined = 0 ∧ s.inviteUsed = false) := by
  cases h with
  | keep => exact ⟨.inl rfl, fun hnot => ⟨rfl, hnot⟩⟩
  | join seatToken eloRating hwaiting hunused hopen => exact ⟨.inr ⟨rfl, hunused⟩, nofun⟩
  | ticket seat drawn ticket =>
    have hnone : [Done.issued (tokenHash ticket)].count .joined = 0 := by simp
    exact ⟨.inl hnone, fun hnot => ⟨hnone, hnot⟩⟩
  | socket now ticket huse =>
    have hnone : [Done.opened (tokenHash ticket)].count .joined = 0 := by simp
    exact ⟨.inl hnone, fun hnot => ⟨hnone, hnot⟩⟩

/-- A socket costs a ticket, and only issuing one adds to them. -/
theorem Updates.tickets {s s' : RoomState} {done : List Done} (h : Updates tokenHash s s' done) :
    done.count (.opened hash) + unusedTickets hash s'.tickets
      ≤ unusedTickets hash s.tickets + done.count (.issued hash) := by
  cases h with
  | keep => simp
  | join seatToken eloRating hwaiting hunused hopen => simp [joinRoom]
  | ticket seat drawn ticket =>
    have hle := @unusedTickets_addTicket hash s seat drawn (tokenHash ticket)
    simp only [List.count_singleton, beq_iff_eq, Done.issued.injEq, reduceCtorEq, if_false]
    omega
  | socket now ticket huse =>
    have heq : unusedTickets hash s.tickets = _ := unusedTickets_useTicket huse
    simp only [List.count_singleton, beq_iff_eq, Done.opened.injEq, reduceCtorEq, if_false]
    omega

theorem worldStep_inv (h : WorldInv w) (hundisturbed : Undisturbed tokenHash w e) :
    WorldInv (worldStep mill tokenHash w e) := by
  obtain ⟨hchecked, new, hdone, houtcome⟩ :=
    @worldStep_stepped mill tokenHash w e h.checked hundisturbed
  generalize worldStep mill tokenHash w e = w' at hchecked hdone houtcome ⊢
  obtain ⟨room, flights, done⟩ := w'
  dsimp only at hchecked hdone houtcome
  subst hdone
  have htickets : ∀ hash, w.done.count (.opened hash) ≤ w.done.count (.issued hash) := fun hash =>
    (Nat.le_add_right _ _).trans (h.tickets hash)
  have hjoins := h.joins
  -- either a request has stored a room, or a player has moved the match on
  rcases houtcome with hstores | hplays
  · cases hstores with
    | deleted => exact .of_deleted hchecked (by rwa [List.append_nil]) (by rwa [List.append_nil])
    | canceled hwaiting =>
      refine .of_deleted hchecked ?_ fun hash => ?_
      · simpa [List.count_append] using hjoins
      · simpa [List.count_append] using htickets hash
    | @updated s s' new hroom hupdates =>
      refine ⟨hchecked, fun t ht => ?_, ?_, fun t ht hnot => ?_, fun hash => ?_⟩
      · obtain rfl := Option.some.inj ht
        exact hupdates.seated (h.seated s hroom)
      -- a join is counted once, and only while the invitation is unused
      · rw [List.count_append]
        rcases hupdates.joins.1 with hnone | ⟨hone, hunused⟩
        · omega
        · rw [hone, h.unused s hroom hunused]
      · obtain rfl := Option.some.inj ht
        obtain ⟨hnone, hunused⟩ := hupdates.joins.2 hnot
        rw [List.count_append, hnone, h.unused s hroom hunused]
      -- a ticket is opened at most as often as it was issued
      · have hold := h.tickets hash
        have hle := @Updates.tickets tokenHash hash _ _ _ hupdates
        rw [hroom, Option.elim_some] at hold
        rw [Option.elim_some, List.count_append, List.count_append]
        omega
  · cases hplays with
    | deleted => exact .of_deleted hchecked (by rwa [List.append_nil]) (by rwa [List.append_nil])
    | @played s s' hroom hstep hseats =>
      -- play touches neither the seats nor the tickets
      have hused : s'.inviteUsed = s.inviteUsed := congrArg Seats.inviteUsed hseats
      have hsame : s'.tickets = s.tickets := congrArg Seats.tickets hseats
      refine ⟨hchecked, fun t ht => ?_, ?_, fun t ht hnot => ?_, fun hash => ?_⟩
      · obtain rfl := Option.some.inj ht
        rcases hstep with hstep | hgranted
        · exact hstep.seated (h.seated s hroom)
        · exact hgranted.seated (h.seated s hroom)
      · rwa [List.append_nil]
      · obtain rfl := Option.some.inj ht
        rw [List.append_nil]
        exact h.unused s hroom (hused ▸ hnot)
      · have hold := h.tickets hash
        rw [hroom, Option.elim_some] at hold
        rwa [List.append_nil, Option.elim_some, hsame]

/-! ## A whole run -/

theorem create_inv {supply : CreateSupply} {body : Json.Members} {s₀ : RoomState}
    (h : create mill tokenHash supply body = .ok s₀) : WorldInv ⟨some s₀, [], []⟩ := by
  obtain ⟨-, -, hpending, hstatus, -, hunused, -, htickets⟩ := create_ok h
  refine ⟨fun f hf => absurd hf List.not_mem_nil, fun s hs => ?_, Nat.zero_le _, fun _ _ _ => rfl,
    fun hash => ?_⟩
  · obtain rfl := Option.some.inj hs
    exact ⟨iff_of_true hstatus hunused, fun _ => hpending⟩
  · rw [Option.elim_some, htickets]
    rfl

/-- A message keeps the seats and does not lower the number. -/
theorem Plays.kept {room : Option RoomState} {s' : RoomState} {new : List Done}
    (h : Plays mill room (some s') new) :
    ∃ s, room = some s ∧ s.seq ≤ s'.seq ∧ s'.seats = s.seats := by
  cases h with
  | @played s _ hroom hstep hseats =>
    refine ⟨s, hroom, ?_, hseats⟩
    rcases hstep with hstep | hgranted
    · exact hstep.seq_le
    · exact (Nat.le_succ _).trans hgranted.seq_eq.ge

theorem Stores.kept {room : Option RoomState} {s' : RoomState} {new : List Done}
    (h : Stores tokenHash room (some s') new) : ∃ s, room = some s ∧ Kept s s' := by
  cases h with
  | @updated s _ _ hroom hupdates => exact ⟨s, hroom, hupdates.kept⟩

/--
**Interleaved handlers.** In a run in which each handler goes on undisturbed, one join
succeeds at most, a hash opens at most as many sockets as there were tickets for it, a
handler that waited keeps what others have stored, a message or an alarm keeps the seats,
and a room is canceled only while nobody has joined it.
-/
theorem interleaving_run (mill : OnlineRuleAdapter) (tokenHash : Text → Text)
    {supply : CreateSupply} {body : Json.Members} {s₀ : RoomState}
    (h : create mill tokenHash supply body = .ok s₀) {events : List WorldEvent}
    (hundisturbed : Every (worldStep mill tokenHash) (Undisturbed tokenHash)
      ⟨some s₀, [], []⟩ events) :
    let world := last (worldStep mill tokenHash) ⟨some s₀, [], []⟩
    (world events).done.count .joined ≤ 1
      ∧ (∀ hash, (world events).done.count (.opened hash)
          ≤ (world events).done.count (.issued hash))
      ∧ ∀ before e rest, events = before ++ e :: rest →
        (∀ s', (world (before ++ [e])).room = some s' → ∃ s, (world before).room = some s
          ∧ s.seq ≤ s'.seq ∧ (Kept s s' ∨ s'.seats = s.seats)
          ∧ ∀ index supply, e = .resume index supply → Kept s s')
        ∧ ((world (before ++ [e])).done = (world before).done ++ [.canceled] →
          ∀ s, (world before).room = some s →
            s.status = .waiting ∧ .joined ∉ (world before).done) := by
  intro world
  -- the invariant holds after every undisturbed prefix, by induction on the run
  have hinv : ∀ es, Every (worldStep mill tokenHash) (Undisturbed tokenHash)
      ⟨some s₀, [], []⟩ es → WorldInv (world es) := fun es hes =>
    Run.invariant (I := WorldInv) (fun w e hw he => worldStep_inv hw he) (create_inv h) hes
  refine ⟨(hinv events hundisturbed).joins, fun hash => ?_, fun before e rest heq => ?_⟩
  · exact (Nat.le_add_right _ _).trans ((hinv events hundisturbed).tickets hash)
  subst heq
  obtain ⟨hbefore, he, -⟩ := Run.every_append.1 hundisturbed
  have hprev := hinv before hbefore
  have hlast : world (before ++ [e]) = worldStep mill tokenHash (world before) e :=
    Run.last_append _ _ _
  obtain ⟨-, new, hdone, houtcome⟩ := @worldStep_stepped mill tokenHash _ e hprev.checked he
  rw [← hlast] at hdone houtcome
  -- for the last event of the prefix the step lemma says what became of the room
  refine ⟨fun s' hs' => ?_, fun hcanceled s hs => ?_⟩
  · rw [hs'] at houtcome
    rcases houtcome with hstores | hplays
    · obtain ⟨s, hs, hkept⟩ := hstores.kept
      exact ⟨s, hs, hkept.seq, .inl hkept, fun _ _ _ => hkept⟩
    · obtain ⟨s, hs, hseq, hseats⟩ := hplays.kept
      refine ⟨s, hs, hseq, .inr hseats, fun index supply heq => ?_⟩
      subst heq
      obtain ⟨-, new', -, hstores⟩ := @resume_stepped mill tokenHash _ hprev.checked _ _ he
      rw [← hlast, hs'] at hstores
      obtain ⟨t, ht, hkept⟩ := hstores.kept
      rwa [Option.some.inj (ht.symm.trans hs)] at hkept
  -- a cancellation is the only outcome that notes itself
  · have hnew : new = [.canceled] := List.append_cancel_left (hdone.symm.trans hcanceled)
    subst hnew
    have hwaiting : s.status = .waiting := by
      rcases houtcome with hstores | hplays
      · generalize (world (before ++ [e])).room = room' at hstores
        cases hstores with
        | canceled hwaiting => exact hwaiting s hs
        | updated hroom hupdates => cases hupdates
      · generalize (world (before ++ [e])).room = room' at hplays
        cases hplays
    refine ⟨hwaiting, List.count_eq_zero.1 (hprev.unused s hs ?_)⟩
    exact (hprev.seated s hs).waiting.1 hwaiting

/-- A join that nobody interrupts succeeds once. -/
theorem interleaving_run_join :
    ∃ s₀, create sampleAdapter sampleHash sampleSupply sampleBody = .ok s₀
      ∧ (last (worldStep sampleAdapter sampleHash) ⟨some s₀, [], []⟩
        (.begin 1 .join :: (List.replicate 3 ⟨1, sampleToken 'g', .ok sampleJoinBody⟩).map
          fun supply => .resume 0 supply)).done.count .joined ≤ 1 := by
  obtain ⟨s₀, h⟩ : ∃ s₀, create sampleAdapter sampleHash sampleSupply sampleBody = .ok s₀ :=
    ⟨_, rfl⟩
  refine ⟨s₀, h, (interleaving_run sampleAdapter sampleHash h ?_).1⟩
  exact ⟨trivial, undisturbed_of_alone (Alone.begin rfl 1 .join) _⟩

/-- Two players join with one invitation: both have loaded the record before either stores
its own, both are told that they have joined, and the number counts one of them. -/
theorem interleaving_run_two_joins :
    let supply := fun c => (⟨1, sampleToken c, .ok sampleJoinBody⟩ : Supply)
    let world := last (worldStep sampleAdapter sampleHash) ⟨sampleRoom, [], []⟩
      [.begin 1 .join, .begin 1 .join, .resume 0 (supply 'g'), .resume 0 (supply 'g'),
        .resume 1 (supply 'k'), .resume 1 (supply 'k'), .resume 0 (supply 'g'),
        .resume 0 (supply 'k')]
    world.done = [.joined, .joined] ∧ world.room.map (fun s => s.seq) = some 1
      ∧ world.room.map (fun s => s.joinerTokenHash)
        = some (some (sampleHash (sampleToken 'k'))) := by
  decide +kernel

end Sanmill.Online
