import Sanmill.Proof.Mif.Accepts

/-!
# Listed actions

For places and moves the projection makes the checks of the engine. For removals it does
not: it looks at the zone of every branch and refuses a position when one of them is not in
order, where the engine takes the first branch of the player that has the target, whatever
its zone. A removal from a hand is listed, and the engine refuses it.
-/

namespace Sanmill.Mif

open Engine (heads Removable memberText)

variable {identity : Identity} {manifest : Manifest} {value event : Json} {s : State}

/-- The event says what the action says. -/
def ListedAs (event action : Json) : Prop :=
  ∀ name member, action.get name = some member →
    if name = "target" then
      ∃ target, event.get "target" = some target
        ∧ ∀ name' member', member.get name' = some member' → target.get name' = some member'
    else event.get name = some member

/-- The projection lists an action that the event makes. -/
def Listed (manifest : Manifest) (s : State) (event : Json) : Prop :=
  ∃ actions, legalActions manifest s = .ok actions ∧ ∃ action ∈ actions, ListedAs event action

/-! ## The actions of the list -/

theorem listedAs_place {actor : Char} {target : Point} :
    ListedAs event (placeAction actor target)
      ↔ event.get "actor" = some (ofChar actor) ∧ event.get "type" = some (.ofString "place")
        ∧ event.get "at" = some (coordJson target) := by
  unfold ListedAs placeAction
  rw [Json.forall_get_ofMembers (by simp)]
  simp

theorem listedAs_move {actor : Char} {source target : Point} :
    ListedAs event (moveAction actor source target)
      ↔ event.get "actor" = some (ofChar actor) ∧ event.get "type" = some (.ofString "move")
        ∧ event.get "from" = some (coordJson source)
          ∧ event.get "to" = some (coordJson target) := by
  unfold ListedAs moveAction
  rw [Json.forall_get_ofMembers (by simp)]
  simp

theorem listedAs_boardRemoval {actor : Char} {target : Point} :
    ListedAs event (boardRemoval actor target)
      ↔ event.get "actor" = some (ofChar actor) ∧ event.get "type" = some (.ofString "remove")
        ∧ ∃ found, event.get "target" = some found ∧ found.get "zone" = some (.ofString "board")
          ∧ found.get "at" = some (coordJson target) := by
  unfold ListedAs boardRemoval
  rw [Json.forall_get_ofMembers (by simp)]
  simp only [List.forall_mem_cons, List.not_mem_nil, false_imp_iff, implies_true, and_true]
  rw [if_neg (by decide), if_neg (by decide), if_pos trivial]
  refine and_congr_right fun _ => and_congr_right fun _ => exists_congr fun found => ?_
  rw [Json.forall_get_ofMembers (by simp)]
  simp

theorem listedAs_handRemoval {actor : Char} {owner : Fin 2} :
    ListedAs event (handRemoval actor owner)
      ↔ event.get "actor" = some (ofChar actor) ∧ event.get "type" = some (.ofString "remove")
        ∧ ∃ found, event.get "target" = some found ∧ found.get "zone" = some (.ofString "hand")
          ∧ found.get "player" = some (.ofString (if owner = 0 then "w" else "b")) := by
  unfold ListedAs handRemoval
  rw [Json.forall_get_ofMembers (by simp)]
  simp only [List.forall_mem_cons, List.not_mem_nil, false_imp_iff, implies_true, and_true]
  rw [if_neg (by decide), if_neg (by decide), if_pos trivial]
  refine and_congr_right fun _ => and_congr_right fun _ => exists_congr fun found => ?_
  rw [Json.forall_get_ofMembers (by simp)]
  simp

/-! ## The targets of the branches -/

/-- The projection takes an obligation. -/
def Selectable (s : State) (head : Obligation) : Prop :=
  head.actor = s.side ∧ head.targetsDeferred = false
    ∧ ((head.zone = 'b' ∧ head.targets &&& ~~~0x00ffffff#32 = 0
        ∧ ∀ index : Point, head.targets.getLsbD index.val = true →
          s.board index = head.owner.toUpper)
      ∨ (head.zone = 'h' ∧ head.owner ∈ ['w', 'b'] ∧ s.hands (playerIndex head.owner) ≠ 0))

instance (s : State) (head : Obligation) : Decidable (Selectable s head) :=
  inferInstanceAs (Decidable (_ ∧ _ ∧ (_ ∨ _)))

theorem selectTargets_ok_iff {head : Obligation} {board selected : Point → Bool} :
    selectTargets s head board = .ok selected
      ↔ (∀ index : Point, head.targets.getLsbD index.val = true →
        s.board index = head.owner.toUpper)
        ∧ ∀ index, selected index = (board index || head.targets.getLsbD index.val) := by
  unfold selectTargets
  suffices hpoints : ∀ (points : List Point) (board : Point → Bool),
      points.foldlM (fun selected index =>
          if head.targets.getLsbD index.val = false then .ok selected
          else if s.board index ≠ head.owner.toUpper then
            .error (targetMismatch "board obligation target owner does not match state")
          else .ok (Function.update selected index true)) board
        = (.ok selected : Result (Point → Bool))
      ↔ (∀ index ∈ points, head.targets.getLsbD index.val = true →
        s.board index = head.owner.toUpper)
        ∧ ∀ index, selected index
          = (board index || (decide (index ∈ points) && head.targets.getLsbD index.val)) by
    simpa using hpoints (List.finRange 24) board
  -- the induction is on the points still to be looked at
  intro points
  induction points with
  | nil =>
    intro board
    rw [List.foldlM_nil]
    constructor
    · intro h
      obtain rfl := Except.ok.inj h
      exact ⟨nofun, fun index => by simp⟩
    · rintro ⟨-, hselected⟩
      refine congrArg Except.ok (funext fun index => ?_)
      simpa using (hselected index).symm
  | cons point rest ih =>
    intro board
    rw [List.foldlM_cons, List.forall_mem_cons]
    by_cases hbit : head.targets.getLsbD point.val = false
    · rw [if_pos hbit]
      refine (ih board).trans (and_congr ?_ (forall_congr' fun index => ?_))
      · simp [hbit]
      · by_cases hindex : index = point
        · simp [hindex, hbit]
        · simp [hindex]
    · rw [if_neg hbit]
      have htarget := eq_true_of_ne_false hbit
      by_cases howner : s.board point = head.owner.toUpper
      · rw [if_neg (not_not.2 howner)]
        refine (ih _).trans (and_congr ?_ (forall_congr' fun index => ?_))
        · simp [howner]
        · by_cases hindex : index = point
          · simp [hindex, htarget]
          · simp [hindex]
      · rw [if_pos howner]
        constructor
        · intro h
          cases h
        · rintro ⟨⟨hpoint, -⟩, -⟩
          exact absurd (hpoint htarget) howner

/-- What an obligation adds to the targets. -/
def Adds (head : Obligation) (targets targets' : Targets) : Prop :=
  (∀ index, targets'.board index
      = (targets.board index || (decide (head.zone = 'b') && head.targets.getLsbD index.val)))
    ∧ ∀ owner, targets'.hand owner
      = (targets.hand owner || (decide (head.zone = 'h')
        && decide (playerIndex head.owner = owner)))

theorem selectHead_ok_iff {head : Obligation} {targets targets' : Targets} :
    selectHead s targets head = .ok targets' ↔ Selectable s head ∧ Adds head targets targets' := by
  unfold selectHead Selectable
  -- each guard of the source in turn, and last the zone that the head speaks of
  by_cases hactor : head.actor = s.side
  swap
  · rw [if_pos hactor]
    constructor
    · intro h
      cases h
    · intro h
      exact absurd h.1.1 hactor
  rw [if_neg (not_not.2 hactor)]
  by_cases hdeferred : head.targetsDeferred = true
  · rw [if_pos hdeferred]
    constructor
    · intro h
      cases h
    · rintro ⟨⟨-, hfalse, -⟩, -⟩
      rw [hdeferred] at hfalse
      cases hfalse
  rw [if_neg hdeferred]
  have hready := eq_false_of_ne_true hdeferred
  by_cases hboard : head.zone = 'b'
  · rw [if_pos hboard]
    by_cases hmask : head.targets &&& ~~~0x00ffffff#32 = 0
    swap
    · rw [if_pos hmask]
      constructor
      · intro h
        cases h
      · rintro ⟨⟨-, -, ⟨-, hzero, -⟩ | ⟨hhand, -⟩⟩, -⟩
        · exact absurd hzero hmask
        · rw [hboard] at hhand
          exact absurd hhand (by decide)
    rw [if_neg (not_not.2 hmask), Except.bind_ok_iff]
    unfold Adds
    constructor
    · rintro ⟨selected, hselect, h⟩
      obtain rfl := Except.ok.inj h
      obtain ⟨howner, hselected⟩ := selectTargets_ok_iff.1 hselect
      refine ⟨⟨hactor, hready, .inl ⟨hboard, hmask, howner⟩⟩, fun index => ?_, fun owner => ?_⟩
      · change selected index = _
        rw [hselected, hboard]
        simp
      · simp [hboard]
    · rintro ⟨⟨-, -, hzone⟩, hpoints, hhands⟩
      have howner : ∀ index : Point, head.targets.getLsbD index.val = true →
          s.board index = head.owner.toUpper := by
        rcases hzone with ⟨-, -, howner⟩ | ⟨hhand, -⟩
        · exact howner
        · rw [hboard] at hhand
          exact absurd hhand (by decide)
      refine ⟨targets'.board, selectTargets_ok_iff.2 ⟨howner, fun index => ?_⟩, ?_⟩
      · simpa [hboard] using hpoints index
      · have hsame : targets'.hand = targets.hand := by
          funext owner
          simpa [hboard] using hhands owner
        rw [← hsame]
  -- not the board: only a hand with pieces in it is left
  rw [if_neg hboard]
  by_cases hhand : head.zone = 'h' ∧ head.owner ∈ ['w', 'b']
  swap
  · rw [if_neg hhand]
    constructor
    · intro h
      cases h
    · rintro ⟨⟨-, -, ⟨hzone, -⟩ | ⟨hzone, howner, -⟩⟩, -⟩
      · exact absurd hzone hboard
      · exact absurd ⟨hzone, howner⟩ hhand
  rw [if_pos hhand]
  by_cases hempty : s.hands (playerIndex head.owner) = 0
  · rw [if_pos hempty]
    constructor
    · intro h
      cases h
    · rintro ⟨⟨-, -, ⟨hzone, -⟩ | ⟨-, -, hpieces⟩⟩, -⟩
      · exact absurd hzone hboard
      · exact absurd hempty hpieces
  rw [if_neg hempty]
  unfold Adds
  constructor
  · intro h
    obtain rfl := Except.ok.inj h
    refine ⟨⟨hactor, hready, .inr ⟨hhand.1, hhand.2, hempty⟩⟩, fun index => ?_, fun owner => ?_⟩
    · simp [hhand.1]
    · by_cases howner : playerIndex head.owner = owner
      · simp [hhand.1, ← howner]
      · simp [hhand.1, howner, Function.update_of_ne (Ne.symm howner)]
  · rintro ⟨-, hpoints, hhands⟩
    obtain ⟨board, hand⟩ := targets'
    have hboards : board = targets.board := by
      funext index
      simpa [hhand.1] using hpoints index
    have hhands' : hand = Function.update targets.hand (playerIndex head.owner) true := by
      funext owner
      by_cases howner : playerIndex head.owner = owner
      · subst howner
        simpa [hhand.1] using hhands (playerIndex head.owner)
      · rw [Function.update_of_ne (Ne.symm howner)]
        simpa [hhand.1, howner] using hhands owner
    rw [hboards, hhands']

theorem adds_exists (head : Obligation) (targets : Targets) :
    ∃ targets', Adds head targets targets' :=
  ⟨⟨_, _⟩, fun _ => rfl, fun _ => rfl⟩

/-- The targets that some branch lets the player take. -/
structure Collects (branches : List Obligation) (targets targets' : Targets) : Prop where
  board : ∀ index : Point, targets'.board index = true
    ↔ targets.board index = true
      ∨ ∃ head ∈ branches, head.zone = 'b' ∧ head.targets.getLsbD index.val = true
  hand : ∀ owner, targets'.hand owner = true
    ↔ targets.hand owner = true ∨ ∃ head ∈ branches, head.zone = 'h'
      ∧ playerIndex head.owner = owner

theorem Adds.collects {head : Obligation} {rest : List Obligation}
    {targets middle targets' : Targets}
    (h : Adds head targets middle) (hrest : Collects rest middle targets') :
    Collects (head :: rest) targets targets' where
  board := by
    intro index
    rw [hrest.board, h.1, Bool.or_eq_true, Bool.and_eq_true, decide_eq_true_iff,
      List.exists_mem_cons_iff,
      or_assoc]
  hand := by
    intro owner
    rw [hrest.hand, h.2, Bool.or_eq_true, Bool.and_eq_true, decide_eq_true_iff, decide_eq_true_iff,
      List.exists_mem_cons_iff, or_assoc]

theorem selectHeads_ok {branches : List Obligation} {targets targets' : Targets}
    (hok : branches.foldlM (selectHead s) targets = .ok targets') :
    (∀ head ∈ branches, Selectable s head) ∧ Collects branches targets targets' := by
  induction branches generalizing targets with
  | nil =>
    obtain rfl := Except.ok.inj hok
    exact ⟨nofun, fun index => by simp, fun owner => by simp⟩
  | cons head rest ih =>
    rw [List.foldlM_cons, Except.bind_ok_iff] at hok
    obtain ⟨middle, hhead, hrest⟩ := hok
    obtain ⟨hselectable, hadds⟩ := selectHead_ok_iff.1 hhead
    obtain ⟨hall, hcollects⟩ := ih hrest
    exact ⟨List.forall_mem_cons.2 ⟨hselectable, hall⟩, hadds.collects hcollects⟩

theorem selectHeads_total {branches : List Obligation} (h : ∀ head ∈ branches, Selectable s head)
    (targets : Targets) :
    ∃ targets', branches.foldlM (selectHead s) targets = .ok targets' := by
  induction branches generalizing targets with
  | nil => exact ⟨targets, rfl⟩
  | cons head rest ih =>
    obtain ⟨hhead, hrest⟩ := List.forall_mem_cons.1 h
    obtain ⟨middle, hadds⟩ := adds_exists head targets
    obtain ⟨targets', hok⟩ := ih hrest middle
    exact ⟨targets', Except.bind_ok_iff.2 ⟨middle, selectHead_ok_iff.2 ⟨hhead, hadds⟩, hok⟩⟩

/-- What the projection lists where removals are owed. -/
theorem removalActions_listed_iff :
    (∃ actions, removalActions s = .ok actions ∧ ∃ action ∈ actions, ListedAs event action)
      ↔ ∃ branches, parseObligationBranches s.obligations = .ok branches
        ∧ (∀ head ∈ heads branches, Selectable s head)
        ∧ ((∃ index : Point, (∃ head ∈ heads branches,
              head.zone = 'b' ∧ head.targets.getLsbD index.val = true)
            ∧ ListedAs event (boardRemoval s.side index))
          ∨ ∃ owner, (∃ head ∈ heads branches, head.zone = 'h' ∧ playerIndex head.owner = owner)
            ∧ ListedAs event (handRemoval s.side owner)) := by
  -- what is listed is one removal for each point and each hand that was collected
  have hlist : ∀ branches targets,
      Collects (heads branches) ⟨fun _ => false, fun _ => false⟩ targets →
      ((∃ action ∈ ((List.finRange 24).filter targets.board).map (boardRemoval s.side)
          ++ ((List.finRange 2).filter targets.hand).map (handRemoval s.side),
            ListedAs event action)
        ↔ (∃ index : Point, (∃ head ∈ heads branches,
              head.zone = 'b' ∧ head.targets.getLsbD index.val = true)
            ∧ ListedAs event (boardRemoval s.side index))
          ∨ ∃ owner, (∃ head ∈ heads branches, head.zone = 'h' ∧ playerIndex head.owner = owner)
            ∧ ListedAs event (handRemoval s.side owner)) := by
    intro branches targets hcollects
    have hboard := hcollects.board
    have hhand := hcollects.hand
    simp only [Bool.false_eq_true, false_or] at hboard hhand
    simp only [List.mem_append, List.mem_map, List.mem_filter, List.mem_finRange, true_and,
      hboard, hhand]
    constructor
    · rintro ⟨action, ⟨index, hindex, rfl⟩ | ⟨owner, howner, rfl⟩, hlisted⟩
      · exact .inl ⟨index, hindex, hlisted⟩
      · exact .inr ⟨owner, howner, hlisted⟩
    · rintro (⟨index, hindex, hlisted⟩ | ⟨owner, howner, hlisted⟩)
      · exact ⟨_, .inl ⟨index, hindex, rfl⟩, hlisted⟩
      · exact ⟨_, .inr ⟨owner, howner, rfl⟩, hlisted⟩
  unfold removalActions
  constructor
  · rintro ⟨actions, hok, hlisted⟩
    obtain ⟨branches, hbranches, hok⟩ := Except.bind_ok_iff.1 hok
    obtain ⟨targets, htargets, hok⟩ := Except.bind_ok_iff.1 hok
    obtain rfl := Except.ok.inj hok
    obtain ⟨hall, hcollects⟩ := selectHeads_ok htargets
    exact ⟨branches, hbranches, hall, (hlist branches targets hcollects).1 hlisted⟩
  · rintro ⟨branches, hbranches, hall, hlisted⟩
    obtain ⟨targets, htargets⟩ := selectHeads_total hall ⟨fun _ => false, fun _ => false⟩
    have hcollects := (selectHeads_ok htargets).2
    refine ⟨_, Except.bind_ok_iff.2
      ⟨branches, hbranches, Except.bind_ok_iff.2 ⟨targets, htargets, rfl⟩⟩, ?_⟩
    exact (hlist branches targets hcollects).2 hlisted

/-! ## The shape of a position -/

theorem validateShape_ok (h : s.validateShape = .ok ()) :
    (s.outcome = dash → s.obligations = dash → s.action = s.phase)
      ∧ (s.outcome ≠ dash → s.action = 'o' ∧ s.obligations = dash)
      ∧ (s.obligations ≠ dash → s.action = 'r') := by
  unfold State.validateShape at h
  split_ifs at h with hongoing hterminal hstable howed
  refine ⟨fun houtcome hnone => ?_, fun hdecided => ⟨?_, ?_⟩, fun howes => ?_⟩
  · exact not_not.1 fun hne => hstable ⟨hnone, houtcome, hne⟩
  · exact not_not.1 fun hne => hterminal ⟨hdecided, .inr (.inr (.inl hne))⟩
  · exact not_not.1 fun hne => hterminal ⟨hdecided, .inr (.inr (.inr hne))⟩
  · exact not_not.1 fun hne => howed ⟨howes, hne⟩

theorem type_ne {a b : String} (ha : event.get "type" = some (.ofString a))
    (hne : a.toList ≠ b.toList) :
    ¬event.get "type" = some (.ofString b) := by
  intro hb
  rw [ha] at hb
  exact hne (Json.str.inj (Option.some.inj hb))

/-! ## Listed places and moves -/

theorem listed_iff :
    Listed manifest s event
      ↔ s.outcome = dash
        ∧ ((s.obligations ≠ dash
            ∧ ∃ actions, removalActions s = .ok actions ∧ ∃ action ∈ actions, ListedAs event action)
          ∨ (s.obligations = dash
            ∧ ((∃ action ∈ placeActions s, ListedAs event action)
              ∨ ((s.phase = 'm' ∨ (s.phase = 'p' ∧ manifest.movementAllowed = true))
                ∧ ∃ action ∈ moveActions manifest s, ListedAs event action)))) := by
  unfold Listed legalActions
  -- an ended game lists nothing, one with obligations lists removals only
  by_cases houtcome : s.outcome = dash
  swap
  · rw [if_pos houtcome]
    constructor
    · rintro ⟨actions, hok, action, hmem, -⟩
      obtain rfl := Except.ok.inj hok
      cases hmem
    · intro h
      exact absurd h.1 houtcome
  rw [if_neg (not_not.2 houtcome), and_iff_right houtcome]
  by_cases hnone : s.obligations = dash
  swap
  · rw [if_pos hnone]
    constructor
    · intro h
      exact .inl ⟨hnone, h⟩
    · rintro (⟨-, h⟩ | ⟨hdash, -⟩)
      · exact h
      · exact absurd hdash hnone
  rw [if_neg (not_not.2 hnone)]
  constructor
  · rintro ⟨actions, hok, action, hmem, hlisted⟩
    obtain rfl := Except.ok.inj hok
    refine .inr ⟨hnone, ?_⟩
    rcases List.mem_append.1 hmem with hplaced | hmoved
    · exact .inl ⟨action, hplaced, hlisted⟩
    · split at hmoved
      · rename_i hphase
        exact .inr ⟨hphase, action, hmoved, hlisted⟩
      · cases hmoved
  · rintro (⟨howes, -⟩ | ⟨-, ⟨action, hmem, hlisted⟩ | ⟨hphase, action, hmem, hlisted⟩⟩)
    · exact absurd hnone howes
    · exact ⟨_, rfl, action, List.mem_append_left _ hmem, hlisted⟩
    · refine ⟨_, rfl, action, List.mem_append_right _ ?_, hlisted⟩
      rw [if_pos hphase]
      exact hmem

theorem listed_place {action : Json} (hmem : action ∈ placeActions s) (h : ListedAs event action) :
    event.get "type" = some (.ofString "place") ∧ (s.phase = 'p' ∧ 0 < s.hands (playerIndex s.side))
      ∧ event.get "actor" = some (ofChar s.side)
      ∧ ∃ index, event.get "at" = some (coordJson index) ∧ s.board index = '.' := by
  unfold placeActions at hmem
  split at hmem
  · rename_i hhand
    obtain ⟨index, hindex, rfl⟩ := List.mem_map.1 hmem
    obtain ⟨hactor, htype, hat⟩ := listedAs_place.1 h
    exact ⟨htype, hhand, hactor, index, hat, by simpa using hindex⟩
  · cases hmem

theorem listed_move {action : Json} (hmem : action ∈ moveActions manifest s)
    (h : ListedAs event action) :
    event.get "type" = some (.ofString "move") ∧ event.get "actor" = some (ofChar s.side)
      ∧ ∃ source target, event.get "from" = some (coordJson source)
        ∧ event.get "to" = some (coordJson target) ∧ s.board source = s.side.toUpper
        ∧ s.board target = '.' ∧ (mayFly manifest s = true ∨ target ∈ ADJACENCY source) := by
  obtain ⟨source, hsource, hmoves⟩ := List.mem_flatMap.1 hmem
  obtain ⟨target, htarget, rfl⟩ := List.mem_map.1 hmoves
  obtain ⟨hactor, htype, hfrom, hto⟩ := listedAs_move.1 h
  have hpiece : s.board source = s.side.toUpper := by simpa using hsource
  have hreach := of_decide_eq_true (List.mem_filter.1 htarget).2
  exact ⟨htype, hactor, source, target, hfrom, hto, hpiece, hreach.1, hreach.2⟩

theorem listed_removal {actions : List Json} {action : Json} (hok : removalActions s = .ok actions)
    (hmem : action ∈ actions) (h : ListedAs event action) :
    event.get "type" = some (.ofString "remove") := by
  obtain ⟨branches, -, -, ⟨index, -, hlisted⟩ | ⟨owner, -, hlisted⟩⟩ :=
    removalActions_listed_iff.1 ⟨actions, hok, action, hmem, h⟩
  · exact (listedAs_boardRemoval.1 hlisted).2.1
  · exact (listedAs_handRemoval.1 hlisted).2.1

theorem listed_place_iff (htype : event.get "type" = some (.ofString "place")) :
    Listed manifest s event
      ↔ s.outcome = dash ∧ s.obligations = dash ∧ (s.phase = 'p' ∧ 0 < s.hands (playerIndex s.side))
        ∧ event.get "actor" = some (ofChar s.side)
        ∧ ∃ index, event.get "at" = some (coordJson index) ∧ s.board index = '.' := by
  rw [listed_iff]
  refine and_congr_right fun _ => ?_
  constructor
  · rintro (⟨-, actions, hok, action, hmem, hlisted⟩ | ⟨hnone,
      ⟨action, hmem, hlisted⟩ | ⟨-, action, hmem, hlisted⟩⟩)
    · exact absurd (listed_removal hok hmem hlisted) (type_ne htype (by decide))
    · exact ⟨hnone, (listed_place hmem hlisted).2⟩
    · exact absurd (listed_move hmem hlisted).1 (type_ne htype (by decide))
  · rintro ⟨hnone, hhand, hactor, index, hat, hempty⟩
    refine .inr ⟨hnone, .inl ⟨placeAction s.side index, ?_, listedAs_place.2 ⟨hactor, htype, hat⟩⟩⟩
    unfold placeActions
    rw [if_pos hhand]
    exact List.mem_map.2 ⟨index, List.mem_filter.2 ⟨List.mem_finRange _, decide_eq_true hempty⟩,
      rfl⟩

theorem listed_move_iff (htype : event.get "type" = some (.ofString "move")) :
    Listed manifest s event
      ↔ s.outcome = dash ∧ s.obligations = dash
        ∧ (s.phase = 'm' ∨ (s.phase = 'p' ∧ manifest.movementAllowed = true))
        ∧ event.get "actor" = some (ofChar s.side)
        ∧ ∃ source target, event.get "from" = some (coordJson source)
          ∧ event.get "to" = some (coordJson target) ∧ s.board source = s.side.toUpper
          ∧ s.board target = '.' ∧ (mayFly manifest s = true ∨ target ∈ ADJACENCY source) := by
  rw [listed_iff]
  refine and_congr_right fun _ => ?_
  constructor
  · rintro (⟨-, actions, hok, action, hmem, hlisted⟩ | ⟨hnone,
      ⟨action, hmem, hlisted⟩ | ⟨hphase, action, hmem, hlisted⟩⟩)
    · exact absurd (listed_removal hok hmem hlisted) (type_ne htype (by decide))
    · exact absurd (listed_place hmem hlisted).1 (type_ne htype (by decide))
    · exact ⟨hnone, hphase, (listed_move hmem hlisted).2⟩
  · rintro ⟨hnone, hphase, hactor, source, target, hfrom, hto, hpiece, hempty, hreach⟩
    refine .inr ⟨hnone, .inr ⟨hphase, moveAction s.side source target, ?_,
      listedAs_move.2 ⟨hactor, htype, hfrom, hto⟩⟩⟩
    refine List.mem_flatMap.2 ⟨source, ?_, List.mem_map.2 ⟨target, ?_, rfl⟩⟩
    · exact List.mem_filter.2 ⟨List.mem_finRange _, decide_eq_true hpiece⟩
    · exact List.mem_filter.2 ⟨List.mem_finRange _, decide_eq_true ⟨hempty, hreach⟩⟩

theorem listed_remove_iff (htype : event.get "type" = some (.ofString "remove")) :
    Listed manifest s event
      ↔ s.outcome = dash ∧ s.obligations ≠ dash
        ∧ ∃ actions, removalActions s = .ok actions
          ∧ ∃ action ∈ actions, ListedAs event action := by
  rw [listed_iff]
  refine and_congr_right fun _ => ?_
  constructor
  · rintro (h | ⟨-, ⟨action, hmem, hlisted⟩ | ⟨-, action, hmem, hlisted⟩⟩)
    · exact h
    · exact absurd (listed_place hmem hlisted).1 (type_ne htype (by decide))
    · exact absurd (listed_move hmem hlisted).1 (type_ne htype (by decide))
  · intro h
    exact .inl h

/-! ## The engine and the list -/

/-- A board obligation that is in order in every branch, or a position that the projection refuses
and whose obligations the engine finds no piece for. -/
def RemovalsAgree (s : State) : Prop :=
  s.outcome = dash → s.obligations ≠ dash →
    ∀ branches, parseObligationBranches s.obligations = .ok branches →
      (∀ head ∈ heads branches, Selectable s head ∧ head.zone = 'b')
        ∨ ((∃ head ∈ heads branches, ¬Selectable s head) ∧ ∀ index, ¬Removable s branches index)

namespace Engine

variable {engine : Engine} {seq : Nat}

theorem applyEvent_place (htype : event.get "type" = some (.ofString "place")) :
    engine.applyEvent event seq = engine.applyPlace event
      ((memberText event "actor").getD []) seq := by
  have hmember : memberText event "type" = some "place".toList := memberText_eq_some_iff.2 htype
  have hname : eventType event = some .place := by
    unfold eventType
    rw [hmember]
    decide
  unfold applyEvent
  rw [hmember, hname]

theorem applyEvent_move (htype : event.get "type" = some (.ofString "move")) :
    engine.applyEvent event seq = engine.applyMove event
      ((memberText event "actor").getD []) seq := by
  have hmember : memberText event "type" = some "move".toList := memberText_eq_some_iff.2 htype
  have hname : eventType event = some .move := by
    unfold eventType
    rw [hmember]
    decide
  unfold applyEvent
  rw [hmember, hname]

theorem applyEvent_remove (htype : event.get "type" = some (.ofString "remove")) :
    engine.applyEvent event seq = engine.applyRemove event
      ((memberText event "actor").getD []) seq := by
  have hmember : memberText event "type" = some "remove".toList := memberText_eq_some_iff.2 htype
  have hname : eventType event = some .remove := by
    unfold eventType
    rw [hmember]
    decide
  unfold applyEvent
  rw [hmember, hname]

theorem get_type_of_isAction (h : isAction event = true) :
    event.get "type" = some (.ofString "place") ∨ event.get "type" = some (.ofString "move")
      ∨ event.get "type" = some (.ofString "remove") := by
  unfold isAction at h
  rw [Bool.or_eq_true, isPrimary_iff, isRemove_iff] at h
  rcases h with (hplace | hmove) | hremove
  · exact .inl (memberText_eq_some_iff.1 hplace)
  · exact .inr (.inl (memberText_eq_some_iff.1 hmove))
  · exact .inr (.inr (memberText_eq_some_iff.1 hremove))

/-- The first obligation that has a target, among obligations of the player that are in order. -/
theorem removable_of_selectable {branches : List (List Obligation)} {index : Point}
    (hall : ∀ head ∈ heads branches, Selectable s head ∧ head.zone = 'b')
    (hmem : ∃ head ∈ heads branches, head.targets.getLsbD index.val = true) :
    Removable s branches index := by
  obtain ⟨head, hhead, hbit⟩ := hmem
  obtain ⟨found, hfound⟩ : ∃ found, (heads branches).find? (fun head =>
      head.actor = s.side ∧ head.targets.getLsbD index.val) = some found := by
    refine Option.isSome_iff_exists.1 (List.find?_isSome.2 ⟨head, hhead, ?_⟩)
    exact decide_eq_true ⟨(hall head hhead).1.1, hbit⟩
  have htarget : found.actor = s.side ∧ found.targets.getLsbD index.val = true := by
    simpa using List.find?_some hfound
  obtain ⟨⟨-, -, hzone⟩, hboard⟩ := hall found (List.mem_of_find?_eq_some hfound)
  refine ⟨found, hfound, ?_⟩
  rcases hzone with ⟨-, -, howner⟩ | ⟨hhand, -⟩
  · exact howner index htarget.2
  · rw [hboard] at hhand
    exact absurd hhand (by decide)

/-- An engine at a position that the projection accepts. -/
structure Stands (manifest : Manifest) (s : State) (engine : Engine) : Prop where
  state : engine.state = s
  shape : s.validateShape = .ok ()
  rules : engine.manifest = manifest
  checked : manifest.Checked
  room : engine.repetitionHistory.length < MAX_REPETITION_ENTRIES

variable (h : Stands manifest s engine)

include h

theorem place_agrees (htype : event.get "type" = some (.ofString "place")) :
    Listed manifest s event ↔ ∃ after, engine.applyEvent event seq = .ok after := by
  obtain ⟨hstable, hdecided, -⟩ := validateShape_ok h.shape
  rw [listed_place_iff htype, applyEvent_place htype,
    applyPlace_accepts_iff (h.rules.symm ▸ h.checked) h.room, actor_eq_iff, h.state]
  constructor
  · rintro ⟨houtcome, hnone, ⟨hphase, hhand⟩, hactor, index, hat, hempty⟩
    exact ⟨hactor, (hstable houtcome hnone).trans hphase, hnone, index, hat, hempty,
      Nat.ne_of_gt hhand⟩
  · rintro ⟨hactor, haction, hnone, index, hat, hempty, hhand⟩
    have houtcome : s.outcome = dash := by
      by_contra hne
      rw [(hdecided hne).1] at haction
      exact absurd haction (by decide)
    have hphase := (hstable houtcome hnone).symm.trans haction
    exact ⟨houtcome, hnone, ⟨hphase, Nat.pos_of_ne_zero hhand⟩, hactor, index, hat, hempty⟩

theorem move_agrees (htype : event.get "type" = some (.ofString "move")) :
    Listed manifest s event ↔ ∃ after, engine.applyEvent event seq = .ok after := by
  obtain ⟨hstable, hdecided, -⟩ := validateShape_ok h.shape
  have hfly : engine.flying s.side = mayFly manifest s := by
    unfold flying mayFly
    rw [h.state, h.rules]
  rw [listed_move_iff htype, applyEvent_move htype,
    applyMove_accepts_iff (h.rules.symm ▸ h.checked) h.room, actor_eq_iff, h.state, h.rules, hfly]
  constructor
  · rintro ⟨houtcome, hnone, hphase, hactor, hmove⟩
    rw [← hstable houtcome hnone] at hphase
    exact ⟨hactor, hphase, hnone, hmove⟩
  · rintro ⟨hactor, haction, hnone, hmove⟩
    have houtcome : s.outcome = dash := by
      by_contra hne
      rw [(hdecided hne).1] at haction
      rcases haction with hmoving | ⟨hplacing, -⟩
      · exact absurd hmoving (by decide)
      · exact absurd hplacing (by decide)
    rw [hstable houtcome hnone] at haction
    exact ⟨houtcome, hnone, haction, hactor, hmove⟩

theorem remove_accepts_iff (htype : event.get "type" = some (.ofString "remove")) (seq : Nat) :
    (∃ after, engine.applyEvent event seq = .ok after)
      ↔ s.outcome = dash ∧ s.obligations ≠ dash
        ∧ ∃ branches, parseObligationBranches s.obligations = .ok branches
          ∧ ∃ index, Removable s branches index ∧ ListedAs event (boardRemoval s.side index) := by
  obtain ⟨-, hdecided, howes⟩ := validateShape_ok h.shape
  rw [applyEvent_remove htype, applyRemove_accepts_iff (h.rules.symm ▸ h.checked) h.room,
    actor_eq_iff,
    h.state]
  constructor
  · rintro ⟨hactor, haction, hne, target, index, branches, htarget, hzone, hat,
      hbranches, hremovable⟩
    have houtcome : s.outcome = dash := by
      by_contra hover
      rw [(hdecided hover).1] at haction
      exact absurd haction (by decide)
    exact ⟨houtcome, hne, branches, hbranches, index, hremovable,
      listedAs_boardRemoval.2 ⟨hactor, htype, target, htarget, hzone, hat⟩⟩
  · rintro ⟨-, hne, branches, hbranches, index, hremovable, hlisted⟩
    obtain ⟨hactor, -, target, htarget, hzone, hat⟩ := listedAs_boardRemoval.1 hlisted
    exact ⟨hactor, howes hne, hne, target, index, branches, htarget, hzone, hat,
      hbranches, hremovable⟩

theorem removals_agree (hagree : RemovalsAgree s)
    (htype : event.get "type" = some (.ofString "remove")) :
    Listed manifest s event ↔ ∃ after, engine.applyEvent event seq = .ok after := by
  rw [listed_remove_iff htype, remove_accepts_iff h htype seq, removalActions_listed_iff]
  refine and_congr_right fun houtcome => and_congr_right fun howes => ?_
  constructor
  · rintro ⟨branches, hbranches, hall, hlisted⟩
    rcases hagree houtcome howes branches hbranches with hboard | ⟨⟨head, hhead, hrefused⟩, -⟩
    · rcases hlisted with ⟨index, ⟨head, hhead, -, hbit⟩, hlisted⟩ | ⟨owner,
          ⟨head, hhead, hzone, -⟩, -⟩
      · exact ⟨branches, hbranches, index,
          removable_of_selectable hboard ⟨head, hhead, hbit⟩, hlisted⟩
      · rw [(hboard head hhead).2] at hzone
        exact absurd hzone (by decide)
    · exact absurd (hall head hhead) hrefused
  · rintro ⟨branches, hbranches, index, hremovable, hlisted⟩
    rcases hagree houtcome howes branches hbranches with hboard | ⟨-, hnone⟩
    · obtain ⟨head, hfound, -⟩ := hremovable
      have hhead := List.mem_of_find?_eq_some hfound
      have htarget : head.actor = s.side ∧ head.targets.getLsbD index.val = true := by
        simpa using List.find?_some hfound
      refine ⟨branches, hbranches, fun head hmem => (hboard head hmem).1, .inl ⟨index, ?_, hlisted⟩⟩
      exact ⟨head, hhead, (hboard head hhead).2, htarget.2⟩
    · exact absurd hremovable (hnone index)

theorem not_accepts_hand {target : Json} (htype : event.get "type" = some (.ofString "remove"))
    (htarget : event.get "target" = some target)
    (hzone : target.get "zone" = some (.ofString "hand")) :
    ¬∃ after, engine.applyEvent event seq = .ok after := by
  intro haccepted
  obtain ⟨-, -, -, -, index, -, hboard⟩ := (remove_accepts_iff h htype seq).1 haccepted
  obtain ⟨-, -, target', htarget', hzone', -⟩ := listedAs_boardRemoval.1 hboard
  obtain rfl : target = target' := Option.some.inj (htarget.symm.trans htarget')
  rw [hzone] at hzone'
  exact absurd (Json.str.inj (Option.some.inj hzone')) (by decide)

/-- Where the list and the engine agree on removals, the obligations are in order. -/
theorem removalsAgree_of_agree (seq : Nat)
    (hagree : ∀ event : Json, event.get "type" = some (.ofString "remove") →
    (Listed manifest s event ↔ ∃ after, engine.applyEvent event seq = .ok after)) :
    RemovalsAgree s := by
  intro houtcome howes branches hbranches
  by_cases hall : ∀ head ∈ heads branches, Selectable s head
  · left
    intro head hhead
    refine ⟨hall head hhead, ?_⟩
    by_contra hzone
    -- a removal from a hand is listed, and the engine knows of none
    obtain ⟨-, -, ⟨hboard, -⟩ | ⟨hhand, -, -⟩⟩ := hall head hhead
    · exact hzone hboard
    have hself : ListedAs (handRemoval s.side (playerIndex head.owner))
        (handRemoval s.side (playerIndex head.owner)) := by
      intro name member hget
      split
      · rename_i hname
        rw [hname] at hget
        exact ⟨member, hget, fun _ _ hsame => hsame⟩
      · exact hget
    have htype := (listedAs_handRemoval.1 hself).2.1
    have hlisted : Listed manifest s (handRemoval s.side (playerIndex head.owner)) :=
      (listed_remove_iff htype).2 ⟨houtcome, howes, removalActions_listed_iff.2
        ⟨branches, hbranches, hall, .inr ⟨_, ⟨head, hhead, hhand, rfl⟩, hself⟩⟩⟩
    obtain ⟨-, -, target, htarget, hzone', -⟩ := listedAs_handRemoval.1 hself
    exact not_accepts_hand h htype htarget hzone' ((hagree _ htype).1 hlisted)
  · right
    push Not at hall
    refine ⟨hall, fun index hremovable => ?_⟩
    obtain ⟨head, hhead, hrefused⟩ := hall
    have hself : ListedAs (boardRemoval s.side index) (boardRemoval s.side index) := by
      intro name member hget
      split
      · rename_i hname
        rw [hname] at hget
        exact ⟨member, hget, fun _ _ hsame => hsame⟩
      · exact hget
    have htype := (listedAs_boardRemoval.1 hself).2.1
    have haccepted := (remove_accepts_iff h htype seq).2
      ⟨houtcome, howes, branches, hbranches, index, hremovable, hself⟩
    obtain ⟨-, -, hlisted⟩ := (listed_remove_iff htype).1 ((hagree _ htype).2 haccepted)
    obtain ⟨branches', hbranches', hselectable, -⟩ := removalActions_listed_iff.1 hlisted
    obtain rfl : branches = branches' := Except.ok.inj (hbranches.symm.trans hbranches')
    exact hrefused (hselectable head hhead)

theorem agree_iff :
    (∀ (event : Json) (seq : Nat), isAction event = true →
      (Listed manifest s event ↔ ∃ after, engine.applyEvent event seq = .ok after))
      ↔ RemovalsAgree s := by
  constructor
  · intro hagree
    refine removalsAgree_of_agree h 1 fun event htype => hagree event 1 ?_
    unfold isAction isRemove
    rw [memberText_eq_some_iff.2 htype, Bool.or_eq_true]
    right
    decide
  · intro hagree event seq haction
    rcases get_type_of_isAction haction with htype | htype | htype
    · exact place_agrees h htype
    · exact move_agrees h htype
    · exact removals_agree h hagree htype

omit h

theorem projectionState_stands {current : Text}
    (hmanifest : Manifest.new identity value = .ok manifest)
    (hstate : projectionState identity manifest current = .ok s) :
    ∃ engine, Engine.new identity manifest current [] [] = .ok engine
      ∧ Stands manifest s engine := by
  obtain ⟨engine, hnew, hsame, hshape, hrules, hroom⟩ := projectionState_engine hstate
  exact ⟨engine, hnew, hsame, hshape, hrules, Manifest.new_checked hmanifest, hroom⟩

/-- The places and moves of the list are those that the engine accepts, and so are the removals
where the obligations are in order; the engine accepts no removal from a hand. -/
theorem legalActions_agree {current : Text} (hmanifest : Manifest.new identity value = .ok manifest)
    (hstate : projectionState identity manifest current = .ok s) :
    ∃ engine, Engine.new identity manifest current [] [] = .ok engine ∧ engine.state = s
      ∧ (∀ (event : Json) (seq : Nat), isPrimary event = true →
        (Listed manifest s event ↔ ∃ after, engine.applyEvent event seq = .ok after))
      ∧ (RemovalsAgree s → ∀ (event : Json) (seq : Nat), isRemove event = true →
        (Listed manifest s event ↔ ∃ after, engine.applyEvent event seq = .ok after))
      ∧ ∀ (owner : Fin 2) (event : Json) (seq : Nat), ListedAs event (handRemoval s.side owner) →
        ¬∃ after, engine.applyEvent event seq = .ok after := by
  obtain ⟨engine, hnew, hstands⟩ := projectionState_stands hmanifest hstate
  refine ⟨engine, hnew, hstands.state, ?_, ?_, ?_⟩
  · intro event seq hprimary
    have haction : isAction event = true := by
      unfold isAction
      rw [hprimary, Bool.true_or]
    rcases get_type_of_isAction haction with htype | htype | htype
    · exact place_agrees hstands htype
    · exact move_agrees hstands htype
    · have hremove : isRemove event = true := by
        unfold isRemove
        rw [memberText_eq_some_iff.2 htype]
        decide
      rw [not_isRemove_of_isPrimary hprimary] at hremove
      cases hremove
  · intro hagree event seq hremove
    exact (agree_iff hstands).2 hagree event seq (isAction_of_isRemove hremove)
  · intro owner event seq hhand haccepted
    obtain ⟨-, htype, target, htarget, hzone, -⟩ := listedAs_handRemoval.1 hhand
    exact not_accepts_hand hstands htype htarget hzone haccepted

/-! ## Two positions -/

/-- The digests of the decisions that occur below. -/
def listDigest (decision : Json) : Text :=
  if decision.get "obligations" = some (.ofString "w:mill:h:b:1:-:b") then
    "sha256:208e1d291e3865cf18ad4333948fe3961b7e3692035a5fea0918e5a57ef2b354".toList
  else turnDigest decision

def listIdentity : Identity := { sampleIdentity with digestJson := listDigest }

/-- White has closed a mill and removes a piece from the board. -/
def boardPosition : Text :=
  "MFEN/1.0 mill24-state-v1 WWW...../B.B.B.../........ w m r 0,0 w:mill:b:b:1:001500:b 0 1 -".toList

/-- White is to remove a piece from Black's hand. -/
def handPosition : Text :=
  "MFEN/1.0 mill24-state-v1 WWW...../B.B.B.../........ w p r 0,1 w:mill:h:b:1:-:b 0 1 -".toList

def millObligation (zone : Char) (targets : BitVec 32) : Obligation where
  actor := 'w'
  cause := "mill".toList
  zone := zone
  owner := 'b'
  remaining := 1
  targets := targets
  targetsDeferred := false
  after := 'b'

/-- The manifest and the state of a position. -/
def accepted (current : Text) : Result (Manifest × State) := do
  let manifest ← Manifest.new listIdentity sampleManifest
  let state ← projectionState listIdentity manifest current
  .ok (manifest, state)

/-- The obligation that a position is about. -/
theorem accepted_obligation (current : Text) (zone : Char) (targets : BitVec 32)
    (h : (accepted current).map (fun found => (found.2.outcome = dash && found.2.obligations ≠ dash
        && parseObligationBranches found.2.obligations = .ok [[millObligation zone targets]]
        && Selectable found.2 (millObligation zone targets) : Bool)) = .ok true) :
    ∃ manifest s, Manifest.new listIdentity sampleManifest = .ok manifest
      ∧ projectionState listIdentity manifest current = .ok s ∧ s.outcome = dash
        ∧ s.obligations ≠ dash
      ∧ parseObligationBranches s.obligations = .ok [[millObligation zone targets]]
      ∧ Selectable s (millObligation zone targets) := by
  cases hfound : accepted current with
  | error diagnostic =>
    rw [hfound] at h
    cases h
  | ok found =>
    rw [hfound] at h
    obtain ⟨manifest, hmanifest, hok⟩ := Except.bind_ok_iff.1 hfound
    obtain ⟨s, hstate, hok⟩ := Except.bind_ok_iff.1 hok
    obtain rfl := Except.ok.inj hok
    have hfacts := Except.ok.inj h
    simp only [Bool.and_eq_true, decide_eq_true_iff] at hfacts
    obtain ⟨⟨⟨houtcome, howes⟩, hbranches⟩, hselectable⟩ := hfacts
    exact ⟨manifest, s, hmanifest, hstate, houtcome, howes, hbranches, hselectable⟩

/-- Where a single mill is owed for, the list and the engine agree on every action. -/
theorem legalActions_agree_board :
    ∃ manifest s engine, Manifest.new listIdentity sampleManifest = .ok manifest
      ∧ projectionState listIdentity manifest boardPosition = .ok s
      ∧ Engine.new listIdentity manifest boardPosition [] [] = .ok engine
      ∧ ∀ (event : Json) (seq : Nat), isAction event = true →
        (Listed manifest s event ↔ ∃ after, engine.applyEvent event seq = .ok after) := by
  obtain ⟨manifest, s, hmanifest, hstate, -, -, hbranches, hselectable⟩ :=
    accepted_obligation boardPosition 'b' 0x1500
      (by decide +kernel)
  obtain ⟨engine, hnew, -, hprimary, hremove, -⟩ := legalActions_agree hmanifest hstate
  have hagree : RemovalsAgree s := by
    intro _ _ branches hparsed
    obtain rfl : [[millObligation 'b' 0x1500]] = branches :=
      Except.ok.inj (hbranches.symm.trans hparsed)
    left
    intro head hmem
    obtain rfl := List.mem_singleton.1 hmem
    exact ⟨hselectable, rfl⟩
  refine ⟨manifest, s, engine, hmanifest, hstate, hnew, fun event seq haction => ?_⟩
  unfold isAction at haction
  rw [Bool.or_eq_true] at haction
  rcases haction with hplaced | hremoves
  · exact hprimary event seq hplaced
  · exact hremove hagree event seq hremoves

/-- A removal from the hand is listed, and the engine refuses it. -/
theorem legalActions_disagree_hand :
    ¬∀ (current : Text) (manifest : Manifest) (s : State) (engine : Engine),
      Manifest.new listIdentity sampleManifest = .ok manifest →
      projectionState listIdentity manifest current = .ok s →
      Engine.new listIdentity manifest current [] [] = .ok engine →
      ∀ (event : Json) (seq : Nat), isAction event = true →
        (Listed manifest s event ↔ ∃ after, engine.applyEvent event seq = .ok after) := by
  intro hclaim
  obtain ⟨manifest, s, hmanifest, hstate, houtcome, howes, hbranches, hselectable⟩ :=
    accepted_obligation handPosition 'h' 0
      (by decide +kernel)
  obtain ⟨engine, hnew, hstands⟩ := projectionState_stands hmanifest hstate
  have hagree := (agree_iff hstands).1 (hclaim _ manifest s engine hmanifest hstate hnew)
  rcases hagree houtcome howes _ hbranches with hboard | ⟨⟨head, hmem, hrefused⟩, -⟩
  · exact absurd (hboard (millObligation 'h' 0) List.mem_cons_self).2 (by decide)
  · obtain rfl := List.mem_singleton.1 hmem
    exact hrefused hselectable

end Engine

end Sanmill.Mif
