import Sanmill.Proof.Capacity
import Sanmill.Proof.PerfectDb.DbPlay

/-!
# What the database's view of a position forgets

A state rebuilt from a query has the board, the hands, the side to move and the obligation of
the state the query was made from. Its phase is placing while either hand holds a piece; the
phase of a state of play is that of the active side's hand. The two differ for a side that has
placed all its pieces before its opponent has, and this shows when the side may fly.
-/

namespace Sanmill.PerfectDb

open Bits

variable {options : MillVariantOptions} {r : MillRules} {s t u : MillState} {c : Side} {n : Node}
  {a : Action}

/-! ## Coordinates -/

theorem nodeToPerfectIndex_lt (n : Node) : nodeToPerfectIndex n < 24 := by
  revert n
  decide

theorem nodeToPerfectIndex_inj {m n : Node} (h : nodeToPerfectIndex m = nodeToPerfectIndex n) :
    m = n := by
  revert m n
  decide

/-- The two tables are inverse to each other. -/
theorem perfectToNodeIndex_eq_iff (i : Fin 24) (n : Node) :
    perfectToNodeIndex i = n ↔ nodeToPerfectIndex n = i := by
  revert i n
  decide +kernel

example : (List.finRange 24).map (fun i => nodeToPerfectIndex (perfectToNodeIndex i))
    = List.range 24 := by decide +kernel

/-! ## From a state to its query -/

theorem toI8_cases (c : Side) : c.toI8 = 0 ∨ c.toI8 = 1 := by
  revert c
  decide

/-- Which bits the scan of the board sets. -/
theorem testBit_bitboardsFromState (s : MillState) (i : Nat) :
    ((bitboardsFromState s).1.testBit i = true
        ↔ ∃ n : Node, nodeToPerfectIndex n = i ∧ s.board n = 1)
      ∧ ((bitboardsFromState s).2.testBit i = true
        ↔ ∃ n : Node, nodeToPerfectIndex n = i ∧ s.board n = 2) := by
  have hmask : ∀ j : Nat, (1 <<< j).testBit i = decide (j = i) := by
    intro j
    rw [Nat.one_shiftLeft, Nat.testBit_two_pow]
  -- the scan over a list of nodes, from any masks
  have hscan : ∀ (l : List Node) (bits : Nat × Nat),
      ((l.foldl (fun (bits : Nat × Nat) (node : Node) =>
          let mask := 1 <<< nodeToPerfectIndex node
          if s.board node = 1 then (bits.1 ||| mask, bits.2)
          else if s.board node = 2 then (bits.1, bits.2 ||| mask)
          else bits) bits).1.testBit i = true
        ↔ bits.1.testBit i = true ∨ ∃ n ∈ l, nodeToPerfectIndex n = i ∧ s.board n = 1)
      ∧ ((l.foldl (fun (bits : Nat × Nat) (node : Node) =>
          let mask := 1 <<< nodeToPerfectIndex node
          if s.board node = 1 then (bits.1 ||| mask, bits.2)
          else if s.board node = 2 then (bits.1, bits.2 ||| mask)
          else bits) bits).2.testBit i = true
        ↔ bits.2.testBit i = true ∨ ∃ n ∈ l, nodeToPerfectIndex n = i ∧ s.board n = 2) := by
    intro l
    induction l with
    | nil => simp
    | cons m l ih =>
      intro bits
      rw [List.foldl_cons]
      refine ⟨(ih _).1.trans ?_, (ih _).2.trans ?_⟩
      all_goals
        by_cases h1 : s.board m = 1
        · simp [h1, hmask, or_assoc]
        · by_cases h2 : s.board m = 2
          · simp [h2, hmask, or_assoc]
          · simp [h1, h2]
  have h := hscan (List.finRange 24) (0, 0)
  simp only [Nat.zero_testBit, Bool.false_eq_true, false_or, List.mem_finRange, true_and] at h
  exact h

theorem bitboardsFromState_lt (s : MillState) :
    (bitboardsFromState s).1 < 2 ^ 24 ∧ (bitboardsFromState s).2 < 2 ^ 24 := by
  constructor
  · refine Nat.lt_pow_two_of_testBit _ fun i hi => ?_
    rw [Bool.eq_false_iff]
    intro hset
    obtain ⟨n, hn, -⟩ := (testBit_bitboardsFromState s i).1.1 hset
    have := nodeToPerfectIndex_lt n
    omega
  · refine Nat.lt_pow_two_of_testBit _ fun i hi => ?_
    rw [Bool.eq_false_iff]
    intro hset
    obtain ⟨n, hn, -⟩ := (testBit_bitboardsFromState s i).2.1 hset
    have := nodeToPerfectIndex_lt n
    omega

theorem bitboardsFromState_disjoint (s : MillState) :
    (bitboardsFromState s).1 &&& (bitboardsFromState s).2 = 0 := by
  refine Nat.eq_of_testBit_eq fun i => ?_
  rw [Nat.testBit_and, Nat.zero_testBit, Bool.and_eq_false_iff, ← Bool.not_eq_true,
    ← Bool.not_eq_true, ← not_and_or]
  rintro ⟨hwhite, hblack⟩
  obtain ⟨m, hm, hone⟩ := (testBit_bitboardsFromState s i).1.1 hwhite
  obtain ⟨n, hn, htwo⟩ := (testBit_bitboardsFromState s i).2.1 hblack
  have hmn := nodeToPerfectIndex_inj (hm.trans hn.symm)
  rw [hmn, htwo] at hone
  exact absurd hone (by decide)

/-- The fields of a query, as read off a state. -/
structure QueryOf (s : MillState) (c : Side) (query : PerfectQuery) : Prop where
  white : ∀ n : Node, query.whiteBits.testBit (nodeToPerfectIndex n) = true ↔ s.board n = 1
  black : ∀ n : Node, query.blackBits.testBit (nodeToPerfectIndex n) = true ↔ s.board n = 2
  hands : perSide query.whiteInHand query.blackInHand = s.piecesInHand
  side : query.sideToMove = c.val
  owes : query.onlyStoneTaking = decide (0 < s.pendingRemovals c)

theorem queryFromState_eq (hvariant : (DatabaseVariant.fromMillOptions options).isNone = false)
    (hhands : ∀ x, s.piecesInHand x ≤ 12) (c : Side) :
    ∃ query, queryFromState s options c.toI8 = some (some query) ∧ QueryOf s c query := by
  have hside := toI8_cases c
  have hbits := bitboardsFromState_lt s
  -- every assertion of `PerfectQuery::new` holds of a state
  have hvalid : (bitboardsFromState s).1 < 2 ^ 24 ∧ (bitboardsFromState s).2 < 2 ^ 24
      ∧ (bitboardsFromState s).1 &&& (bitboardsFromState s).2 = 0 ∧ c.val ≤ 1
      ∧ s.piecesInHand 0 ≤ 12 ∧ s.piecesInHand 1 ≤ 12 :=
    ⟨hbits.1, hbits.2, bitboardsFromState_disjoint s, by omega, hhands 0, hhands 1⟩
  unfold queryFromState PerfectQuery.new
  simp only [hvariant, Bool.false_eq_true, if_false, hside, not_true_eq_false,
    Side.sideIndex_toI8, dif_pos hvalid, Option.map_some, Option.some.injEq, exists_eq_left']
  exact
    { white := fun n => by
        rw [(testBit_bitboardsFromState s _).1]
        constructor
        · rintro ⟨m, hm, hone⟩
          rwa [nodeToPerfectIndex_inj hm] at hone
        · exact fun hone => ⟨n, rfl, hone⟩
      black := fun n => by
        rw [(testBit_bitboardsFromState s _).2]
        constructor
        · rintro ⟨m, hm, htwo⟩
          rwa [nodeToPerfectIndex_inj hm] at htwo
        · exact fun htwo => ⟨n, rfl, htwo⟩
      hands := by
        funext x
        rcases Side.eq_or_eq_opponent 0 x with rfl | rfl
        · rfl
        · rfl
      side := rfl
      owes := rfl }

/-! ## From a query to a state -/

/-- The code a query puts on a node. -/
def queryPiece (query : PerfectQuery) (board : Node → Int) (n : Node) : Int :=
  if query.whiteBits.testBit (nodeToPerfectIndex n) = true then 1
  else if query.blackBits.testBit (nodeToPerfectIndex n) = true then 2
  else board n

/-- One `set_piece` call. -/
theorem placeQueryPiece_eq (s : MillState) (query : PerfectQuery) (i : Fin 24) :
    ∃ masks, (if query.whiteBits.testBit i then s.setPiece (perfectToNodeIndex i) 1
        else if query.blackBits.testBit i then s.setPiece (perfectToNodeIndex i) 2 else s)
      = { s with
          board := fun n =>
            if nodeToPerfectIndex n = i then queryPiece query s.board n else s.board n
          byColorBb := masks } := by
  have hwrite : ∀ piece : Int,
      (∀ n : Node, nodeToPerfectIndex n = i → queryPiece query s.board n = piece) →
      setAt s.board (perfectToNodeIndex i) piece
        = fun n => if nodeToPerfectIndex n = i then queryPiece query s.board n else s.board n := by
    intro piece hpiece
    funext n
    by_cases hn : nodeToPerfectIndex n = i
    · rw [(perfectToNodeIndex_eq_iff i n).2 hn, setAt_self, if_pos hn, hpiece n hn]
    · rw [setAt_of_ne fun h => hn ((perfectToNodeIndex_eq_iff i n).1 h.symm), if_neg hn]
  -- white, black or empty, as the loop of the source asks
  by_cases hwhite : query.whiteBits.testBit i = true
  · refine ⟨(s.setBoardNode (perfectToNodeIndex i) 1).byColorBb, ?_⟩
    rw [if_pos hwhite, ← hwrite 1 fun n hn => by
      unfold queryPiece
      rw [hn, if_pos hwhite]]
    rfl
  · rw [if_neg hwhite]
    by_cases hblack : query.blackBits.testBit i = true
    · refine ⟨(s.setBoardNode (perfectToNodeIndex i) 2).byColorBb, ?_⟩
      rw [if_pos hblack, ← hwrite 2 fun n hn => by
        unfold queryPiece
        rw [hn, if_neg hwhite, if_pos hblack]]
      rfl
    · refine ⟨s.byColorBb, ?_⟩
      rw [if_neg hblack]
      have hsame : (fun n : Node =>
          if nodeToPerfectIndex n = i then queryPiece query s.board n else s.board n)
          = s.board := by
        funext n
        by_cases hn : nodeToPerfectIndex n = i
        · unfold queryPiece
          rw [if_pos hn, hn, if_neg hwhite, if_neg hblack]
        · rw [if_neg hn]
      rw [hsame]

/-- The `set_piece` calls write the board and its masks. -/
theorem placeQueryPieces_eq (s : MillState) (query : PerfectQuery) :
    ∃ masks, placeQueryPieces s query
      = { s with board := queryPiece query s.board, byColorBb := masks } := by
  -- after the calls of a list of indices
  have hcalls : ∀ (l : List (Fin 24)) (s : MillState), ∃ masks,
      l.foldl (fun (state : MillState) (perfectIdx : Fin 24) =>
          if query.whiteBits.testBit perfectIdx then
            state.setPiece (perfectToNodeIndex perfectIdx) 1
          else if query.blackBits.testBit perfectIdx then
            state.setPiece (perfectToNodeIndex perfectIdx) 2
          else state) s
        = { s with
            board := fun n =>
              if ∃ i ∈ l, nodeToPerfectIndex n = i then queryPiece query s.board n else s.board n
            byColorBb := masks } := by
    intro l
    induction l with
    | nil => exact fun s => ⟨s.byColorBb, by simp⟩
    | cons i l ih =>
      intro s
      rw [List.foldl_cons]
      obtain ⟨masks, hcall⟩ := placeQueryPiece_eq s query i
      rw [hcall]
      obtain ⟨masks', heq⟩ := ih { s with
        board := fun n =>
          if nodeToPerfectIndex n = i then queryPiece query s.board n else s.board n
        byColorBb := masks }
      refine ⟨masks', heq.trans ?_⟩
      -- a node is written once, and keeps what has been written
      have hboard : (fun n : Node =>
          if ∃ j ∈ l, nodeToPerfectIndex n = j then
            queryPiece query (fun n =>
              if nodeToPerfectIndex n = i then queryPiece query s.board n else s.board n) n
          else if nodeToPerfectIndex n = i then queryPiece query s.board n else s.board n)
          = fun n =>
            if ∃ j ∈ i :: l, nodeToPerfectIndex n = j then queryPiece query s.board n
            else s.board n := by
        funext n
        by_cases hi : nodeToPerfectIndex n = i
        · unfold queryPiece
          simp only [hi, if_true, List.mem_cons, exists_eq_or_imp, true_or]
          split_ifs <;> rfl
        · unfold queryPiece
          simp only [hi, if_false, List.mem_cons, exists_eq_or_imp, false_or]
      simp only [hboard]
  obtain ⟨masks, heq⟩ := hcalls (List.finRange 24) s
  refine ⟨masks, heq.trans ?_⟩
  have hall : ∀ n : Node, ∃ i ∈ List.finRange 24, nodeToPerfectIndex n = i := fun n =>
    ⟨⟨nodeToPerfectIndex n, nodeToPerfectIndex_lt n⟩, List.mem_finRange _, rfl⟩
  simp only [hall, if_true]

/-- A state rebuilt from the view that `c` has of `s`. -/
structure Rebuilt (s : MillState) (c : Side) (u : MillState) : Prop where
  board : u.board = s.board
  masks : u.byColorBb = s.byColorBb
  unmarked : u.delayedMarkedPieces = 0
  onBoard : u.piecesOnBoard = s.piecesOnBoard
  hands : u.piecesInHand = s.piecesInHand
  active : u.sideToMove = c.toI8
  action : u.action = .place
  phase : u.phase = if 0 < s.piecesInHand 0 ∨ 0 < s.piecesInHand 1 then .placing else .moving
  owed : u.pendingRemovals = setAt (fun _ => 0) c (if 0 < s.pendingRemovals c then 1 else 0)
  noCaptures : ∀ x, CapturesEmpty u.toMillCaptures x
  noOwnPiece : ∀ x, u.flags.removeOwnPiece x = false
  noStalemate : u.flags.stalemateRemoving = false
  noBoth : u.flags.bothStalemateRemoving = false

/-- Without marks, the counts on the board are those of the piece codes. -/
theorem countPieces_eq (hpos : PositionInv options s.toMillPosition)
    (hunmarked : s.delayedMarkedPieces = 0) :
    perSide (MillState.countPieces s.board 1) (MillState.countPieces s.board 2)
      = s.piecesOnBoard := by
  have hcount : ∀ x : Side, MillState.countPieces s.board (x.toI8 + 1) = s.piecesOnBoard x := by
    intro x
    rw [← card_ownNodes hpos x]
    unfold MillState.countPieces ownNodes
    rw [List.countP_eq_length_filter, ← List.toFinset_card_of_nodup
      ((List.nodup_finRange 24).filter _)]
    congr 1
    ext n
    have hlive := hpos.live_iff x n
    rw [hunmarked] at hlive
    simp only [List.mem_toFinset, List.mem_filter, List.mem_finRange, true_and,
      decide_eq_true_eq, Finset.mem_filter, Finset.mem_univ]
    rw [hlive]
    simp
  funext x
  rcases Side.eq_or_eq_opponent 0 x with rfl | rfl
  · exact hcount 0
  · exact hcount 1

/-- The rebuilt phase, for a state with the hands of the query and enough pieces. -/
theorem setQueryPhase_eq (db : DbRules options) {query : PerfectQuery}
    (hhands : perSide query.whiteInHand query.blackInHand = s.piecesInHand)
    (henough : ∀ x, 3 ≤ s.piecesOnBoard x + s.piecesInHand x) :
    setQueryPhase s options query
      = { s with
          phase := if 0 < s.piecesInHand 0 ∨ 0 < s.piecesInHand 1 then .placing else .moving } := by
  have hwhite : query.whiteInHand = s.piecesInHand 0 := congrFun hhands 0
  have hblack : query.blackInHand = s.piecesInHand 1 := congrFun hhands 1
  unfold setQueryPhase
  rw [hwhite, hblack]
  by_cases hplacing : s.piecesInHand 0 > 0 ∨ s.piecesInHand 1 > 0
  · rw [if_pos hplacing, if_pos hplacing]
  · rw [if_neg hplacing, if_neg hplacing]
    have hcheck : s.checkPiecesAtLeast options = none := by
      have h0 := henough 0
      have h1 := henough 1
      unfold MillState.checkPiecesAtLeast
      rw [db.piecesAtLeastCount]
      exact if_pos (by omega)
    rw [hcheck]
    simp only [ite_self]

/-- **A query of a state of play is rebuilt into a state with its fields.** -/
theorem stateFromPerfectQuery_eq (db : DbRules r.options) (hinv : StateInv r.options s)
    (hdb : DbTurn r.options s c) {query : PerfectQuery} (hquery : QueryOf s c query) :
    ∃ u, stateFromPerfectQuery r r.options query = some u ∧ Rebuilt s c u ∧ Encodable u := by
  have hunmarked : s.delayedMarkedPieces = 0 := by
    by_contra hne
    exact absurd ((hinv.marksDelayed hne).symm.trans db.formation) (by decide)
  have hboard : queryPiece query (MillState.empty r.options).board = s.board := by
    funext n
    unfold queryPiece
    by_cases hone : s.board n = 1
    · rw [if_pos ((hquery.white n).2 hone), hone]
    · rw [if_neg fun h => hone ((hquery.white n).1 h)]
      by_cases htwo : s.board n = 2
      · rw [if_pos ((hquery.black n).2 htwo), htwo]
      · rw [if_neg fun h => htwo ((hquery.black n).1 h)]
        rcases hinv.position.codes n with hzero | ⟨x, hx⟩
        · exact hzero.symm
        · rcases Side.eq_or_eq_opponent 0 x with rfl | rfl
          · exact absurd hx hone
          · exact absurd hx htwo
  have hmaterial : ∀ x, s.piecesInHand x ≤ r.options.pieceCount
      ∧ s.piecesOnBoard x + s.piecesInHand x ≤ r.options.pieceCount := fun x =>
    ⟨(Nat.le_add_left _ _).trans (hinv.position.material x), hinv.position.material x⟩
  have hmasks : bitboardsFromBoard s.board 0 = s.byColorBb := by
    rw [hinv.position.masks, hunmarked]
  have hcounts := countPieces_eq hinv.position hunmarked
  obtain ⟨masks, hpieces⟩ := placeQueryPieces_eq (MillState.empty r.options) query
  rw [hboard] at hpieces
  -- the state after `recompute_aux`
  obtain ⟨b, hb⟩ : ∃ b, ({ MillState.empty r.options with board := s.board, byColorBb := masks }
      : MillState).recomputeAux r.options = b := ⟨_, rfl⟩
  have hbboard : b.piecesOnBoard = s.piecesOnBoard := by
    rw [← hb]
    exact hcounts
  have hset : b.setPiecesInHand (perSide query.whiteInHand query.blackInHand) r.options
      = some { b with piecesInHand := s.piecesInHand } := by
    unfold MillState.setPiecesInHand
    rw [hquery.hands, hbboard, if_pos hmaterial]
  have hside : ∀ t : MillState, t.setSideToMove query.sideToMove
      = { t with sideToMove := c.toI8 } := by
    intro t
    have hcast : ((query.sideToMove : Nat) : Int) = c.toI8 := by
      rw [hquery.side]
      rfl
    unfold MillState.setSideToMove
    rw [hcast, if_pos (toI8_cases c)]
  have hphase := setQueryPhase_eq db
    (s := { b with piecesInHand := s.piecesInHand, sideToMove := c.toI8 }) hquery.hands
    (fun x => by
      change 3 ≤ b.piecesOnBoard x + s.piecesInHand x
      rw [hbboard]
      exact hdb.enough x)
  unfold stateFromPerfectQuery
  rw [hpieces]
  simp only [hb, hset, hside, hphase, Option.bind_eq_bind, Option.bind_some, Option.some.injEq,
    exists_eq_left']
  subst hb
  obtain ⟨v, hv⟩ : ∃ v, ({ ({ MillState.empty r.options with
      board := s.board, byColorBb := masks } : MillState).recomputeAux r.options with
      piecesInHand := s.piecesInHand
      sideToMove := c.toI8
      phase := if 0 < s.piecesInHand 0 ∨ 0 < s.piecesInHand 1 then .placing else .moving }
      : MillState) = v := ⟨_, rfl⟩
  rw [hv]
  have hactive : sideIndex (query.sideToMove : Int) = c := by
    rw [hquery.side]
    exact Side.sideIndex_toI8 c
  rw [hactive, hquery.owes]
  -- what is owed, and the cached counter that goes with it
  obtain ⟨misc, hfinal⟩ : ∃ misc : BitVec 2,
      (if decide (0 < s.pendingRemovals c) = true then v.setPendingRemoval c 1 else v)
        = { v with
            pendingRemovals := setAt v.pendingRemovals c (if 0 < s.pendingRemovals c then 1 else 0)
            flags := { v.flags with zobristMiscCount := misc } } := by
    by_cases howes : 0 < s.pendingRemovals c
    · rw [if_pos (decide_eq_true howes), if_pos howes]
      unfold MillState.setPendingRemoval
      have hv' : (v.setPendingRemovals c 1).sideToMove = c.toI8 := by
        rw [← hv]
        rfl
      rw [if_pos hv']
      exact ⟨_, rfl⟩
    · rw [if_neg (by simpa using howes), if_neg howes]
      have hsame : setAt v.pendingRemovals c 0 = v.pendingRemovals := by
        rw [← hv]
        exact Function.update_eq_self c _
      exact ⟨v.flags.zobristMiscCount, by rw [hsame]⟩
  rw [hfinal]
  have hencodable := hinv.encodable
  have hnone : (-128 : Int) ≤ -1 ∧ (-1 : Int) ≤ 127 := by decide
  subst hv
  refine ⟨?_, ?_⟩
  · exact
      { board := rfl
        masks := hmasks
        unmarked := rfl
        onBoard := hcounts
        hands := rfl
        active := rfl
        action := rfl
        phase := rfl
        owed := rfl
        noCaptures := fun _ => ⟨rfl, rfl, rfl, rfl, rfl, rfl⟩
        noOwnPiece := fun _ => rfl
        noStalemate := rfl
        noBoth := rfl }
  · exact
      { board := hencodable.board
        piecesInHand := hencodable.piecesInHand
        piecesOnBoard := fun x => by
          change perSide _ _ x ≤ 255
          rw [hcounts]
          exact hencodable.piecesOnBoard x
        pendingRemovals := setAt_le (fun _ => Nat.zero_le _) (by split <;> omega) c
        winner := hnone
        lastMillFrom := fun _ => hnone
        lastMillTo := fun _ => hnone
        preferredRemoveTarget := hnone
        custodianCount := fun _ => Nat.zero_le _
        interventionCount := fun _ => Nat.zero_le _
        leapCount := fun _ => Nat.zero_le _ }

/-- Loading the rebuilt snapshot changes nothing that matters. -/
theorem Rebuilt.reload (h : Rebuilt s c u) (hpos : PositionInv options s.toMillPosition)
    (hunmarked : s.delayedMarkedPieces = 0) : Rebuilt s c (reloaded options u) :=
  { h with
    masks := by
      change bitboardsFromBoard u.board u.delayedMarkedPieces = s.byColorBb
      rw [h.board, h.unmarked, hpos.masks, hunmarked] }

/-! ## What the generators read -/

/-- Two states that the generators tell apart by the phase and the obligation only. -/
structure SameView (c : Side) (s t : MillState) : Prop where
  masks : t.byColorBb = s.byColorBb
  marks : t.delayedMarkedPieces = s.delayedMarkedPieces
  onBoard : t.piecesOnBoard = s.piecesOnBoard
  hands : t.piecesInHand = s.piecesInHand
  active : s.sideToMove = c.toI8 ∧ t.sideToMove = c.toI8

theorem SameView.occupied (h : SameView c s t) :
    t.boardOccupiedBitboard = s.boardOccupiedBitboard := by
  unfold MillPosition.boardOccupiedBitboard MillPosition.liveOccupiedBitboard
  rw [h.masks, h.marks]

theorem SameView.placeTarget (h : SameView c s t) (n : Node) :
    PlaceTarget t n ↔ PlaceTarget s n := by
  unfold PlaceTarget
  rw [h.hands, h.occupied, h.active.1, h.active.2]

/-- Under the option sets of the database a move is a step or a flight. -/
theorem moveTarget_db (db : DbRules options) (hactive : s.sideToMove = c.toI8) (allowFly : Bool)
    (source target : Node) :
    MoveTarget s options allowFly source target
      ↔ testBit (s.byColorBb c) source = true ∧ testBit s.boardOccupiedBitboard target = false
        ∧ ((allowFly = true ∧ s.piecesInHand c = 0 ∧ s.piecesOnBoard c ≤ 3)
          ∨ Adjacent options.hasDiagonalLines source target) := by
  have hleap : leapEnabled s options allowFly = false := by
    simp [leapEnabled, db.noLeap]
  have hfly : canFly s options allowFly = true
      ↔ allowFly = true ∧ s.piecesInHand c = 0 ∧ s.piecesOnBoard c ≤ 3 := by
    unfold canFly
    simp [hactive, db.mayFly, db.flyPieceCount, and_assoc]
  unfold MoveTarget
  simp only [not_restricted_of_off db.noRestriction, hleap, hfly, hactive, Side.sideIndex_toI8,
    Bool.false_eq_true, false_and, and_false, or_false, true_and]

theorem SameView.moveTarget (db : DbRules options) (h : SameView c s t) (allowFly : Bool)
    (source target : Node) :
    MoveTarget t options allowFly source target ↔ MoveTarget s options allowFly source target := by
  rw [moveTarget_db db h.active.1, moveTarget_db db h.active.2, h.masks, h.occupied, h.hands,
    h.onBoard]

/-- Removals without captures: the opponent's live pieces, under mill protection. -/
structure PlainRemoval (s : MillState) (c : Side) : Prop where
  noCaptures : ∀ x, CapturesEmpty s.toMillCaptures x
  noOwnPiece : ∀ x, s.flags.removeOwnPiece x = false
  noStalemate : s.flags.stalemateRemoving = false
  noBoth : s.flags.bothStalemateRemoving = false

theorem SameView.removeTarget (db : DbRules options) (h : SameView c s t)
    (hs : PlainRemoval s c) (ht : PlainRemoval t c) (n : Node) :
    RemoveTarget t options n ↔ RemoveTarget s options n := by
  have hcaptures : ∀ u : MillState, PlainRemoval u c → captureTargetsOfActive u = 0 := by
    intro u hu
    unfold captureTargetsOfActive
    simp [(hu.noCaptures _).custodian, (hu.noCaptures _).intervention, (hu.noCaptures _).leap]
  have hcontext : ∀ u : MillState, PlainRemoval u c →
      isStalemateRemovalContext u options = false := by
    intro u hu
    unfold isStalemateRemovalContext
    simp [hu.noStalemate, hu.noBoth, db.stalemateAction]
  have hpieces : ∀ piece, t.pieceBitboard piece = s.pieceBitboard piece := by
    intro piece
    unfold MillPosition.pieceBitboard
    rw [h.masks]
  have hmembers : ∀ piece, millMembersMaskForPiece t options piece
      = millMembersMaskForPiece s options piece := by
    intro piece
    unfold millMembersMaskForPiece millMembersMaskForColor
    rw [h.masks]
  unfold RemoveTarget
  rw [hcaptures s hs, hcaptures t ht, h.active.1, h.active.2, Side.sideIndex_toI8,
    hs.noOwnPiece, ht.noOwnPiece]
  unfold isRegularRemoveTarget
  simp only [hcontext s hs, hcontext t ht, hpieces, hmembers, MillState.opponentPiece, h.active.1,
    h.active.2, ne_eq, not_true_eq_false, false_and, not_false_eq_true, true_and,
    Bool.false_eq_true, if_false]

/-! ## The legal actions of a rebuilt state -/

/-- `c` has placed all its pieces and may fly while its opponent is still placing. -/
structure FliesEarly (s : MillState) (c : Side) : Prop where
  nothingOwed : s.pendingRemovals c = 0
  placed : s.piecesInHand c = 0
  opponentPlaces : 0 < s.piecesInHand c.opponent
  few : s.piecesOnBoard c ≤ 3

/-- The phase of a state of play in which nothing is owed is that of the active side's hand. -/
theorem free_actionForLegalGeneration (hturn : TurnInv s c)
    (hnone : s.pendingRemovals c = 0) :
    s.actionForLegalGeneration = (if s.piecesInHand c = 0 then .select else .place)
      ∧ (s.piecesInHand c = 0 → s.phase = .moving) := by
  have hphase := hturn.phase_eq hnone
  rw [hturn.actionForLegalGeneration]
  by_cases hhand : s.piecesInHand c = 0
  · rw [if_pos hhand] at hphase ⊢
    exact ⟨(syncedAction_free hturn.active hnone).2 hphase, fun _ => hphase⟩
  · rw [if_neg hhand] at hphase ⊢
    exact ⟨(syncedAction_free hturn.active hnone).1 hphase, fun hzero => absurd hzero hhand⟩

section Rebuilt

variable (db : DbRules options) (hturn : TurnInv s c) (hdb : DbTurn options s c)
  (h : Rebuilt s c t)

include h

theorem Rebuilt.sameView (hactive : s.sideToMove = c.toI8) (hunmarked : s.delayedMarkedPieces = 0) :
    SameView c s t :=
  ⟨h.masks, h.unmarked.trans hunmarked.symm, h.onBoard, h.hands, hactive, h.active⟩

/-- A rebuilt state was left with the action `place`, and syncs it. -/
theorem Rebuilt.actionForLegalGeneration :
    t.actionForLegalGeneration
      = if 0 < s.pendingRemovals c then .remove
        else if 0 < s.piecesInHand 0 ∨ 0 < s.piecesInHand 1 then .place else .select := by
  have howed : t.pendingRemovals (sideIndex t.sideToMove) > 0 ↔ 0 < s.pendingRemovals c := by
    rw [h.active, Side.sideIndex_toI8, h.owed, setAt_self]
    split <;> simp_all
  have hrange : 0 ≤ t.sideToMove ∧ t.sideToMove ≤ 1 := by
    rw [h.active]
    exact ⟨Side.toI8_nonneg c, Side.toI8_le_one c⟩
  unfold MillState.actionForLegalGeneration MillState.syncedAction
  simp only [h.action, h.phase, howed, hrange.1, hrange, and_self, not_true_eq_false, or_false,
    true_and]
  by_cases hplacing : 0 < s.piecesInHand 0 ∨ 0 < s.piecesInHand 1
  · by_cases howes : 0 < s.pendingRemovals c
    · simp [hplacing, howes]
    · simp [hplacing, howes]
  · by_cases howes : 0 < s.pendingRemovals c
    · simp [hplacing, howes]
    · simp [hplacing, howes]

include db hturn hdb

/-- **The rebuilt state has the legal actions of the state of play**, unless a side flies early. -/
theorem Rebuilt.legalAction_iff (hunmarked : s.delayedMarkedPieces = 0)
    (hcaptures : ∀ x, CapturesEmpty s.toMillCaptures x) (hflies : ¬FliesEarly s c) (a : Action) :
    LegalAction t options a ↔ LegalAction s options a := by
  have hview := h.sameView hturn.active hunmarked
  have hremove := hview.removeTarget db
    ⟨hcaptures, hdb.noOwnPiece, hdb.noStalemate, hdb.noBoth⟩
    ⟨h.noCaptures, h.noOwnPiece, h.noStalemate, h.noBoth⟩
  have hplace := hview.placeTarget
  have hmove := hview.moveTarget db
  have hzeros : (0 < s.piecesInHand 0 ∨ 0 < s.piecesInHand 1)
      ↔ 0 < s.piecesInHand c ∨ 0 < s.piecesInHand c.opponent := by
    rcases Side.eq_or_eq_opponent 0 c with rfl | rfl
    · exact Iff.rfl
    · exact or_comm
  unfold LegalAction
  rw [h.actionForLegalGeneration]
  by_cases howes : 0 < s.pendingRemovals c
  · -- a removal is owed on both sides
    rw [if_pos howes, hturn.actionForLegalGeneration,
      syncedAction_owing hturn.active hturn.not_over (Nat.pos_iff_ne_zero.1 howes)]
    have howed : t.pendingRemovals c > 0 := by
      rw [h.owed, setAt_self, if_pos howes]
      exact Nat.one_pos
    simp only [h.active, hturn.active, Side.sideIndex_toI8, howed, howes, true_and, hremove]
  have hnone : s.pendingRemovals c = 0 := Nat.eq_zero_of_not_pos howes
  obtain ⟨haction, hmoving⟩ := free_actionForLegalGeneration hturn hnone
  rw [if_neg howes, haction]
  by_cases hhand : s.piecesInHand c = 0
  · rw [if_pos hhand]
    have hnoPlace : ∀ m, ¬PlaceTarget s m := by
      rintro m ⟨hpositive, -⟩
      rw [hturn.active, Side.sideIndex_toI8, hhand] at hpositive
      exact absurd hpositive (Nat.lt_irrefl 0)
    by_cases hopponent : 0 < s.piecesInHand c.opponent
    · -- the opponent is still placing, which happens in the Lasker game only
      have hlasker : options.mayMoveInPlacingPhase = true := by
        by_contra hmay
        rw [Bool.not_eq_true] at hmay
        rcases hdb.free hnone hmay with ⟨-, hzero⟩ | ⟨hplacing, -⟩
        · rw [hzero] at hopponent
          exact absurd hopponent (Nat.lt_irrefl 0)
        · rw [hmoving hhand] at hplacing
          exact absurd hplacing (by decide)
      have hmany : ¬s.piecesOnBoard c ≤ 3 := fun hfew => hflies ⟨hnone, hhand, hopponent, hfew⟩
      rw [if_pos (hzeros.2 (Or.inr hopponent))]
      simp only [hplace, hmove, hnoPlace, and_false, exists_false, false_or, hlasker, true_and,
        hmoving hhand, moveTarget_db db hturn.active, hmany, Bool.false_eq_true]
    · have hempty : ¬(0 < s.piecesInHand 0 ∨ 0 < s.piecesInHand 1) := by
        rw [hzeros]
        omega
      have hphase : t.phase = .moving := by rw [h.phase, if_neg hempty]
      rw [if_neg hempty]
      simp only [hphase, hmoving hhand, hmove]
  · rw [if_neg hhand, if_pos (hzeros.2 (Or.inl (Nat.pos_of_ne_zero hhand)))]
    simp only [hplace, hmove]

/-- A side that flies early has a flight that is not a step, and the rebuilt state forbids it. -/
theorem Rebuilt.flight_lost (hvalid : options.AssertValid)
    (hpos : PositionInv options s.toMillPosition) (hunmarked : s.delayedMarkedPieces = 0)
    (hflies : FliesEarly s c) : ∃ a, LegalAction s options a ∧ ¬LegalAction t options a := by
  obtain ⟨haction, hmoving⟩ := free_actionForLegalGeneration hturn hflies.nothingOwed
  -- a piece of the side, and an empty node away from it
  obtain ⟨source, hsource⟩ : ∃ source : Node, testBit (s.byColorBb c) source = true := by
    have henough := hdb.enough c
    have hcard := card_ownNodes hpos c
    rw [hflies.placed] at henough
    obtain ⟨source, hmem⟩ := Finset.card_pos.1 (show 0 < (ownNodes s c).card by omega)
    exact ⟨source, (Finset.mem_filter.1 hmem).2⟩
  obtain ⟨target, hempty, hfar⟩ : ∃ target : Node, testBit s.boardOccupiedBitboard target = false
      ∧ ¬Adjacent options.hasDiagonalLines source target := by
    have hdegree : ∀ (d : Bool) (m : Node),
        (Finset.univ.filter fun k : Node => Adjacent d m k).card ≤ 4 := by decide +kernel
    have hcard := card_emptyNodes hpos
    have hle := countOnes_occupied_le hpos hunmarked
    have hmaterial := hpos.material c.opponent
    have hfew := hflies.few
    have hplaces := hflies.opponentPlaces
    have h12 := hvalid.pieceCount.2
    have hsum : s.piecesOnBoard 0 + s.piecesOnBoard 1
        = s.piecesOnBoard c + s.piecesOnBoard c.opponent := by
      rcases Side.eq_or_eq_opponent 0 c with rfl | rfl
      · rfl
      · exact Nat.add_comm _ _
    unfold MillPosition.emptySquareCount at hcard
    have hmore : (Finset.univ.filter fun k : Node =>
        Adjacent options.hasDiagonalLines source k).card
        < (emptyNodes s).card := by
      have := hdegree options.hasDiagonalLines source
      omega
    obtain ⟨target, hmem, hnot⟩ := Finset.exists_mem_notMem_of_card_lt_card hmore
    exact ⟨target, (Finset.mem_filter.1 hmem).2,
      fun hadjacent => hnot (Finset.mem_filter.2 ⟨Finset.mem_univ _, hadjacent⟩)⟩
  refine ⟨moveAction source target, ?_, ?_⟩
  · unfold LegalAction
    rw [haction, if_pos hflies.placed]
    exact ⟨hmoving hflies.placed, source, target, rfl, (moveTarget_db db hturn.active true _ _).2
      ⟨hsource, hempty, Or.inl ⟨rfl, hflies.placed, hflies.few⟩⟩⟩
  · have hplacing : 0 < s.piecesInHand 0 ∨ 0 < s.piecesInHand 1 := by
      have := hflies.opponentPlaces
      rcases Side.eq_or_eq_opponent 0 c with rfl | rfl
      · exact Or.inr this
      · exact Or.inl this
    unfold LegalAction
    rw [h.actionForLegalGeneration, if_neg (by rw [hflies.nothingOwed]; exact Nat.lt_irrefl 0),
      if_pos hplacing]
    rintro (⟨m, hm, -⟩ | ⟨-, source', target', hmove, htarget⟩)
    · simp [placeAction, moveAction, MillActionKind.toI16] at hm
    · simp only [moveAction, Action.mk.injEq, Node.toI8_inj, true_and, and_true] at hmove
      obtain ⟨rfl, rfl⟩ := hmove
      rcases ((moveTarget_db db h.active false _ _).1 htarget).2.2 with ⟨hfly, -⟩ | hadjacent
      · exact Bool.false_ne_true hfly
      · exact hfar hadjacent

end Rebuilt

/-! ## The round trip -/

/-- The query of a state rebuilt from a query. -/
theorem Rebuilt.query (hvariant : (DatabaseVariant.fromMillOptions options).isNone = false)
    (h : Rebuilt s c t) : queryFromState t options c.toI8 = queryFromState s options c.toI8 := by
  have hbits : bitboardsFromState t = bitboardsFromState s := by
    unfold bitboardsFromState
    rw [h.board]
  have howes : decide (0 < t.pendingRemovals c) = decide (0 < s.pendingRemovals c) := by
    rw [h.owed, setAt_self, decide_eq_decide]
    split <;> simp_all
  unfold queryFromState
  simp only [hvariant, Bool.false_eq_true, if_false, hbits, h.hands, Side.sideIndex_toI8, howes]

/-- The state rebuilt from the database's view of `snap` has the same actions and the same view. -/
structure RoundTrip (r : MillRules) (snap rebuilt : GameStateSnapshot) (side : Int) : Prop where
  legalActions : ∀ a, a ∈ r.legalActions rebuilt ↔ a ∈ r.legalActions snap
  query : queryFromState (MillState.decodeWithOptions rebuilt r.options) r.options side
    = queryFromState (MillState.decodeWithOptions snap r.options) r.options side

/-- The view that `side` has of `snap` can be taken, rebuilt and taken again. -/
def ViewKept (r : MillRules) (snap : GameStateSnapshot) (side : Int) : Prop :=
  ∃ query rebuilt,
    queryFromState (MillState.decodeWithOptions snap r.options) r.options side = some (some query)
      ∧ snapshotFromPerfectQuery r r.options query = some rebuilt
      ∧ RoundTrip r snap rebuilt side

section Play

variable (hvariant : (DatabaseVariant.fromMillOptions r.options).isNone = false)
  {snap : GameStateSnapshot} (hreach : Reachable r snap)
  (hongoing : (MillState.decodeWithOptions snap r.options).phase ≠ .gameOver)
  (hactive : (MillState.decodeWithOptions snap r.options).sideToMove = c.toI8)

include hongoing hactive hreach in
theorem Reachable.turnOf : TurnInv (MillState.decodeWithOptions snap r.options) c := by
  obtain ⟨d, hturn⟩ := hreach.inv.turn hongoing
  have hdc : d = c := by simpa using congrArg sideIndex (hturn.active.symm.trans hactive)
  rwa [hdc] at hturn

include hvariant hreach in
theorem unmarked_of_reachable :
    (MillState.decodeWithOptions snap r.options).delayedMarkedPieces = 0 := by
  by_contra hne
  exact absurd ((hreach.inv.marksDelayed hne).symm.trans (dbRules_of_variant hvariant).formation)
    (by decide)

include hvariant hreach hongoing hactive

/-- A position of a game has a query, and the query a rebuilt position. -/
theorem exists_rebuilt : ∃ query rebuilt,
    queryFromState (MillState.decodeWithOptions snap r.options) r.options c.toI8
        = some (some query)
      ∧ snapshotFromPerfectQuery r r.options query = some rebuilt
      ∧ Rebuilt (MillState.decodeWithOptions snap r.options) c
          (MillState.decodeWithOptions rebuilt r.options) := by
  have db := dbRules_of_variant hvariant
  have hinv := hreach.inv
  have hhands : ∀ x, (MillState.decodeWithOptions snap r.options).piecesInHand x ≤ 12 := fun x =>
    ((Nat.le_add_left _ _).trans (hinv.position.material x)).trans r.valid.pieceCount.2
  obtain ⟨query, hquery, hof⟩ := queryFromState_eq hvariant hhands c
  obtain ⟨u, hu, hrebuilt, hencodable⟩ :=
    stateFromPerfectQuery_eq db hinv (reachable_dbState db hreach hongoing c hactive) hof
  refine ⟨query, u.encode r.options, hquery, ?_, ?_⟩
  · unfold snapshotFromPerfectQuery
    rw [hu, Option.map_some]
  · rw [decode_encode r.options hencodable]
    exact hrebuilt.reload hinv.position (unmarked_of_reachable hvariant hreach)

theorem viewKept_of_not_fliesEarly
    (hflies : ¬FliesEarly (MillState.decodeWithOptions snap r.options) c) :
    ViewKept r snap c.toI8 := by
  have db := dbRules_of_variant hvariant
  obtain ⟨query, rebuilt, hquery, hsnap, hrebuilt⟩ :=
    exists_rebuilt hvariant hreach hongoing hactive
  refine ⟨query, rebuilt, hquery, hsnap, fun a => ?_, hrebuilt.query hvariant⟩
  rw [mem_legalActions_iff, mem_legalActions_iff]
  exact hrebuilt.legalAction_iff db (Reachable.turnOf hreach hongoing hactive)
    (reachable_dbState db hreach hongoing c hactive) (unmarked_of_reachable hvariant hreach)
    (hreach.inv.sane.captureRules db.noCustodian db.noIntervention db.noLeap) hflies a

theorem not_viewKept_of_fliesEarly
    (hflies : FliesEarly (MillState.decodeWithOptions snap r.options) c) :
    ¬ViewKept r snap c.toI8 := by
  have db := dbRules_of_variant hvariant
  obtain ⟨query, rebuilt, hquery, hsnap, hrebuilt⟩ :=
    exists_rebuilt hvariant hreach hongoing hactive
  rintro ⟨query', rebuilt', hquery', hsnap', hround⟩
  have hsame : query' = query :=
    Option.some.inj (Option.some.inj (hquery'.symm.trans hquery))
  subst hsame
  have hrebuilt' : rebuilt' = rebuilt := Option.some.inj (hsnap'.symm.trans hsnap)
  subst hrebuilt'
  obtain ⟨a, hlegal, hlost⟩ := hrebuilt.flight_lost db (Reachable.turnOf hreach hongoing hactive)
    (reachable_dbState db hreach hongoing c hactive) r.valid hreach.inv.position
    (unmarked_of_reachable hvariant hreach) hflies
  rw [← mem_legalActions_iff] at hlegal hlost
  exact hlost ((hround.legalActions a).2 hlegal)

/--
**The database's view of a position keeps its legal actions**, except where a side
flies early: there the rebuilt state is still placing and the flights are gone.
-/
theorem viewKept_iff :
    ViewKept r snap c.toI8 ↔ ¬FliesEarly (MillState.decodeWithOptions snap r.options) c :=
  ⟨fun hkept hflies => not_viewKept_of_fliesEarly hvariant hreach hongoing hactive hflies hkept,
    viewKept_of_not_fliesEarly hvariant hreach hongoing hactive⟩

end Play

/-! ## A Lasker game -/

/-- White has closed its seventh mill and owes the removal of the fourth black piece. -/
def fourLeft : GameStateSnapshot :=
  playLine laskerRules laskerRules.initialState sevenMills.dropLast

theorem fourLeft_reachable : Reachable laskerRules fourLeft :=
  Reachable.initial.playLine (by decide +kernel)

/-- The theorem at a removal after seven mills, before any side flies. -/
theorem viewKept_iff_fourLeft : ViewKept laskerRules fourLeft (Side.toI8 0) :=
  (viewKept_iff (by decide) fourLeft_reachable (by decide +kernel) (by decide +kernel)).2
    fun hearly => absurd hearly.1 (by decide +kernel)

/-- **Black's flights are lost** when the position is rebuilt from its query. -/
theorem lasker_flights_lost :
    ¬∀ (r : MillRules) (snap : GameStateSnapshot) (c : Side),
      (DatabaseVariant.fromMillOptions r.options).isNone = false → Reachable r snap →
      (MillState.decodeWithOptions snap r.options).phase ≠ .gameOver →
      (MillState.decodeWithOptions snap r.options).sideToMove = c.toI8 →
      ViewKept r snap c.toI8 := by
  intro h
  obtain ⟨hongoing, hactive, howed, hplaced, hopponent, hfew⟩ :
      (MillState.decodeWithOptions threeLeft laskerOptions).phase ≠ .gameOver
        ∧ (MillState.decodeWithOptions threeLeft laskerOptions).sideToMove = Side.toI8 1
        ∧ (MillState.decodeWithOptions threeLeft laskerOptions).pendingRemovals 1 = 0
        ∧ (MillState.decodeWithOptions threeLeft laskerOptions).piecesInHand 1 = 0
        ∧ 0 < (MillState.decodeWithOptions threeLeft laskerOptions).piecesInHand 0
        ∧ (MillState.decodeWithOptions threeLeft laskerOptions).piecesOnBoard 1 ≤ 3 := by
    decide +kernel
  have hvariant : (DatabaseVariant.fromMillOptions laskerRules.options).isNone = false := by decide
  exact not_viewKept_of_fliesEarly hvariant threeLeft_reachable hongoing hactive
    ⟨howed, hplaced, hopponent, hfew⟩ (h laskerRules threeLeft 1 hvariant threeLeft_reachable
      hongoing hactive)

end Sanmill.PerfectDb
