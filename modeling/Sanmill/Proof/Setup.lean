import Sanmill.Mill.Setup
import Sanmill.Proof.Reload
import Sanmill.Proof.Symmetry.Legal

/-!
# The setup editor

The editor's calls change a board one square at a time, and `setup_finish` makes a game of
what is there. It counts the pieces anew and derives the hands from the counts. What it
takes over from the game that was edited is the side to move, the removals it owes and the
kind of action it was at.

`ReadyToFinish` says on the board and on these three when the result looks like a position
of a game: nobody has too many pieces, removals have a target, and the side to move can do
what its action asks for.
-/

namespace Sanmill

open Bits

/-! ## The calls -/

/-- A call of the setup editor. -/
inductive SetupCall where
  | clear
  | setPiece (node owner : Int)
  | setSide (side : Int)
  | finish

namespace MillRules

/-- A call that is refused leaves the kernel alone. -/
def setupCall (r : MillRules) (kernel : GameKernel) : SetupCall → GameKernel
  | .clear => r.setupClear kernel
  | .setPiece node owner => (r.setupSetPiece kernel node owner).getD kernel
  | .setSide side => r.setupSetSide kernel side
  | .finish => r.setupFinish kernel

def runSetup (r : MillRules) (kernel : GameKernel) (calls : List SetupCall) : GameKernel :=
  calls.foldl r.setupCall kernel

end MillRules

/-- What every position of a game has, as far as the editor is concerned. -/
structure LikeReached (r : MillRules) (snap : GameStateSnapshot) : Prop where
  /-- No side has more pieces than the game starts with. -/
  material : ∀ c, (MillState.decodeWithOptions snap r.options).piecesOnBoard c
    + (MillState.decodeWithOptions snap r.options).piecesInHand c ≤ r.options.pieceCount
  /-- A side that owes removals has a piece it may remove. -/
  owed : ∀ c, 0 < (MillState.decodeWithOptions snap r.options).pendingRemovals c → ∃ n,
    isRegularRemoveTarget { MillState.decodeWithOptions snap r.options with sideToMove := c.toI8 }
      r.options ((removalTarget (MillState.decodeWithOptions snap r.options) c).toI8 + 1) 0 n = true
  /-- The cached key is the key computed from scratch. -/
  keyCurrent : snap.zobristKey = fullStateKey (MillState.decodeWithOptions snap r.options)
  /-- The game is over, or it goes on. -/
  goesOn : (r.outcome snap).kind ≠ .ongoing ∨ r.legalActions snap ≠ []

/-! ## Conditions on a board -/

section Board

variable (options : MillVariantOptions) (board : Node → Int)

def piecesOf (c : Side) : Nat := MillState.countPieces board (c.toI8 + 1)

/-- Neither side has a piece left to place. -/
def HandsEmpty : Prop := ∀ c, options.pieceCount ≤ piecesOf board c

def Vacant (n : Node) : Prop := ∀ c : Side, board n ≠ c.toI8 + 1

/-- `n` stands in a line of three pieces of `c`. -/
def InMill (c : Side) (n : Node) : Prop :=
  ∃ line ∈ millLines options, n ∈ line.nodes ∧ ∀ m ∈ line.nodes, board m = c.toI8 + 1

/-- A piece of `c` may leap from `source` to `target` over a piece it may then remove. -/
def Leap (c : Side) (source target : Node) : Prop :=
  ∃ line ∈ activeCaptureLines options.leapCapture options,
    (source = line.a ∧ target = line.c ∨ source = line.c ∧ target = line.a)
      ∧ board line.b = c.opponent.toI8 + 1
      ∧ (options.mayRemoveFromMillsAlways = true ∨ ¬InMill options board c.opponent line.b
        ∨ ∀ n, board n = c.opponent.toI8 + 1 → InMill options board c.opponent n)

/-- A side that moves on the board has somewhere to go, when it may fly and leap like this. -/
def CanMove (c : Side) (fly leap : Prop) : Prop :=
  ∃ source target, board source = c.toI8 + 1 ∧ Vacant board target
    ∧ (fly ∨ Adjacent options.hasDiagonalLines source target
      ∨ leap ∧ Leap options board c source target)

/-- Flying is on, and few enough pieces are left. -/
def MayFly (c : Side) : Prop :=
  options.mayFly = true ∧ piecesOf board c ≤ options.flyPieceCount

/-- Leaping is on in the phase of `inPhase`, and few enough pieces are left. -/
def MayLeap (c : Side) (inPhase : Bool) : Prop :=
  options.leapCapture.enabled = true ∧ inPhase = true
    ∧ (options.leapCapture.onlyAvailableWhenOwnPiecesLeq3 = true → piecesOf board c ≤ 3)

/-- In the placing phase: a piece in hand, or a move where moves are allowed. -/
def CanPlace (c : Side) : Prop :=
  piecesOf board c < options.pieceCount
    ∨ options.mayMoveInPlacingPhase = true
      ∧ CanMove options board c False (MayLeap options board c options.leapCapture.inPlacingPhase)

/-- In the moving phase. -/
def CanSelect (c : Side) : Prop :=
  CanMove options board c (MayFly options board c)
    (MayLeap options board c options.leapCapture.inMovingPhase)

end Board

/-- The side to move can do what the action it was at asks for. -/
def CanAct (options : MillVariantOptions) (s : MillState) (c : Side) : Prop :=
  match s.action with
  | .remove => 0 < s.pendingRemovals c
  | .place => 0 < s.pendingRemovals c ∨ HandsEmpty options s.board ∧ CanSelect options s.board c
    ∨ ¬HandsEmpty options s.board ∧ CanPlace options s.board c
  | .select => HandsEmpty options s.board ∧ CanSelect options s.board c
  | .gameOver => False

/-- **What `setup_finish` asks of the state it is called on.** -/
structure ReadyToFinish (options : MillVariantOptions) (s : MillState) : Prop where
  fits : ∀ c, piecesOf s.board c ≤ options.pieceCount
  targets : ∀ c : Side, 0 < s.pendingRemovals c → ∃ n, s.board n = c.opponent.toI8 + 1
  /-- The key of the board is not zero while the side to move owes removals. -/
  keyed : ∀ c : Side, s.sideToMove = c.toI8 → s.pendingRemovals c % 4 = 0
    ∨ applyMisc (boardKey s.board ^^^ sideKey s.sideToMove) 0 ≠ 0
  acts : ∃ c : Side, s.sideToMove = c.toI8 ∧ CanAct options s c

/-! ## The state `setup_finish` builds -/

/-- `t` is what is loaded after `setup_finish` was called on `s`. -/
structure Edited (options : MillVariantOptions) (s t : MillState) : Prop where
  board : t.board = s.board
  masks : t.byColorBb = bitboardsFromBoard s.board 0
  marks : t.delayedMarkedPieces = 0
  onBoard : ∀ c, t.piecesOnBoard c = piecesOf s.board c
  inHand : ∀ c, t.piecesInHand c = options.pieceCount - piecesOf s.board c
  side : t.sideToMove = s.sideToMove
  pending : t.pendingRemovals = s.pendingRemovals
  action : t.action = s.action
  phase : HandsEmpty options s.board ∧ t.phase = .moving
    ∨ ¬HandsEmpty options s.board ∧ t.phase = .placing
  notStalemate : t.flags.stalemateRemoving = false ∧ t.flags.bothStalemateRemoving = false
  notOwn : ∀ c, t.flags.removeOwnPiece c = false
  captures : ∀ c, CapturesEmpty t.toMillCaptures c
  lastMill : ∀ c, t.lastMillFrom c = -1 ∧ t.lastMillTo c = -1

section Finish

variable {options : MillVariantOptions} {s t : MillState} {c : Side}

theorem countPieces_perSide (board : Node → Int) (c : Side) :
    perSide (MillState.countPieces board 1) (MillState.countPieces board 2) c
      = piecesOf board c := by
  rcases Side.eq_or_eq_opponent 0 c with rfl | rfl <;> rfl

theorem handsEmpty_iff (s : MillState) :
    HandsEmpty options s.board
      ↔ ¬(0 < (s.recomputeAux options).piecesInHand 0
        ∨ 0 < (s.recomputeAux options).piecesInHand 1) := by
  have hhand : ∀ c, (s.recomputeAux options).piecesInHand c
      = options.pieceCount - piecesOf s.board c := by
    intro c
    rw [← countPieces_perSide]
    rfl
  rw [hhand, hhand]
  unfold HandsEmpty
  constructor
  · intro h
    have h0 := h 0
    have h1 := h 1
    omega
  · intro h c
    rcases Side.eq_or_eq_opponent 0 c with rfl | rfl
    · omega
    · have : (0 : Side).opponent = 1 := rfl
      rw [this]
      omega

/-- Empty hands mean full armies, so nobody is short of pieces and no game is over. -/
theorem setupPhase_cases (hvalid : options.AssertValid) (s : MillState) :
    (HandsEmpty options s.board ∧ (s.recomputeAux options).setupPhase options
        = { s.recomputeAux options with phase := .moving })
      ∨ (¬HandsEmpty options s.board ∧ (s.recomputeAux options).setupPhase options
        = { s.recomputeAux options with phase := .placing }) := by
  by_cases hempty : HandsEmpty options s.board
  · refine Or.inl ⟨hempty, ?_⟩
    have henough : ∀ c, options.piecesAtLeastCount ≤ (s.recomputeAux options).piecesOnBoard c := by
      intro c
      have hcount : (s.recomputeAux options).piecesOnBoard c = piecesOf s.board c :=
        countPieces_perSide s.board c
      have hfull := hempty c
      have := hvalid.piecesAtLeastCount.2
      omega
    unfold MillState.setupPhase MillState.checkPiecesAtLeast
    rw [if_neg ((handsEmpty_iff s).1 hempty), if_pos ⟨henough 0, henough 1⟩]
  · refine Or.inr ⟨hempty, ?_⟩
    unfold MillState.setupPhase
    rw [if_pos (not_not.1 fun h => hempty ((handsEmpty_iff s).2 h))]

/-- The state `setup_finish` stores fits its bytes. -/
theorem encodable_recomputeAux (hvalid : options.AssertValid) (snap : GameStateSnapshot)
    (phase : MillPhase) :
    Encodable { (MillState.decode snap).recomputeAux options with phase := phase } where
  board n := by
    have hlow : -128 ≤ (snap.opaquePayload.byte n).toInt := by
      have := BitVec.le_toInt (snap.opaquePayload.byte n)
      omega
    have hhigh : (snap.opaquePayload.byte n).toInt < 128 := by
      have := BitVec.toInt_lt (x := snap.opaquePayload.byte n)
      omega
    exact ⟨hlow, Int.lt_add_one_iff.1 hhigh⟩
  piecesInHand c := by
    have := hvalid.pieceCount.2
    show options.pieceCount - _ ≤ 255
    omega
  piecesOnBoard c := by
    show perSide (MillState.countPieces _ 1) (MillState.countPieces _ 2) c ≤ 255
    rw [countPieces_perSide]
    unfold piecesOf MillState.countPieces
    have := List.countP_le_length (p := fun node => decide ((MillState.decode snap).board node
      = c.toI8 + 1)) (l := List.finRange 24)
    rw [List.length_finRange] at this
    omega
  pendingRemovals c := by
    have hbyte : ∀ offset, snap.opaquePayload.readU8 offset ≤ 255 := fun offset => by
      have := (snap.opaquePayload.byte offset).isLt
      unfold Payload.readU8
      omega
    show perSide (snap.opaquePayload.readU8 28) (snap.opaquePayload.readU8 29) c ≤ 255
    rcases Side.eq_or_eq_opponent 0 c with rfl | rfl
    · exact hbyte 28
    · exact hbyte 29
  winner := by
    show -128 ≤ (-1 : Int) ∧ (-1 : Int) ≤ 127
    omega
  lastMillFrom _ := by
    show -128 ≤ (-1 : Int) ∧ (-1 : Int) ≤ 127
    omega
  lastMillTo _ := by
    show -128 ≤ (-1 : Int) ∧ (-1 : Int) ≤ 127
    omega
  preferredRemoveTarget := by
    show -128 ≤ (-1 : Int) ∧ (-1 : Int) ≤ 127
    omega
  custodianCount _ := Nat.zero_le _
  interventionCount _ := Nat.zero_le _
  leapCount _ := Nat.zero_le _

theorem edited_reloaded {phase : MillPhase}
    (hphase : HandsEmpty options s.board ∧ phase = .moving
      ∨ ¬HandsEmpty options s.board ∧ phase = .placing) :
    Edited options s (reloaded options { s.recomputeAux options with phase := phase }) where
  board := rfl
  masks := by
    unfold reloaded
    dsimp only
    unfold MillState.recomputeAux recomputeMobilityDiff
    dsimp only
  marks := rfl
  onBoard := countPieces_perSide s.board
  inHand c := by
    rw [← countPieces_perSide]
    rfl
  side := rfl
  pending := rfl
  action := rfl
  phase := hphase
  notStalemate := ⟨rfl, rfl⟩
  notOwn _ := rfl
  captures c := capturesEmpty_cleared c
  lastMill _ := ⟨rfl, rfl⟩

/-! ## What its board says -/

theorem Line.testBit_mask (line : Line) (i : Nat) :
    testBit line.mask i = true ↔ ∃ n ∈ line.nodes, i = n.val := by
  have hbit : ∀ n : Node, testBit (nodeBit n) i = true ↔ i = n.val := by
    intro n
    constructor
    · exact eq_of_testBit_nodeBit
    · rintro rfl
      rw [testBit_nodeBit, decide_eq_true rfl]
  unfold Line.mask Line.nodes
  rw [testBit_or, testBit_or, Bool.or_eq_true, Bool.or_eq_true, hbit, hbit, hbit]
  simp [or_assoc]

namespace Edited

variable (h : Edited options s t)

include h

theorem live_iff (c : Side) (n : Node) :
    testBit (t.byColorBb c) n = true ↔ s.board n = c.toI8 + 1 := by
  rw [h.masks, testBit_bitboardsFromBoard]
  simp

theorem vacant_iff (n : Node) :
    testBit t.boardOccupiedBitboard n = false ↔ Vacant s.board n := by
  unfold MillPosition.boardOccupiedBitboard MillPosition.liveOccupiedBitboard
  rw [testBit_or, testBit_or, h.marks, Bool.or_eq_false_iff, Bool.or_eq_false_iff]
  constructor
  · rintro ⟨⟨hwhite, hblack⟩, -⟩ c hc
    have hlive := (h.live_iff c n).2 hc
    rcases Side.eq_or_eq_opponent 0 c with rfl | rfl
    · exact absurd (hwhite.symm.trans hlive) Bool.false_ne_true
    · exact absurd (hblack.symm.trans hlive) Bool.false_ne_true
  · intro hvacant
    have hnone : ∀ c, testBit (t.byColorBb c) n = false := fun c => by
      rw [Bool.eq_false_iff]
      exact fun hlive => hvacant c ((h.live_iff c n).1 hlive)
    exact ⟨⟨hnone 0, hnone 1⟩, testBit_zero _⟩

theorem not_restricted (source target : Node) :
    isRestrictedRepeatedMill t options source target = false := by
  have hfrom : ∀ c, t.lastMillFrom c < 0 := fun c => by
    rw [(h.lastMill c).1]
    decide
  unfold isRestrictedRepeatedMill
  split
  · rfl
  · split
    · rfl
    · simp only
      rw [if_pos (Or.inl (hfrom _))]

theorem testBit_millMembers (c : Side) (n : Node) :
    testBit (millMembersMaskForColor t options c) n = true ↔ InMill options s.board c n := by
  -- a line is covered by the bits of a colour exactly if the colour has all its nodes
  have hcover : ∀ line : Line, t.byColorBb c &&& line.mask = line.mask
      ↔ ∀ m ∈ line.nodes, s.board m = c.toI8 + 1 := by
    intro line
    rw [and_eq_right_iff_testBit]
    constructor
    · intro hall m hm
      exact (h.live_iff c m).1 (hall m ((line.testBit_mask m).2 ⟨m, hm, rfl⟩))
    · intro hall i hi
      obtain ⟨m, hm, rfl⟩ := (line.testBit_mask i).1 hi
      exact (h.live_iff c m).2 (hall m hm)
  have hon : ∀ line : Line, testBit line.mask n = true ↔ n ∈ line.nodes := by
    intro line
    rw [line.testBit_mask]
    constructor
    · rintro ⟨m, hm, hnm⟩
      rw [Fin.ext hnm]
      exact hm
    · exact fun hn => ⟨n, hn, rfl⟩
  rw [millMembersMaskForColor_eq, testBit_union]
  unfold millLineMasks InMill
  constructor
  · rintro ⟨mask, hmask, hbit⟩
    obtain ⟨hmem, hfull⟩ := List.mem_filter.1 hmask
    obtain ⟨line, hline, rfl⟩ := List.mem_map.1 hmem
    exact ⟨line, hline, (hon line).1 hbit, (hcover line).1 (of_decide_eq_true hfull)⟩
  · rintro ⟨line, hline, hn, hfull⟩
    exact ⟨line.mask, List.mem_filter.2 ⟨List.mem_map_of_mem hline,
      decide_eq_true ((hcover line).2 hfull)⟩, (hon line).2 hn⟩

/-- A piece of `c` stands outside the mills of `c`. -/
theorem outside_mills_iff (c : Side) :
    t.byColorBb c &&& ~~~millMembersMaskForColor t options c ≠ 0
      ↔ ∃ n, s.board n = c.toI8 + 1 ∧ ¬InMill options s.board c n := by
  have hbelow : ∀ i, testBit (t.byColorBb c) i = true → i < 24 := by
    rw [h.masks]
    exact bitboardsFromBoard_below _ _ c
  have hzero := not_iff_not.2
    (eq_zero_iff_testBit (t.byColorBb c &&& ~~~millMembersMaskForColor t options c))
  refine hzero.trans ?_
  rw [not_forall]
  constructor
  · rintro ⟨i, hi⟩
    rw [Bool.not_eq_false, testBit_and_not, Bool.and_eq_true, Bool.not_eq_true'] at hi
    have hlt := hbelow i hi.1
    refine ⟨⟨i, hlt⟩, (h.live_iff c ⟨i, hlt⟩).1 hi.1, fun hmill => ?_⟩
    have := (h.testBit_millMembers c ⟨i, hlt⟩).2 hmill
    exact absurd (hi.2.symm.trans this) Bool.false_ne_true
  · rintro ⟨n, hn, hmill⟩
    refine ⟨n, ?_⟩
    rw [Bool.not_eq_false, testBit_and_not, (h.live_iff c n).2 hn, Bool.true_and, Bool.not_eq_true',
      Bool.eq_false_iff]
    exact fun hbit => hmill ((h.testBit_millMembers c n).1 hbit)

variable (hactive : t.sideToMove = c.toI8)

include hactive

/-- The piece on `n` may be leapt over. -/
theorem leapRemovable_iff (n : Node) :
    leapCaptureTargetIsRemovable t options n = true
      ↔ s.board n = c.opponent.toI8 + 1
        ∧ (options.mayRemoveFromMillsAlways = true ∨ ¬InMill options s.board c.opponent n
          ∨ ∀ m, s.board m = c.opponent.toI8 + 1 → InMill options s.board c.opponent m) := by
  have hpiece := pieceBitboard_opponent hactive
  have hmills : millMembersMaskForPiece t options t.opponentPiece
      = millMembersMaskForColor t options c.opponent := by
    unfold millMembersMaskForPiece MillState.opponentPiece
    rw [hactive, Side.xorOne_toI8, Side.colorIndexForPiece_toI8]
  have houtside := h.outside_mills_iff c.opponent
  unfold leapCaptureTargetIsRemovable
  simp only
  rw [hpiece, hmills, Bool.and_eq_true, h.live_iff, Bool.or_eq_true, Bool.not_eq_true',
    Bool.eq_false_iff, ne_eq, Bool.and_eq_true, decide_eq_true_eq, h.testBit_millMembers, houtside]
  refine and_congr_right fun _ => or_congr_right ?_
  constructor
  · intro hboth
    by_cases hmill : InMill options s.board c.opponent n
    · refine Or.inr fun m hm => ?_
      by_contra hout
      exact hboth ⟨hmill, m, hm, hout⟩
    · exact Or.inl hmill
  · rintro (hmill | hall) ⟨hin, m, hm, hout⟩
    · exact hmill hin
    · exact hout (hall m hm)

theorem leap_iff {source target : Node} (hsource : s.board source = c.toI8 + 1) :
    (∃ line ∈ activeCaptureLines options.leapCapture options,
        leapTarget? t options source line = some target)
      ↔ Vacant s.board target ∧ Leap options s.board c source target := by
  have hline : ∀ line : Line, leapTarget? t options source line = some target
      ↔ Vacant s.board target
        ∧ (source = line.a ∧ target = line.c ∨ source = line.c ∧ target = line.a)
        ∧ leapCaptureTargetIsRemovable t options line.b = true := by
    intro line
    have hopponent : ∀ n, leapCaptureTargetIsRemovable t options n = true →
        testBit (t.byColorBb c.opponent) n = true := fun n hn =>
      (h.live_iff _ n).2 ((h.leapRemovable_iff hactive n).1 hn).1
    have htaken : ¬testBit t.boardOccupiedBitboard source = false := fun hvacant =>
      (h.vacant_iff source).1 hvacant c hsource
    unfold leapTarget?
    simp only [hactive, Side.sideIndex_toI8, h.not_restricted, Bool.not_false, Bool.true_and,
      Bool.not_eq_true', ← h.vacant_iff]
    constructor
    · intro hsome
      split_ifs at hsome with h1 h2 h3
      · rw [Option.some.injEq] at hsome
        exact ⟨hsome ▸ h1.2.1, Or.inl ⟨h1.1, hsome.symm⟩, h2⟩
      · rw [Option.some.injEq] at hsome
        exact ⟨hsome ▸ h3.2.1, Or.inr ⟨h3.1, hsome.symm⟩, h3.2.2.2⟩
    · rintro ⟨hvacant, ⟨rfl, rfl⟩ | ⟨rfl, rfl⟩, hremovable⟩
      · rw [if_pos ⟨rfl, hvacant, hopponent _ hremovable⟩, if_pos hremovable]
      · -- the far end of the first direction would be the source itself
        rw [if_neg fun hfirst => htaken hfirst.2.1,
          if_pos ⟨rfl, hvacant, hopponent _ hremovable, hremovable⟩]
  unfold Leap
  constructor
  · rintro ⟨line, hmem, hsome⟩
    obtain ⟨hvacant, hends, hremovable⟩ := (hline line).1 hsome
    exact ⟨hvacant, line, hmem, hends, (h.leapRemovable_iff hactive line.b).1 hremovable⟩
  · rintro ⟨hvacant, line, hmem, hends, hover⟩
    exact ⟨line, hmem, (hline line).2
      ⟨hvacant, hends, (h.leapRemovable_iff hactive line.b).2 hover⟩⟩

/-- The moves the generator finds, whatever it makes of flying and leaping. -/
theorem move_iff {allowFly : Bool} {fly leap : Prop}
    (hfly : canFly t options allowFly = true ↔ fly)
    (hleap : leapEnabled t options allowFly = true ↔ leap ∧ ¬fly) :
    (∃ source target, MoveTarget t options allowFly source target)
      ↔ CanMove options s.board c fly leap := by
  unfold MoveTarget CanMove
  simp only [hactive, Side.sideIndex_toI8, h.live_iff, h.vacant_iff, h.not_restricted, true_and]
  refine exists_congr fun source => exists_congr fun target => and_congr_right fun hsource => ?_
  rw [h.leap_iff hactive hsource, hleap, hfly, Bool.eq_false_iff, ne_eq, hfly]
  constructor
  · rintro (⟨hvacant, hreach⟩ | ⟨-, hon, hvacant, hover⟩)
    · exact ⟨hvacant, hreach.imp_right Or.inl⟩
    · exact ⟨hvacant, Or.inr (Or.inr ⟨hon.1, hover⟩)⟩
  · rintro ⟨hvacant, hreach⟩
    by_cases hflies : fly
    · exact Or.inl ⟨hvacant, Or.inl hflies⟩
    · rcases hreach with hflying | hstep | ⟨hon, hover⟩
      · exact absurd hflying hflies
      · exact Or.inl ⟨hvacant, Or.inr hstep⟩
      · exact Or.inr ⟨hflies, ⟨hon, hflies⟩, hvacant, hover⟩

theorem leapCount_iff :
    capturePieceCountAllowedLeap options.leapCapture t = true
      ↔ (options.leapCapture.onlyAvailableWhenOwnPiecesLeq3 = true → piecesOf s.board c ≤ 3) := by
  unfold capturePieceCountAllowedLeap
  rw [hactive, Side.sideIndex_toI8, h.onBoard]
  cases options.leapCapture.onlyAvailableWhenOwnPiecesLeq3 <;> simp

theorem select_iff (hempty : HandsEmpty options s.board) (hmoving : t.phase = .moving) :
    (∃ source target, MoveTarget t options true source target) ↔ CanSelect options s.board c := by
  have hhand : options.pieceCount - piecesOf s.board c = 0 := Nat.sub_eq_zero_of_le (hempty c)
  have hfly : canFly t options true = true ↔ MayFly options s.board c := by
    unfold canFly MayFly
    simp [hactive, h.inHand, h.onBoard, hhand]
  refine h.move_iff hactive hfly ?_
  rw [← hfly]
  unfold leapEnabled capturePhaseAllowed MayLeap
  rw [← h.leapCount_iff hactive]
  simp only [hactive, Side.sideIndex_toI8, h.inHand, hhand, hmoving]
  cases canFly t options true with
  | false =>
    simp
    tauto
  | true => simp

theorem place_iff (hfull : options.pieceCount ≤ piecesOf s.board c) (hplacing : t.phase = .placing)
    (hmay : options.mayMoveInPlacingPhase = true) :
    (∃ source target, MoveTarget t options false source target)
      ↔ CanMove options s.board c False
        (MayLeap options s.board c options.leapCapture.inPlacingPhase) := by
  have hhand : options.pieceCount - piecesOf s.board c = 0 := Nat.sub_eq_zero_of_le hfull
  have hfly : canFly t options false = true ↔ False := by
    unfold canFly
    simp
  refine h.move_iff hactive hfly ?_
  unfold leapEnabled canFly capturePhaseAllowed MayLeap
  rw [← h.leapCount_iff hactive]
  simp only [hactive, Side.sideIndex_toI8, h.inHand, hhand, hplacing, hmay]
  simp
  tauto

end Edited

/-! ## A piece to remove -/

/-- Two tests that never agree miss an element when both fail on it. -/
theorem countP_add_lt {α : Type} {p q : α → Bool} {l : List α} {a : α}
    (hdisjoint : ∀ x, p x = true → q x = false) (ha : a ∈ l) (hp : p a = false)
    (hq : q a = false) : l.countP p + l.countP q < l.length := by
  have hsplit := List.length_eq_countP_add_countP p (l := l)
  have hrest := List.length_eq_countP_add_countP q (l := l.filter fun x => !p x)
  have hq' : (l.filter fun x => !p x).countP q = l.countP q := by
    rw [List.countP_filter]
    refine List.countP_congr fun x _ => ?_
    cases hx : p x
    · simp
    · simp [hdisjoint x hx]
  have hmissed : 0 < (l.filter fun x => !p x).countP fun x => decide ¬q x = true :=
    List.countP_pos_iff.2 ⟨a, List.mem_filter.2 ⟨ha, by simp [hp]⟩, by simp [hq]⟩
  have hlength : (l.filter fun x => !p x).length = l.countP fun x => decide ¬p x = true := by
    rw [List.countP_eq_length_filter]
    congr 2
    funext x
    cases p x <;> rfl
  omega

/-- Along a walk that meets both kinds there is a step from one kind to the other. -/
theorem exists_boundary {α : Type} {R : α → α → Prop} (hsymm : ∀ a b, R a b → R b a)
    {p : α → Prop} {walk : List α} (hwalk : walk.IsChain R) (hin : ∃ a ∈ walk, p a)
    (hout : ∃ b ∈ walk, ¬p b) : ∃ a b, p a ∧ ¬p b ∧ R a b := by
  induction walk with
  | nil =>
    obtain ⟨a, ha, -⟩ := hin
    cases ha
  | cons x rest ih =>
    cases rest with
    | nil =>
      obtain ⟨a, ha, hpa⟩ := hin
      obtain ⟨b, hb, hpb⟩ := hout
      rw [List.mem_singleton] at ha hb
      exact absurd (ha ▸ hpa) (hb ▸ hpb)
    | cons y rest =>
      obtain ⟨hstep, hrest⟩ := List.isChain_cons_cons.1 hwalk
      by_cases hboth : (∃ a ∈ y :: rest, p a) ∧ ∃ b ∈ y :: rest, ¬p b
      · exact ih hrest hboth.1 hboth.2
      · -- the rest is of one kind, so the first step changes the kind
        by_cases hy : p y
        · obtain ⟨b, hb, hpb⟩ := hout
          have hx : b = x := by
            rcases List.mem_cons.1 hb with hbx | hbrest
            · exact hbx
            · exact absurd ⟨⟨y, List.mem_cons_self, hy⟩, b, hbrest, hpb⟩ hboth
          exact ⟨y, x, hy, hx ▸ hpb, hsymm _ _ hstep⟩
        · obtain ⟨a, ha, hpa⟩ := hin
          have hx : a = x := by
            rcases List.mem_cons.1 ha with hax | harest
            · exact hax
            · exact absurd ⟨⟨a, harest, hpa⟩, y, List.mem_cons_self, hy⟩ hboth
          exact ⟨x, y, hx ▸ hpa, hy, hstep⟩

/-- A walk along the lines of the board that visits every node. -/
def boardWalk : List Node :=
  [1, 2, 3, 4, 5, 6, 7, 0, 8, 9, 10, 11, 12, 13, 14, 15, 8, 16, 17, 18, 19, 20, 21, 22, 23]

theorem boardWalk_chain (diagonal : Bool) : boardWalk.IsChain (Adjacent diagonal) := by
  unfold boardWalk
  revert diagonal
  decide +kernel

theorem mem_boardWalk (n : Node) : n ∈ boardWalk := by
  revert n
  decide +kernel

/-- Between a node of one kind and a node of the other, two neighbours differ. -/
theorem exists_adjacent_boundary (diagonal : Bool) {p : Node → Prop} {a b : Node} (ha : p a)
    (hb : ¬p b) : ∃ m n, p m ∧ ¬p n ∧ Adjacent diagonal m n :=
  exists_boundary (fun m n => (adjacent_comm diagonal m n).1) (boardWalk_chain diagonal)
    ⟨a, mem_boardWalk a, ha⟩ ⟨b, mem_boardWalk b, hb⟩

namespace Edited

variable (h : Edited options s t)

include h

theorem withSide (c : Side) : Edited options { s with sideToMove := c.toI8 }
    { t with sideToMove := c.toI8 } :=
  { h with side := rfl }

omit h in
/-- A side with a piece in hand finds a node for it. -/
theorem exists_vacant (hvalid : options.AssertValid)
    (hfits : ∀ x, piecesOf s.board x ≤ options.pieceCount)
    (hless : piecesOf s.board c < options.pieceCount) : ∃ n, Vacant s.board n := by
  by_contra hnone
  have htaken : ∀ n, s.board n = (0 : Side).toI8 + 1 ∨ s.board n = (1 : Side).toI8 + 1 := by
    intro n
    by_contra hneither
    rw [not_or] at hneither
    refine hnone ⟨n, fun d => ?_⟩
    rcases Side.eq_or_eq_opponent 0 d with rfl | rfl
    · exact hneither.1
    · exact hneither.2
  -- every node is white or black, so the two counts sum to all the nodes
  have hsplit := List.length_eq_countP_add_countP
    (fun m => decide (s.board m = (0 : Side).toI8 + 1)) (l := List.finRange 24)
  have hblack : (List.finRange 24).countP
      (fun m => decide ¬decide (s.board m = (0 : Side).toI8 + 1) = true)
        ≤ piecesOf s.board 1 := by
    unfold piecesOf MillState.countPieces
    refine List.countP_mono_left fun n _ hn => ?_
    rw [decide_eq_true_eq, decide_eq_true_eq] at hn
    exact decide_eq_true ((htaken n).resolve_left hn)
  rw [List.length_finRange] at hsplit
  have hwhite : (List.finRange 24).countP (fun m => decide (s.board m = (0 : Side).toI8 + 1))
      = piecesOf s.board 0 := rfl
  have hcount := hvalid.pieceCount.2
  have h0 := hfits 0
  have h1 := hfits 1
  rcases Side.eq_or_eq_opponent 0 c with rfl | rfl
  · omega
  · have hone : (0 : Side).opponent = 1 := rfl
    rw [hone] at hless
    omega

/-- A full board leaves no node vacant. -/
theorem not_vacant_of_full (hfull : 24 ≤ t.piecesOnBoard 0 + t.piecesOnBoard 1) (n : Node) :
    ¬Vacant s.board n := by
  intro hvacant
  have htotal := countP_add_lt (p := fun m => decide (s.board m = (0 : Side).toI8 + 1))
    (q := fun m => decide (s.board m = (1 : Side).toI8 + 1)) (l := List.finRange 24)
    (fun m hm => by
      rw [decide_eq_true_eq] at hm
      rw [hm]
      decide)
    (List.mem_finRange n) (decide_eq_false (hvacant 0)) (decide_eq_false (hvacant 1))
  rw [h.onBoard, h.onBoard] at hfull
  unfold piecesOf MillState.countPieces at hfull
  rw [List.length_finRange] at htotal
  omega

/-- A surrounded side with pieces left on the board touches a piece of the other side. -/
theorem exists_touching (hactive : t.sideToMove = c.toI8)
    (hsurrounded : isAllSurrounded t options t.sideToMove = true)
    (hown : ∃ m, s.board m = c.toI8 + 1) (hother : ∃ n, s.board n = c.opponent.toI8 + 1) :
    ∃ n, s.board n = c.opponent.toI8 + 1 ∧ isAdjacentToSidePiece t options n = true := by
  obtain ⟨m, hm⟩ := hown
  obtain ⟨n, hn⟩ := hother
  have hdistinct : ¬s.board n = c.toI8 + 1 := by
    rw [hn]
    intro heq
    exact Side.opponent_ne c (Side.toI8_injective (by omega))
  -- somewhere an own piece touches a node that is not its own, and it is not empty
  obtain ⟨x, y, hx, hy, hadj⟩ := exists_adjacent_boundary options.hasDiagonalLines
    (p := fun k => s.board k = c.toI8 + 1) hm hdistinct
  have htaken : ¬Vacant s.board y := by
    rw [hactive] at hsurrounded
    unfold isAllSurrounded at hsurrounded
    rw [if_neg (by simp)] at hsurrounded
    simp only [Side.sideIndex_toI8] at hsurrounded
    split at hsurrounded
    · rename_i hfull
      exact h.not_vacant_of_full hfull y
    · split at hsurrounded
      · exact absurd hsurrounded Bool.false_ne_true
      · intro hvacant
        have hpiece := List.all_eq_true.1 hsurrounded x
          ((mem_maskNodes _ _).2 ((h.live_iff c x).2 hx))
        unfold isPieceSurrounded at hpiece
        rw [(h.lastMill c).1, (h.lastMill c).2] at hpiece
        simp only [Bool.or_eq_true, decide_eq_true_eq, Bool.and_eq_true] at hpiece
        rcases hpiece with hnone | ⟨-, hlast⟩
        · have hbit := (@testBit_emptyNeighbors t options x y).2
            ⟨hadj, (h.vacant_iff y).2 hvacant⟩
          unfold emptyNeighbors at hbit
          rw [hnone] at hbit
          exact absurd hbit (by simp)
        · exact absurd hlast Bool.false_ne_true
  have hyother : s.board y = c.opponent.toI8 + 1 := by
    unfold Vacant at htaken
    push Not at htaken
    obtain ⟨d, hd⟩ := htaken
    rcases Side.eq_or_eq_opponent c d with rfl | rfl
    · exact absurd hd hy
    · exact hd
  refine ⟨y, hyother, ?_⟩
  unfold isAdjacentToSidePiece
  rw [if_neg (by rw [hactive]; simp), pieceBitboard_own hactive, decide_eq_true_eq]
  intro hnone
  have hbit : testBit (t.byColorBb c &&& neighborMaskFor y options.hasDiagonalLines) x = true := by
    rw [testBit_and, (h.live_iff c x).2 hx, Bool.true_and]
    exact (adjacent_comm _ _ _).1 hadj
  rw [hnone] at hbit
  exact absurd hbit (by simp)

/-- **A side may remove something** exactly when the other side has a piece. -/
theorem removable_iff (hvalid : options.AssertValid) (hactive : t.sideToMove = c.toI8) :
    (∃ n, isRegularRemoveTarget t options (c.opponent.toI8 + 1) 0 n = true)
      ↔ ∃ n, s.board n = c.opponent.toI8 + 1 := by
  have hpiece : t.pieceBitboard (c.opponent.toI8 + 1) = t.byColorBb c.opponent := by
    unfold MillPosition.pieceBitboard
    rw [Side.colorIndexForPiece_toI8]
  have hmills : millMembersMaskForPiece t options (c.opponent.toI8 + 1)
      = millMembersMaskForColor t options c.opponent := by
    unfold millMembersMaskForPiece
    rw [Side.colorIndexForPiece_toI8]
  constructor
  · rintro ⟨n, hn⟩
    have hlive := isRegularRemoveTarget_live hn
    rw [hpiece] at hlive
    exact ⟨n, (h.live_iff _ n).1 hlive⟩
  · rintro ⟨n, hn⟩
    by_cases hcontext : isStalemateRemovalContext t options = true
    · have hsurrounded : isAllSurrounded t options t.sideToMove = true ∧ t.phase = .moving := by
        unfold isStalemateRemovalContext at hcontext
        rw [h.notStalemate.1, h.notStalemate.2] at hcontext
        simp only [Bool.or_self, Bool.false_eq_true, if_false, Bool.and_eq_true,
          decide_eq_true_eq] at hcontext
        exact ⟨hcontext.2, hcontext.1.1.1.2⟩
      have hown : ∃ m, s.board m = c.toI8 + 1 := by
        rcases h.phase with ⟨hempty, -⟩ | ⟨-, hplacing⟩
        · have hmany : 0 < piecesOf s.board c := by
            have := hempty c
            have := hvalid.pieceCount.1
            omega
          obtain ⟨m, -, hm⟩ := List.countP_pos_iff.1 hmany
          exact ⟨m, of_decide_eq_true hm⟩
        · rw [hplacing] at hsurrounded
          cases hsurrounded.2
      -- surrounded: the pieces that touch the side are the ones it may take
      obtain ⟨m, hm, htouch⟩ := h.exists_touching hactive hsurrounded.1 hown ⟨n, hn⟩
      refine ⟨m, ?_⟩
      unfold isRegularRemoveTarget
      simp only [hpiece, hcontext, (h.live_iff _ m).2 hm, htouch]
      simp
    · rw [Bool.not_eq_true] at hcontext
      -- elsewhere a piece outside a mill will do, or any piece when all are in mills
      have hregular : ∀ m, s.board m = c.opponent.toI8 + 1 →
          (options.mayRemoveFromMillsAlways = true
            ∨ ¬InMill options s.board c.opponent m
            ∨ ∀ k, s.board k = c.opponent.toI8 + 1 → InMill options s.board c.opponent k) →
          isRegularRemoveTarget t options (c.opponent.toI8 + 1) 0 m = true := by
        intro m hm hfree
        have houtside := h.outside_mills_iff c.opponent
        have hmember := h.testBit_millMembers c.opponent m
        unfold isRegularRemoveTarget
        simp only [hpiece, hmills, hcontext, (h.live_iff _ m).2 hm]
        cases halways : options.mayRemoveFromMillsAlways with
        | true => simp
        | false =>
          simp only [halways, Bool.false_eq_true, false_or] at hfree
          rcases hfree with hout | hin
          · have hmiss : testBit (millMembersMaskForColor t options c.opponent) m = false := by
              rw [Bool.eq_false_iff]
              exact fun hbit => hout (hmember.1 hbit)
            simp [hmiss]
          · have hnone : t.byColorBb c.opponent
                &&& ~~~millMembersMaskForColor t options c.opponent = 0 := by
              by_contra hsome
              obtain ⟨k, hk, hkout⟩ := houtside.1 hsome
              exact hkout (hin k hk)
            simp [hnone]
      by_cases hall : ∀ k, s.board k = c.opponent.toI8 + 1 → InMill options s.board c.opponent k
      · exact ⟨n, hregular n hn (Or.inr (Or.inr hall))⟩
      · push Not at hall
        obtain ⟨m, hm, hout⟩ := hall
        exact ⟨m, hregular m hm (Or.inr (Or.inl hout))⟩

theorem remove_iff (hvalid : options.AssertValid) (hactive : t.sideToMove = c.toI8) :
    (∃ n, RemoveTarget t options n) ↔ ∃ n, s.board n = c.opponent.toI8 + 1 := by
  have hnone : captureTargetsOfActive t = 0 := by
    unfold captureTargetsOfActive
    simp [(h.captures _).custodian, (h.captures _).intervention, (h.captures _).leap]
  have hopponent : t.opponentPiece = c.opponent.toI8 + 1 := by
    unfold MillState.opponentPiece
    rw [hactive, Side.xorOne_toI8]
  rw [← h.removable_iff hvalid hactive]
  refine exists_congr fun n => ?_
  unfold RemoveTarget
  rw [hnone, hopponent, h.notOwn]
  simp

/-- The generators find something exactly when the side to move can act. -/
theorem act_iff (hvalid : options.AssertValid) (hactive : t.sideToMove = c.toI8)
    (hfits : ∀ x, piecesOf s.board x ≤ options.pieceCount)
    (htargets : 0 < s.pendingRemovals c → ∃ n, s.board n = c.opponent.toI8 + 1) :
    (∃ a, LegalAction t options a) ↔ CanAct options s c := by
  have hover : ¬(t.phase = .gameOver ∨ ¬(0 ≤ t.sideToMove ∧ t.sideToMove ≤ 1)) := by
    rw [hactive]
    rcases h.phase with ⟨-, hphase⟩ | ⟨-, hphase⟩ <;> simp [hphase]
  have hpending : t.pendingRemovals (sideIndex t.sideToMove) = s.pendingRemovals c := by
    rw [hactive, Side.sideIndex_toI8, h.pending]
  have hmoves : ∀ allowFly, (∃ a source target, a = moveAction source target
      ∧ MoveTarget t options allowFly source target)
        ↔ ∃ source target, MoveTarget t options allowFly source target := by
    intro allowFly
    constructor
    · rintro ⟨-, source, target, -, hmove⟩
      exact ⟨source, target, hmove⟩
    · rintro ⟨source, target, hmove⟩
      exact ⟨_, source, target, rfl, hmove⟩
  have hremove : (∃ a, s.pendingRemovals c > 0 ∧ ∃ n, a = removeAction n ∧ RemoveTarget t options n)
      ↔ 0 < s.pendingRemovals c := by
    constructor
    · rintro ⟨-, howed, -⟩
      exact howed
    · intro howed
      obtain ⟨n, hn⟩ := (h.remove_iff hvalid hactive).2 (htargets howed)
      exact ⟨_, howed, n, rfl, hn⟩
  have hselect : (∃ a, t.phase = .moving ∧ ∃ source target, a = moveAction source target
      ∧ MoveTarget t options true source target)
        ↔ HandsEmpty options s.board ∧ CanSelect options s.board c := by
    rcases h.phase with ⟨hempty, hphase⟩ | ⟨hhands, hphase⟩
    · rw [← h.select_iff hactive hempty hphase, ← hmoves true]
      simp [hphase, hempty]
    · simp [hphase, hhands]
  have hplace : t.phase = .placing → ((∃ a, (∃ n, a = placeAction n ∧ PlaceTarget t n)
      ∨ options.mayMoveInPlacingPhase = true ∧ ∃ source target, a = moveAction source target
        ∧ MoveTarget t options false source target) ↔ CanPlace options s.board c) := by
    intro hphase
    have hhand : t.piecesInHand (sideIndex t.sideToMove)
        = options.pieceCount - piecesOf s.board c := by
      rw [hactive, Side.sideIndex_toI8, h.inHand]
    unfold PlaceTarget CanPlace
    rw [hhand]
    by_cases hless : piecesOf s.board c < options.pieceCount
    · obtain ⟨n, hn⟩ := exists_vacant hvalid hfits hless
      refine iff_of_true ⟨placeAction n, Or.inl ⟨n, rfl, by omega, (h.vacant_iff n).2 hn⟩⟩
        (Or.inl hless)
    · have hfull : options.pieceCount ≤ piecesOf s.board c := not_lt.1 hless
      constructor
      · rintro ⟨a, ⟨n, -, hhand, -⟩ | ⟨hmay, hmove⟩⟩
        · omega
        · exact Or.inr ⟨hmay, (h.place_iff hactive hfull hphase hmay).1
            ((hmoves false).1 ⟨a, hmove⟩)⟩
      · rintro (hnever | ⟨hmay, hmove⟩)
        · exact absurd hnever hless
        · obtain ⟨a, ha⟩ := (hmoves false).2 ((h.place_iff hactive hfull hphase hmay).2 hmove)
          exact ⟨a, Or.inr ⟨hmay, ha⟩⟩
  have haction : t.action = s.action := h.action
  unfold LegalAction MillState.actionForLegalGeneration CanAct
  rw [if_neg hover, hpending, haction]
  cases hkind : s.action with
  | remove =>
    rw [if_neg (by simp)]
    exact hremove
  | select =>
    rw [if_neg (by simp)]
    exact hselect
  | gameOver =>
    rw [if_neg (by simp)]
    simp
  | place =>
    have hranged : 0 ≤ t.sideToMove := by
      rw [hactive]
      exact c.toI8_nonneg
    by_cases howed : 0 < s.pendingRemovals c
    · -- the owed removal takes precedence over the placement
      have hsynced : t.syncedAction = .remove := by
        unfold MillState.syncedAction
        rw [if_neg fun hphase => hover (Or.inl hphase),
          if_pos ⟨hranged, by rw [hpending]; exact howed⟩]
      rw [if_pos ⟨rfl, Or.inr ⟨hranged, howed⟩⟩, hsynced]
      exact iff_of_true (hremove.2 howed) (Or.inl howed)
    · rcases h.phase with ⟨hempty, hphase⟩ | ⟨hhands, hphase⟩
      · have hsynced : t.syncedAction = .select := by
          unfold MillState.syncedAction
          rw [if_neg fun hphase => hover (Or.inl hphase), if_neg fun hboth => howed (by
            rw [hpending] at hboth
            exact hboth.2), hphase]
        rw [if_pos ⟨rfl, Or.inl (by rw [hphase]; decide)⟩, hsynced]
        refine hselect.trans ?_
        simp [howed, hempty]
      · rw [if_neg (by
          rintro ⟨-, hnot | hboth⟩
          · exact hnot hphase
          · exact howed hboth.2)]
        refine (hplace hphase).trans ?_
        simp [howed, hhands]

end Edited

/-! ## The key that is stored -/

theorem byte_pending (options : MillVariantOptions) (u : MillState) (c : Side) :
    (u.encode options).opaquePayload.byte (28 + c.toI8.toNat) = u8Byte (u.pendingRemovals c) := by
  rcases Side.eq_or_eq_opponent 0 c with rfl | rfl <;> rfl

theorem setWidth_u8Byte_eq_zero (value : Nat) :
    (u8Byte value).setWidth 2 = 0 ↔ value % 4 = 0 := by
  unfold u8Byte
  rw [← BitVec.toNat_inj]
  simp

/-- The counter of a state without a key is what its side to move owes. -/
theorem decodeMiscCount_of_key_zero {u : MillState} (hkey : fullStateKey u = 0) :
    MillState.decodeMiscCount (u.encode options) = 0
      ↔ ∀ c : Side, u.sideToMove = c.toI8 → u.pendingRemovals c % 4 = 0 := by
  have hside : (u.encode options).sideToMove = u.sideToMove := rfl
  unfold MillState.decodeMiscCount
  rw [if_neg (not_not.2 (show (u.encode options).zobristKey = 0 from hkey)), hside]
  by_cases hrange : 0 ≤ u.sideToMove ∧ u.sideToMove ≤ 1
  · rw [if_pos hrange]
    have hcases : u.sideToMove = 0 ∨ u.sideToMove = 1 := by omega
    obtain ⟨c, hc⟩ := Side.exists_toI8 hcases
    rw [hc, byte_pending, setWidth_u8Byte_eq_zero]
    constructor
    · intro hzero d hd
      rw [← Side.toI8_injective hd]
      exact hzero
    · exact fun hall => hall c rfl
  · rw [if_neg hrange]
    refine iff_of_true rfl fun c hc => absurd ?_ hrange
    rw [hc]
    exact ⟨c.toI8_nonneg, c.toI8_le_one⟩

theorem fullStateKey_recomputeAux (s : MillState) (phase : MillPhase) :
    fullStateKey { s.recomputeAux options with phase := phase }
      = applyMisc (boardKey s.board ^^^ sideKey s.sideToMove) 0 := by
  have hmisc : miscCount { s.recomputeAux options with phase := phase } = 0 := by
    unfold miscCount
    split <;> rfl
  have hclean : captureStateIsEmpty { s.recomputeAux options with phase := phase } = true :=
    captureStateIsEmpty_iff_empty.2 fun c => capturesEmpty_cleared c
  have hmarks : targetsKey (MillZobrist.psq 3) 0 = 0#64 := by
    unfold targetsKey maskNodes
    simp
  rw [fullStateKey_eq, hmisc]
  unfold keyAccumulator
  rw [captureKey_of_empty hclean, captureKey_of_empty hclean]
  show applyMisc (boardKey s.board ^^^ targetsKey (MillZobrist.psq 3) 0 ^^^ sideKey s.sideToMove
    ^^^ 0#64 ^^^ 0#64) 0 = _
  rw [hmarks, BitVec.xor_zero, BitVec.xor_zero, BitVec.xor_zero]

/-! ## The result -/

theorem outcome_ongoing {r : MillRules} {snap : GameStateSnapshot}
    (hrun : (MillState.decodeWithOptions snap r.options).phase ≠ .gameOver) :
    (r.outcome snap).kind = .ongoing := by
  unfold MillRules.outcome
  simp only
  rw [if_neg hrun]

/-- The stored state looks like a position of a game exactly when the edited one was ready. -/
theorem Edited.likeReached_iff {r : MillRules} {u : MillState}
    (h : Edited r.options s (reloaded r.options u))
    (hload : MillState.decodeWithOptions (u.encode r.options) r.options = reloaded r.options u)
    (hkey : fullStateKey u = applyMisc (boardKey s.board ^^^ sideKey s.sideToMove) 0) :
    LikeReached r (u.encode r.options) ↔ ReadyToFinish r.options s := by
  have hrun : (reloaded r.options u).phase ≠ .gameOver := by
    rcases h.phase with ⟨-, hphase⟩ | ⟨-, hphase⟩ <;> simp [hphase]
  have hmaterial : ∀ c, (reloaded r.options u).piecesOnBoard c
      + (reloaded r.options u).piecesInHand c
      ≤ r.options.pieceCount ↔ piecesOf s.board c ≤ r.options.pieceCount := by
    intro c
    rw [h.onBoard, h.inHand]
    omega
  have howed : ∀ c : Side, (0 < (reloaded r.options u).pendingRemovals c → ∃ n,
      isRegularRemoveTarget { reloaded r.options u with sideToMove := c.toI8 } r.options
        ((removalTarget (reloaded r.options u) c).toI8 + 1) 0 n = true)
        ↔ (0 < s.pendingRemovals c → ∃ n, s.board n = c.opponent.toI8 + 1) := by
    intro c
    have htarget : removalTarget (reloaded r.options u) c = c.opponent := by
      unfold removalTarget
      rw [h.notOwn]
      rfl
    rw [htarget, h.pending]
    exact imp_congr_right fun _ => (h.withSide c).removable_iff r.valid rfl
  -- the editor writes no count in the key, so the key is current if it reads back as none
  have hcurrent : (u.encode r.options).zobristKey = fullStateKey (reloaded r.options u)
      ↔ ∀ c : Side, s.sideToMove = c.toI8 → s.pendingRemovals c % 4 = 0
        ∨ applyMisc (boardKey s.board ^^^ sideKey s.sideToMove) 0 ≠ 0 := by
    have hzero : miscCount u = 0 := by
      have := applyMisc_extract (keyAccumulator u) (miscCount u)
      rw [← fullStateKey_eq, hkey, applyMisc_extract] at this
      exact this.symm
    have hsame : (u.encode r.options).zobristKey = fullStateKey (reloaded r.options u)
        ↔ MillState.decodeMiscCount (u.encode r.options) = 0 := by
      have hcount : miscCount (reloaded r.options u)
          = MillState.decodeMiscCount (u.encode r.options) := by
        unfold miscCount
        rw [if_pos hrun]
        rfl
      show fullStateKey u = fullStateKey (reloaded r.options u) ↔ _
      rw [fullStateKey_eq, fullStateKey_eq, hcount, hzero]
      exact (applyMisc_inj (keyAccumulator u)).trans eq_comm
    rw [hsame, ← hkey]
    -- a zero key is given a substitute, which reads back as the bits of the owed removal
    by_cases hnone : fullStateKey u = 0
    · rw [decodeMiscCount_of_key_zero hnone]
      have hside : u.sideToMove = s.sideToMove := h.side
      have hpending : u.pendingRemovals = s.pendingRemovals := h.pending
      simp [hnone, hside, hpending]
    · rw [decodeMiscCount_encode r.options hnone, hzero]
      exact iff_of_true rfl fun c _ => Or.inr hnone
  have hlegal : r.legalActions (u.encode r.options) ≠ []
      ↔ ∃ a, LegalAction (reloaded r.options u) r.options a := by
    have hmem : ∀ a, a ∈ r.legalActions (u.encode r.options)
        ↔ LegalAction (reloaded r.options u) r.options a := by
      intro a
      rw [mem_legalActions_iff, hload]
    constructor
    · intro hsome
      obtain ⟨a, ha⟩ := List.exists_mem_of_ne_nil _ hsome
      exact ⟨a, (hmem a).1 ha⟩
    · rintro ⟨a, ha⟩
      exact List.ne_nil_of_mem ((hmem a).2 ha)
  constructor
  · intro hlike
    have hfits : ∀ c, piecesOf s.board c ≤ r.options.pieceCount := fun c =>
      (hmaterial c).1 (by rw [← hload]; exact hlike.material c)
    have htargets : ∀ c : Side, 0 < s.pendingRemovals c → ∃ n, s.board n = c.opponent.toI8 + 1 :=
      fun c => (howed c).1 (by rw [← hload]; exact hlike.owed c)
    refine ⟨hfits, htargets, hcurrent.1 (by rw [← hload]; exact hlike.keyCurrent), ?_⟩
    have hsome := hlike.goesOn.resolve_left
      (not_not.2 (outcome_ongoing (by rw [hload]; exact hrun)))
    obtain ⟨a, ha⟩ := hlegal.1 hsome
    obtain ⟨c, hc⟩ : ∃ c : Side, (reloaded r.options u).sideToMove = c.toI8 := by
      by_contra hnobody
      have hrange : ¬(0 ≤ (reloaded r.options u).sideToMove
          ∧ (reloaded r.options u).sideToMove ≤ 1) := by
        intro hrange
        have hcases : (reloaded r.options u).sideToMove = 0
            ∨ (reloaded r.options u).sideToMove = 1 := by omega
        exact hnobody (Side.exists_toI8 hcases)
      unfold LegalAction MillState.actionForLegalGeneration at ha
      rw [if_pos (Or.inr hrange)] at ha
      exact ha
    exact ⟨c, h.side.symm.trans hc, (h.act_iff r.valid hc hfits (htargets c)).1 ⟨a, ha⟩⟩
  · rintro ⟨hfits, htargets, hkeyed, c, hc, hact⟩
    have hside : (reloaded r.options u).sideToMove = c.toI8 := h.side.trans hc
    exact
      { material := fun x => by
          rw [hload]
          exact (hmaterial x).2 (hfits x)
        owed := fun x => by
          rw [hload]
          exact (howed x).2 (htargets x)
        keyCurrent := by
          rw [hload]
          exact hcurrent.2 hkeyed
        goesOn := Or.inr (hlegal.2 ((h.act_iff r.valid hside hfits (htargets c)).2 hact)) }

/--
**After any calls, `setup_finish` builds what looks like a position of a game** exactly
when the state before it was ready.
-/
theorem setupFinish_likeReached_iff (r : MillRules) (kernel : GameKernel) (calls : List SetupCall) :
    LikeReached r (r.runSetup kernel (calls ++ [.finish])).state
      ↔ ReadyToFinish r.options (MillState.decode (r.runSetup kernel calls).state) := by
  have hlast : r.runSetup kernel (calls ++ [.finish])
      = r.setupFinish (r.runSetup kernel calls) := by
    unfold MillRules.runSetup
    rw [List.foldl_append]
    rfl
  rw [hlast]
  obtain ⟨phase, hphase, hsnap⟩ : ∃ phase,
      (HandsEmpty r.options (MillState.decode (r.runSetup kernel calls).state).board
          ∧ phase = .moving
        ∨ ¬HandsEmpty r.options (MillState.decode (r.runSetup kernel calls).state).board
          ∧ phase = .placing)
      ∧ (r.setupFinish (r.runSetup kernel calls)).state
        = MillState.encode { (MillState.decode (r.runSetup kernel calls).state).recomputeAux
            r.options with phase := phase } r.options := by
    rcases setupPhase_cases r.valid (MillState.decode (r.runSetup kernel calls).state) with
      ⟨hempty, heq⟩ | ⟨hhands, heq⟩
    · exact ⟨.moving, Or.inl ⟨hempty, rfl⟩, congrArg (MillState.encode · r.options) heq⟩
    · exact ⟨.placing, Or.inr ⟨hhands, rfl⟩, congrArg (MillState.encode · r.options) heq⟩
  rw [hsnap]
  exact (edited_reloaded hphase).likeReached_iff
    (decode_encode r.options (encodable_recomputeAux r.valid _ phase))
    (fullStateKey_recomputeAux _ phase)

end Finish

/-! ## A board nobody can play on -/

/-- Nine white pieces, no black one, and white to move. -/
def whiteOnlyCalls : List SetupCall :=
  .clear :: [0, 1, 2, 3, 4, 5, 6, 7, 8].map fun node => .setPiece node 1

/-- White has no piece left to place and may not move before black has placed its own. -/
theorem setupFinish_stuck :
    let r : MillRules := ⟨{}, by decide⟩
    ¬LikeReached r (r.runSetup ⟨r.initialState, [], []⟩ (whiteOnlyCalls ++ [.finish])).state := by
  intro r hlike
  have hstuck : (r.outcome (r.runSetup ⟨r.initialState, [], []⟩
      (whiteOnlyCalls ++ [.finish])).state).kind = .ongoing
        ∧ r.legalActions (r.runSetup ⟨r.initialState, [], []⟩
          (whiteOnlyCalls ++ [.finish])).state = [] := by
    decide +kernel
  rcases hlike.goesOn with hover | hsome
  · exact hover hstuck.1
  · exact hsome hstuck.2

end Sanmill
