import Sanmill.Proof.HumanDb.Notation

/-!
# Keys of positions

What a key is made of, the texts that present a symmetric position, and the text a key
is decoded to.
-/

namespace Sanmill.HumanDb

open Orbit

/-! ## Boards and nodes -/

/-- The node at an index of the board string. -/
def orderNode (i : Node) : Node := nmmPositionOrderNodes.getD i.val 0

theorem orderIndex_lt (n : Node) : nmmPositionOrderNodes.idxOf n < 24 := by
  revert n
  decide

def orderIndex (n : Node) : Node := ⟨nmmPositionOrderNodes.idxOf n, orderIndex_lt n⟩

theorem orderIndex_orderNode (i : Node) : orderIndex (orderNode i) = i := by
  revert i
  decide

theorem orderNode_orderIndex (n : Node) : orderNode (orderIndex n) = n := by
  revert n
  decide

/-- The labels of the database are those of the engine. -/
theorem nodeFromLabel_label (i : Node) : nodeFromLabel (label i) = some (orderNode i) := by
  have hall : ((List.finRange 24).all fun i =>
      nodeFromLabel (label i) == some (orderNode i)) = true := by
    decide +kernel
  rw [List.all_eq_true] at hall
  exact eq_of_beq (hall i (List.mem_finRange i))

/-- Where a symmetry sends a node. -/
def symmetricNode (s : Sym) (n : Node) : Node := orderNode (symIndex s (orderIndex n))

theorem symmetricNode_inverse (s : Sym) (n : Node) :
    symmetricNode (inverseSym s) (symmetricNode s n) = n := by
  unfold symmetricNode
  rw [orderIndex_orderNode, symIndex_inverse, orderNode_orderIndex]

def boardChar (piece : Int) : Char := if piece = 1 then 'W' else if piece = 2 then 'B' else '.'

theorem length_nmmBoard24 (board : Node → Int) : (nmmBoard24 board).length = 24 := by
  unfold nmmBoard24
  rw [List.length_map]
  rfl

theorem getElem?_nmmBoard24 (board : Node → Int) (i : Node) :
    (nmmBoard24 board)[i.val]? = some (boardChar (board (orderNode i))) := by
  have hlt : i.val < nmmPositionOrderNodes.length := i.isLt
  unfold nmmBoard24 boardChar orderNode
  rw [List.getElem?_map, List.getD_eq_getElem?_getD, List.getElem?_eq_getElem hlt]
  rfl

/-- A symmetric position has a symmetric board string. -/
theorem nmmBoard24_symmetric {board image : Node → Int} {s : Sym}
    (h : ∀ n, image (symmetricNode s n) = board n) :
    nmmBoard24 image = imageOf s (nmmBoard24 board) := by
  refine board_ext (length_nmmBoard24 _) (length_imageOf _ _) s fun i => ?_
  rw [getElem?_nmmBoard24, getElem?_imageOf (length_nmmBoard24 board), getElem?_nmmBoard24,
    ← h (orderNode i)]
  unfold symmetricNode
  rw [orderIndex_orderNode]

/-! ## What a key is made of -/

def sideLetter (side : Side) : Text := if side = 0 then ['W'] else ['B']

def sideToken (side : Side) : Text := if side = 0 then ['w'] else ['b']

/-- The key of a state, with `side` written as the side to move. -/
def keyOf (canonical : Text) (side : Side) (state : MillState) : Text :=
  joinKey canonical (sideLetter side)
    (phaseForSide state.phase (state.piecesInHand side) (state.piecesOnBoard side))
    (Text.decimal (9 - state.piecesInHand 0)) (Text.decimal (9 - state.piecesInHand 1))
    (Text.decimal (state.piecesOnBoard 0)) (Text.decimal (state.piecesOnBoard 1))

/-- **When a text has a key, and which.** -/
theorem stateKeyFromFen_eq_ok {fen key : Text} {n : Nat} :
    stateKeyFromFen fen = some (.ok (key, n)) ↔
      ∃ (side : Side) (state : MillState) (canonical : Text),
        (Text.splitWhitespace fen).getD 1 [] = sideToken side
        ∧ setFromFen {} fen = .ok state
        ∧ countError? state = none
        ∧ canonicalBoardStr (nmmBoard24 state.board) = some (canonical, n)
        ∧ key = keyOf canonical side state := by
  unfold stateKeyFromFen
  dsimp only
  constructor
  -- the four refusals: the length, the side, the parse and the counts
  · intro h
    split at h
    · exact absurd h (by simp)
    · split at h
      · exact absurd h (by simp)
      · rename_i hside
        split at h
        · exact absurd h (by simp)
        · rename_i state hstate
          split at h
          · exact absurd h (by simp)
          · rename_i hcount
            obtain ⟨⟨canonical, m⟩, hcanonical, heq⟩ := Option.map_eq_some_iff.1 h
            obtain ⟨rfl, rfl⟩ := Prod.mk.inj (Except.ok.inj heq)
            by_cases hw : (Text.splitWhitespace fen).getD 1 [] = ['w']
            · refine ⟨0, state, canonical, hw, hstate, hcount, hcanonical, ?_⟩
              simp only [hw, if_true]
              rfl
            · have hb : (Text.splitWhitespace fen).getD 1 [] = ['b'] := by
                by_contra hb
                exact hside ⟨hw, hb⟩
              refine ⟨1, state, canonical, hb, hstate, hcount, hcanonical, ?_⟩
              simp only [hw, if_false]
              rfl
  · rintro ⟨side, state, canonical, hside, hstate, hcount, hcanonical, rfl⟩
    have hlen := (setFromFen_eq_ok.1 hstate).1
    rw [if_neg (by omega), hside, hstate]
    dsimp only
    rw [hcount, hcanonical]
    rcases Side.eq_or_eq_opponent 0 side with rfl | rfl
    · rfl
    · rfl

/-- A key sees the phase only as far as placing goes. -/
theorem keyOf_congr {canonical : Text} {side : Side} {s t : MillState}
    (hhand : t.piecesInHand = s.piecesInHand) (hboard : t.piecesOnBoard = s.piecesOnBoard)
    (hphase : t.phase = .placing ↔ s.phase = .placing) :
    keyOf canonical side t = keyOf canonical side s := by
  unfold keyOf phaseForSide
  simp only [hhand, hboard, hphase]

theorem countError?_congr {s t : MillState} (hhand : t.piecesInHand = s.piecesInHand)
    (hboard : t.piecesOnBoard = s.piecesOnBoard) : countError? t = countError? s := by
  unfold countError?
  rw [hhand, hboard]

/-! ## Reading under the default rules -/

/-- While pieces are being placed none of the terminal checks applies. -/
theorem checkIfGameIsOver_placing {s : MillState} (h : s.phase = .placing) :
    checkIfGameIsOver s {} = s := by
  unfold checkIfGameIsOver
  by_cases hside : s.sideToMove < 0
  · rw [if_pos (Or.inr hside)]
  · rw [if_neg (by simp [h, hside])]
    have hfull : maybeFinishFullBoard s {} = s := rfl
    have hdraw : maybeDrawByNMoveRule s {} true = s := by
      simp [maybeDrawByNMoveRule, isMoveCountingPhase, h]
    have hstale : (maybeHandleStalemate s {}).1 = s := by
      simp [maybeHandleStalemate, isStalemated, h]
    simp only [hfull, h, hdraw, hstale, reduceCtorEq, if_false]

/-- What is read is the record, up to the end of the game. -/
theorem setFromFen_material {fen : Text} {s : MillState} (h : setFromFen {} fen = .ok s) :
    ∃ (fenBoard : FenBoard) (record : FenRecord),
      parseFenBoard ((Text.splitWhitespace fen).getD 0 []) = .ok fenBoard
      ∧ record.Reads (Text.splitWhitespace fen) ((Text.splitWhitespace fen).drop 17)
      ∧ s.board = fenBoard.board ∧ s.piecesInHand = record.piecesInHand
      ∧ s.piecesOnBoard = record.piecesOnBoard
      ∧ (s.phase = .placing ↔ record.phase = .placing) := by
  obtain ⟨-, fenBoard, record, hboard, hrecord, rfl⟩ := setFromFen_eq_ok.1 h
  have hkeeps := @checkIfGameIsOver_keepsPosition (record.imported fenBoard {}) {} (by decide)
  have hposition := hkeeps.position
  refine ⟨fenBoard, record, hboard, hrecord, congrArg MillPosition.board hposition,
    congrArg MillPosition.piecesInHand hposition, congrArg MillPosition.piecesOnBoard hposition,
    fun hphase => ?_, fun hphase => ?_⟩
  · rcases hkeeps.phase with hsame | hover
    · rwa [hsame] at hphase
    · rw [hover] at hphase
      exact absurd hphase (by decide)
  · have himported : (record.imported fenBoard {}).phase = .placing := hphase
    rw [checkIfGameIsOver_placing himported]
    exact himported

/-! ## Symmetric texts -/

/-- The image of a board field. -/
def symmetricBoardStr (s : Sym) (boardStr : Text) : Text :=
  joinRanks ((List.finRange 24).map fun n : Node =>
    ((boardStr.splitOn '/').flatten).getD (symmetricNode (inverseSym s) n).val '*')

/-- The board of the image is the image of the board. -/
theorem parseFenBoard_symmetric {boardStr : Text} {fenBoard : FenBoard} (s : Sym)
    (h : parseFenBoard boardStr = .ok fenBoard) :
    ∃ image, parseFenBoard (symmetricBoardStr s boardStr) = .ok image
      ∧ ∀ n, image.board (symmetricNode s n) = fenBoard.board n := by
  obtain ⟨hlen, hpieces, rfl⟩ := parseFenBoard_eq_ok h
  let chars := (boardStr.splitOn '/').flatten
  let moved := (List.finRange 24).map fun n : Node =>
    chars.getD (symmetricNode (inverseSym s) n).val '*'
  have hmoved : moved.length = 24 := by
    change ((List.finRange 24).map _).length = 24
    rw [List.length_map, List.length_finRange]
  have hpiece : ∀ c ∈ moved, isFenPiece c = true := by
    intro c hc
    obtain ⟨n, -, rfl⟩ := List.mem_map.1 hc
    have hlt : (symmetricNode (inverseSym s) n).val < chars.length := by
      change _ < (boardStr.splitOn '/').flatten.length
      rw [hlen]
      exact (symmetricNode (inverseSym s) n).isLt
    rw [List.getD_eq_getElem?_getD, List.getElem?_eq_getElem hlt, Option.getD_some]
    exact hpieces _ (List.getElem_mem hlt)
  refine ⟨_, parseFenBoard_joinRanks hmoved hpiece, fun n => ?_⟩
  change fenPiece (moved.getD (symmetricNode s n).val '*') = fenPiece (chars.getD n.val '*')
  have hget : moved.getD (symmetricNode s n).val '*'
      = chars.getD (symmetricNode (inverseSym s) (symmetricNode s n)).val '*' := by
    change ((List.finRange 24).map _).getD _ '*' = _
    rw [List.getD_eq_getElem?_getD, List.getElem?_map, List.getElem?_eq_getElem (by simp)]
    simp
  rw [hget, symmetricNode_inverse]

/--
`g` presents the position of `f` under a symmetry: the image of the board, the same
side, phase and counts. The fields that record mills and captures may say anything.
-/
structure SymmetricFen (s : Sym) (f g : Text) : Prop where
  board : (Text.splitWhitespace g).getD 0 []
    = symmetricBoardStr s ((Text.splitWhitespace f).getD 0 [])
  fields : ∀ k, 0 < k → k < 8 →
    (Text.splitWhitespace g).getD k [] = (Text.splitWhitespace f).getD k []

/-- A symmetric text that can be read has the same key. -/
theorem stateKeyFromFen_symmetric {f g key : Text} {n : Nat} {s : Sym} {t : MillState}
    (h : stateKeyFromFen f = some (.ok (key, n))) (hsym : SymmetricFen s f g)
    (hread : setFromFen {} g = .ok t) : ∃ m, stateKeyFromFen g = some (.ok (key, m)) := by
  obtain ⟨side, state, canonical, hside, hstate, hcount, hcanonical, rfl⟩ :=
    stateKeyFromFen_eq_ok.1 h
  obtain ⟨fenBoard, record, hboard, hrecord, hb, hhand, hon, hphase⟩ := setFromFen_material hstate
  obtain ⟨fenBoard', record', hboard', hrecord', hb', hhand', hon', hphase'⟩ :=
    setFromFen_material hread
  -- the board moves with the symmetry, every other field is the same text
  obtain ⟨image, himage, hmoved⟩ := parseFenBoard_symmetric s hboard
  rw [hsym.board, himage] at hboard'
  have himage' : image = fenBoard' := Except.ok.inj hboard'
  have hfield := hsym.fields
  have hphaseEq : record'.phase = record.phase := by
    have := hrecord'.phase
    rw [hfield 2 (by decide) (by decide), hrecord.phase] at this
    exact (Except.ok.inj this).symm
  have hcounts : record'.piecesInHand = record.piecesInHand
      ∧ record'.piecesOnBoard = record.piecesOnBoard := by
    have h4 := hrecord'.onBoardW
    have h5 := hrecord'.inHandW
    have h6 := hrecord'.onBoardB
    have h7 := hrecord'.inHandB
    rw [hfield 4 (by decide) (by decide), hrecord.onBoardW] at h4
    rw [hfield 5 (by decide) (by decide), hrecord.inHandW] at h5
    rw [hfield 6 (by decide) (by decide), hrecord.onBoardB] at h6
    rw [hfield 7 (by decide) (by decide), hrecord.inHandB] at h7
    constructor
    · funext x
      rcases Side.eq_or_eq_opponent 0 x with rfl | rfl
      · exact (Except.ok.inj h5).symm
      · exact (Except.ok.inj h7).symm
    · funext x
      rcases Side.eq_or_eq_opponent 0 x with rfl | rfl
      · exact (Except.ok.inj h4).symm
      · exact (Except.ok.inj h6).symm
  have hhands : t.piecesInHand = state.piecesInHand := by rw [hhand', hcounts.1, hhand]
  have hons : t.piecesOnBoard = state.piecesOnBoard := by rw [hon', hcounts.2, hon]
  have hplacing : t.phase = .placing ↔ state.phase = .placing := by rw [hphase', hphaseEq, hphase]
  -- the boards are images of each other, and images have one canonical text
  have hboards : nmmBoard24 t.board = imageOf s (nmmBoard24 state.board) :=
    nmmBoard24_symmetric fun m => by rw [hb', ← himage', hmoved, hb]
  obtain ⟨m, hm⟩ := canonicalBoardStr_image (length_nmmBoard24 state.board) hcanonical s
  rw [← hboards] at hm
  refine ⟨m, stateKeyFromFen_eq_ok.2 ⟨side, t, canonical, ?_, hread, ?_, hm, ?_⟩⟩
  · rw [hfield 1 (by decide) (by decide), hside]
  · rw [countError?_congr hhands hons, hcount]
  · exact (keyOf_congr hhands hons hplacing).symm

/-- The text with its board field replaced by the image. -/
def symmetricFen (s : Sym) (fen : Text) : Text :=
  Text.joinBlank (symmetricBoardStr s ((Text.splitWhitespace fen).getD 0 [])
    :: (Text.splitWhitespace fen).drop 1)

/-- Replacing the board presents the symmetric position. -/
theorem splitWhitespace_symmetricFen {fen : Text} {fenBoard : FenBoard} (s : Sym)
    (h : parseFenBoard ((Text.splitWhitespace fen).getD 0 []) = .ok fenBoard) :
    Text.splitWhitespace (symmetricFen s fen)
      = symmetricBoardStr s ((Text.splitWhitespace fen).getD 0 [])
        :: (Text.splitWhitespace fen).drop 1 := by
  refine Text.splitWhitespace_joinBlank fun token htoken => ?_
  rcases List.mem_cons.1 htoken with rfl | htoken
  · obtain ⟨image, himage, -⟩ := parseFenBoard_symmetric s h
    exact isToken_of_parseFenBoard himage
  · exact Text.isToken_of_mem_splitWhitespace (List.mem_of_mem_drop htoken)

theorem symmetricFen_symmetric {fen : Text} {fenBoard : FenBoard} (s : Sym)
    (h : parseFenBoard ((Text.splitWhitespace fen).getD 0 []) = .ok fenBoard) :
    SymmetricFen s fen (symmetricFen s fen) where
  board := by
    rw [splitWhitespace_symmetricFen s h]
    rfl
  fields k hk _ := by
    obtain ⟨j, rfl⟩ := Nat.exists_eq_succ_of_ne_zero (by omega : k ≠ 0)
    rw [splitWhitespace_symmetricFen s h, List.getD_cons_succ, List.getD_eq_getElem?_getD,
      List.getElem?_drop, List.getD_eq_getElem?_getD, Nat.add_comm]

/-- The text with the image of the board is read whenever the text is. -/
theorem setFromFen_symmetricFen {fen : Text} {state : MillState} (s : Sym)
    (h : setFromFen {} fen = .ok state) : ∃ t, setFromFen {} (symmetricFen s fen) = .ok t := by
  obtain ⟨hlen, fenBoard, record, hboard, hrecord, -⟩ := setFromFen_eq_ok.1 h
  obtain ⟨image, himage, -⟩ := parseFenBoard_symmetric s hboard
  have htokens := splitWhitespace_symmetricFen s hboard
  have hfields : ∀ k, 0 < k → (Text.splitWhitespace (symmetricFen s fen)).getD k []
      = (Text.splitWhitespace fen).getD k [] := by
    intro k hk
    obtain ⟨j, rfl⟩ := Nat.exists_eq_succ_of_ne_zero (by omega : k ≠ 0)
    rw [htokens, List.getD_cons_succ, List.getD_eq_getElem?_getD, List.getElem?_drop,
      List.getD_eq_getElem?_getD, Nat.add_comm]
  have hext : (Text.splitWhitespace (symmetricFen s fen)).drop 17
      = (Text.splitWhitespace fen).drop 17 := by
    rw [htokens, List.drop_succ_cons, List.drop_drop]
  refine ⟨_, setFromFen_eq_ok.2 ⟨?_, image, record, ?_, ?_, rfl⟩⟩
  · rw [htokens, List.length_cons, List.length_drop]
    omega
  · rw [htokens, List.getD_cons_zero]
    exact himage
  · rw [hext]
    exact (FenRecord.reads_congr fun k hk _ => hfields k hk).2 hrecord

end Sanmill.HumanDb
