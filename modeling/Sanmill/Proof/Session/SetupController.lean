import Sanmill.Proof.FenChecks
import Sanmill.Proof.FenExport
import Sanmill.Proof.Reload
import Sanmill.Proof.Session.Consistency
import Sanmill.Session.SetupController

/-!
# What the setup editor keeps

Opening the editor and exporting at once writes a new text from the editor's own model. The
board, the marks, the side and the phase come through. The hands come through when white's
follows from black's, and a removal that is owed does not, since the editor starts from its
own counts. Then the terminal checks of the import run. `EditorKeeps` collects what has to
hold; `Restorable` does the same for the text that `cancel` goes back to.
-/

namespace Sanmill

open Bits MillSetupPositionController

variable {options : MillVariantOptions} {s t : MillState} {c : Side}

/-! ## Positions that look the same -/

/-- The board with its marks, the side, the phase, the hands and the removals owed. -/
structure SamePosition (s t : MillState) : Prop where
  pieces : ∀ n, fenChar t n = fenChar s n
  sideToMove : t.sideToMove = s.sideToMove
  phase : t.phase = s.phase
  piecesInHand : t.piecesInHand = s.piecesInHand
  pendingRemovals : t.pendingRemovals = s.pendingRemovals

theorem samePosition_reloaded (options : MillVariantOptions) :
    SamePosition s (reloaded options t) ↔ SamePosition s t :=
  ⟨fun h => ⟨h.pieces, h.sideToMove, h.phase, h.piecesInHand, h.pendingRemovals⟩,
    fun h => ⟨h.pieces, h.sideToMove, h.phase, h.piecesInHand, h.pendingRemovals⟩⟩

/-- **A text of a position is imported as that position** when its hands are, and when the
terminal checks leave the same removals owed. -/
theorem checks_samePosition_iff (hrunning : s.phase ≠ .gameOver) (hside : s.sideToMove = c.toI8)
    (hpieces : ∀ n, fenChar t n = fenChar s n) (hphase : t.phase = s.phase)
    (hsame : t.sideToMove = s.sideToMove) :
    SamePosition s (checkIfGameIsOver t options)
      ↔ t.piecesInHand = s.piecesInHand ∧ owedAfterChecks options t = some s.pendingRemovals := by
  -- the checks let the game go on, or end it or pass the turn, and then nothing agrees
  rcases @checkIfGameIsOver_cases options t c (by rwa [hphase]) (hsame.trans hside)
      with ⟨owed, howed, hgoes⟩ | ⟨hnone, hleft⟩
  · have hchar : ∀ n, fenChar (checkIfGameIsOver t options) n = fenChar t n := by
      intro n
      unfold fenChar
      rw [hgoes.position]
    rw [howed, Option.some.injEq]
    constructor
    · intro h
      exact ⟨(congrArg MillPosition.piecesInHand hgoes.position).symm.trans h.piecesInHand,
        hgoes.pending.symm.trans h.pendingRemovals⟩
    · rintro ⟨hhands, rfl⟩
      exact
        { pieces := fun n => (hchar n).trans (hpieces n)
          sideToMove := hgoes.side.trans hsame
          phase := hgoes.phase.trans hphase
          piecesInHand := (congrArg MillPosition.piecesInHand hgoes.position).trans hhands
          pendingRemovals := hgoes.pending }
  · rw [hnone]
    constructor
    · intro h
      rcases hleft with hover | hturn
      · exact absurd (h.phase.symm.trans hover) hrunning
      · exact absurd (h.sideToMove.trans hsame.symm) hturn
    · rintro ⟨-, h⟩
      cases h

/-- What the checks look at in a state that is read. -/
theorem FenRecord.imported_checked (record : FenRecord) (fenBoard : FenBoard)
    (options : MillVariantOptions) : (record.imported fenBoard options).checked
      = { byColorBb := bitboardsFromBoard fenBoard.board fenBoard.delayedMarkedPieces
          delayedMarkedPieces := fenBoard.delayedMarkedPieces
          piecesOnBoard := record.piecesOnBoard
          piecesInHand := record.piecesInHand
          sideToMove := record.side.toI8
          phase := record.phase
          pendingRemovals := record.finalRemove
          plySinceCapture := record.rule50
          lastMillFrom := record.lastMillFrom
          lastMillTo := record.lastMillTo
          formedMillsBb := record.formedMillsBb } := rfl

theorem FenRecord.imported_phase (record : FenRecord) (fenBoard : FenBoard)
    (options : MillVariantOptions) : (record.imported fenBoard options).phase = record.phase := rfl

theorem FenRecord.imported_sideToMove (record : FenRecord) (fenBoard : FenBoard)
    (options : MillVariantOptions) :
    (record.imported fenBoard options).sideToMove = record.side.toI8 := rfl

theorem FenRecord.imported_piecesInHand (record : FenRecord) (fenBoard : FenBoard)
    (options : MillVariantOptions) :
    (record.imported fenBoard options).piecesInHand = record.piecesInHand := rfl

/-! ## The text of the editor -/

section Editor

variable (controller : MillSetupPositionController)

theorem isFenPiece_pieceChar (color : PieceColor) :
    isFenPiece (MillSetupPositionController.pieceChar color) = true := by
  cases color <;> rfl

def Phase.millPhase : Phase → MillPhase
  | placing => .placing
  | moving => .moving

/-- What the editor's text parses to. -/
def editorRecord : FenRecord where
  side := controller.sideToMove
  phase := controller.phase.millPhase
  action :=
    if 0 < (controller.needRemove controller.sideToMove).val then .remove
    else match controller.phase with
    | .placing => .place
    | .moving => .select
  piecesOnBoard := perSide (controller.countOnBoard .white) (controller.countOnBoard .black)
  piecesInHand := controller.inHandCounts
  signedRemove x := (controller.needRemove x).val
  lastMillFrom _ := -1
  lastMillTo _ := -1
  formedMillsBb _ := 0
  rule50 := 0
  fullMove := 1
  ext := {}

theorem countOnBoard_le (color : PieceColor) : controller.countOnBoard color ≤ 255 := by
  have h := List.countP_le_length (l := List.finRange 24)
    (p := fun node => decide (controller.board node = color))
  rw [List.length_finRange] at h
  exact h.trans (by decide)

theorem inHandCounts_le (x : Side) : controller.inHandCounts x ≤ controller.piecesCount := by
  unfold MillSetupPositionController.inHandCounts
  cases controller.phase with
  | moving => exact Nat.zero_le _
  | placing =>
    unfold MillSetupPositionController.placingInHandCounts perSide
    dsimp only
    split
    · dsimp only
      split <;> omega
    · dsimp only
      split <;> omega

theorem fenFields_reads (hcount : controller.piecesCount ≤ 255) :
    (editorRecord controller).Reads controller.fenFields (controller.fenFields.drop 17) := by
  -- every number fits its field and is read back as it was written
  have hhand : ∀ x, controller.inHandCounts x ≤ 255 :=
    fun x => (inHandCounts_le controller x).trans hcount
  have hremove : ∀ x, parseI8 (Text.decimal (controller.needRemove x).val)
      = .ok ((controller.needRemove x).val : Int) := by
    intro x
    have hlt := (controller.needRemove x).isLt
    exact parseI8_signedDecimal (n := ((controller.needRemove x).val : Int)) (by omega)
  have hside : ∀ d : Side, parseFenSide [if d = 1 then 'b' else 'w'] = .ok d := by decide
  refine
    { side := hside controller.sideToMove
      phase := ?_
      action := ?_
      onBoardW := parseU8_decimal (countOnBoard_le controller .white)
      inHandW := parseU8_decimal (hhand 0)
      onBoardB := parseU8_decimal (countOnBoard_le controller .black)
      inHandB := parseU8_decimal (hhand 1)
      removeW := hremove 0
      removeB := hremove 1
      lastMillFromW := rfl
      lastMillToW := rfl
      lastMillFromB := rfl
      lastMillToB := rfl
      formedMills := ⟨0, rfl, rfl, rfl⟩
      rule50 := rfl
      fullMove := rfl
      ext := rfl }
  · unfold editorRecord MillSetupPositionController.fenFields
    dsimp only [List.getD_cons_succ, List.getD_cons_zero]
    cases controller.phase <;> rfl
  · unfold editorRecord MillSetupPositionController.fenFields
    dsimp only
    by_cases howes : 0 < (controller.needRemove controller.sideToMove).val
    · rw [if_pos howes, if_pos howes]
      rfl
    · rw [if_neg howes, if_neg howes]
      cases controller.phase <;> rfl

theorem splitWhitespace_buildFen :
    Text.splitWhitespace controller.buildFen = controller.fenFields := by
  refine Text.splitWhitespace_joinBlank fun token htoken => ?_
  have hboard : Text.IsToken controller.buildBoardField := isToken_joinRanks fun d hd => by
    obtain ⟨n, -, rfl⟩ := List.mem_map.1 hd
    exact isFenPiece_pieceChar _
  have hside : Text.IsToken [if controller.sideToMove = 1 then 'b' else 'w'] :=
    isToken_char (by split <;> decide)
  unfold MillSetupPositionController.fenFields at htoken
  simp only [List.mem_cons, List.not_mem_nil, or_false] at htoken
  rcases htoken with rfl | rfl | rfl | rfl | rfl | rfl | rfl | rfl | rfl | rfl | rfl | rfl | rfl
    | rfl | rfl | rfl | rfl | rfl
  · exact hboard
  · exact hside
  · refine isToken_char ?_
    cases controller.phase <;> decide
  · refine isToken_char ?_
    by_cases howes : 0 < (controller.needRemove controller.sideToMove).val
    · rw [if_pos howes]
      decide
    · rw [if_neg howes]
      cases controller.phase <;> decide
  all_goals first
    | exact Text.isToken_decimal _
    | exact Text.isToken_of_all (by decide) (by decide)

/-- The state the editor's text describes. -/
def editorState (options : MillVariantOptions) : MillState :=
  (editorRecord controller).imported (.ofChars ((List.finRange 24).map fun node =>
    MillSetupPositionController.pieceChar (controller.board node))) options

/-- **The editor's text is always read.** -/
theorem setFromFen_buildFen (options : MillVariantOptions) (hcount : controller.piecesCount ≤ 255) :
    setFromFen options controller.buildFen
      = .ok (checkIfGameIsOver (editorState controller options) options) := by
  rw [setFromFen_eq_ok, splitWhitespace_buildFen]
  have hlength : controller.fenFields.length = 18 := rfl
  refine ⟨by omega, _, _, parseFenBoard_joinRanks ?_ ?_,
    fenFields_reads controller hcount, rfl⟩
  · rw [List.length_map, List.length_finRange]
  · intro d hd
    obtain ⟨n, -, rfl⟩ := List.mem_map.1 hd
    exact isFenPiece_pieceChar _

theorem finalRemove_editor (x : Side) :
    (editorRecord controller).finalRemove x = (controller.needRemove x).val := by
  unfold FenRecord.finalRemove
  rw [if_neg]
  · rfl
  · rintro ⟨haction, h0, h1, -⟩
    have hzero : (controller.needRemove controller.sideToMove).val = 0 := by
      have h0' : ((controller.needRemove 0).val : Int) = 0 := h0
      have h1' : ((controller.needRemove 1).val : Int) = 0 := h1
      rcases Side.eq_or_eq_opponent 0 controller.sideToMove with h | h
      · rw [h]
        omega
      · rw [h]
        change (controller.needRemove 1).val = 0
        omega
    unfold editorRecord at haction
    dsimp only at haction
    rw [if_neg (by omega)] at haction
    cases hphase : controller.phase <;> rw [hphase] at haction <;> cases haction

end Editor

/-! ## Reading the session -/

section Reading

variable (controller : MillSetupPositionController)

/-- The position of the session. -/
def MillSetupPositionController.position : MillState :=
  MillState.decode controller.session.rulesPort.kernel.state

/-- What is published is the kernel's. -/
structure Published (session : NativeMillGameSession) : Prop where
  raw : session.state.raw = session.rulesPort.kernel.state
  activeSeat : session.state.activeSeat = seatFromSide session.rulesPort.kernel.state.sideToMove

theorem pieceChar_readBoard (h : Published controller.session) (n : Node) :
    MillSetupPositionController.pieceChar (controller.readBoardFromSession.board n)
      = fenChar controller.position n := by
  have hcode : ∀ value : BitVec 8, (value.toNat = 1 ↔ value.toInt = 1)
      ∧ (value.toNat = 2 ↔ value.toInt = 2) := by
    intro value
    have hlt := value.isLt
    rw [BitVec.toInt_eq_toNat_cond]
    split <;> omega
  obtain ⟨h1, h2⟩ := hcode (controller.session.rulesPort.kernel.state.opaquePayload.byte n)
  unfold MillSetupPositionController.readBoardFromSession fenChar
  dsimp only
  rw [h.raw]
  change MillSetupPositionController.pieceChar
    (if testBit (controller.session.rulesPort.kernel.state.opaquePayload.readU32 39) n then _
      else if (controller.session.rulesPort.kernel.state.opaquePayload.byte n).toNat = 1 then _
      else if (controller.session.rulesPort.kernel.state.opaquePayload.byte n).toNat = 2 then _
      else _) = if testBit (controller.session.rulesPort.kernel.state.opaquePayload.readU32 39) n
      then 'X'
      else if (controller.session.rulesPort.kernel.state.opaquePayload.byte n).toInt = 1 then 'O'
      else if (controller.session.rulesPort.kernel.state.opaquePayload.byte n).toInt = 2 then '@'
      else '*'
  simp only [h1, h2]
  split_ifs <;> rfl

/-- The editor shows the position `s`, with the hands it makes of it. -/
structure Shows (controller : MillSetupPositionController) (s : MillState) : Prop where
  pieces : ∀ n, MillSetupPositionController.pieceChar (controller.board n) = fenChar s n
  side : controller.sideToMove.toI8 = s.sideToMove
  phase : controller.phase.millPhase = s.phase
  hands : controller.inHandCounts = fun x =>
    if s.phase = .moving then 0
    else if x = 0 ∧ s.sideToMove = 1 then s.piecesInHand 1 - 1
    else s.piecesInHand 1

theorem getD_getFen (session : NativeMillGameSession) :
    (session.getFen.splitOn ' ')[7]?
      = some (Text.decimal ((MillState.decode session.rulesPort.kernel.state).piecesInHand 1)) := by
  have htokens := isToken_fenTokens (MillState.decode session.rulesPort.kernel.state)
  have hsplit : session.getFen.splitOn ' '
      = fenTokens (MillState.decode session.rulesPort.kernel.state) := by
    refine List.splitOn_intercalate ' ' (fun token htoken hmem => ?_) ?_
    · have hblank := (htokens token htoken).solid ' ' hmem
      exact absurd hblank (by decide)
    · unfold fenTokens
      simp
  rw [hsplit]
  rfl

/-- The placed pieces are counted from black's hand. -/
theorem inHandCounts_read (hhand : controller.position.piecesInHand 1 ≤ controller.piecesCount)
    (hcount : controller.piecesCount ≤ 255) :
    controller.readPlacedCountFromSessionFen.inHandCounts = fun x =>
      match controller.phase with
      | .moving => 0
      | .placing => if x = 0 ∧ controller.sideToMove = 1 then controller.position.piecesInHand 1 - 1
        else controller.position.piecesInHand 1 := by
  have hparse : intTryParse (Text.decimal (controller.position.piecesInHand 1))
      = some (controller.position.piecesInHand 1 : Int) :=
    Text.parseSigned_signedDecimal (n := (controller.position.piecesInHand 1 : Int))
      ⟨by omega, by omega⟩
  have hfield : (controller.session.getFen.splitOn ' ')[7]?
      = some (Text.decimal (controller.position.piecesInHand 1)) := getD_getFen controller.session
  unfold MillSetupPositionController.readPlacedCountFromSessionFen
  cases hphase : controller.phase with
  | moving =>
    simp only
    unfold MillSetupPositionController.inHandCounts
    simp only
  | placing =>
    -- black's hand survives the detour over the placed count
    have hblack : min (controller.piecesCount
        - min (min (max ((controller.piecesCount : Int) - controller.position.piecesInHand 1) 0)
          controller.piecesCount).toNat controller.piecesCount) controller.piecesCount
        = controller.position.piecesInHand 1 := by
      omega
    simp only [hfield, hparse]
    unfold MillSetupPositionController.inHandCounts MillSetupPositionController.placingInHandCounts
    change (if controller.sideToMove = 0 then perSide (min (controller.piecesCount
        - min _ controller.piecesCount) controller.piecesCount) (min (controller.piecesCount
        - min _ controller.piecesCount) controller.piecesCount)
      else perSide (min (min (controller.piecesCount
        - min _ controller.piecesCount) controller.piecesCount - 1) controller.piecesCount)
        (min (controller.piecesCount - min _ controller.piecesCount) controller.piecesCount)) = _
    rw [hblack]
    funext x
    rcases Side.eq_or_eq_opponent 0 controller.sideToMove with hside | hside
    · rw [hside, if_pos rfl, if_neg (by simp)]
      unfold perSide
      exact ite_self _
    · have hturn : controller.sideToMove = 1 := hside
      rw [hturn, if_neg (by decide)]
      unfold perSide
      by_cases hx : x = 0
      · rw [if_pos hx, if_pos ⟨hx, rfl⟩]
        omega
      · rw [if_neg hx, if_neg (fun h => hx h.1)]

end Reading

/-! ## Exporting -/

/-- The hands the editor makes of a position: none when moving, black's for both when placing,
white having placed one more when black is to move. -/
def handsFromBlack (s : MillState) (x : Side) : Nat :=
  if s.phase = .moving then 0
  else if x = 0 ∧ s.sideToMove = 1 then s.piecesInHand 1 - 1
  else s.piecesInHand 1

/-- A position with the removals the editor counts, and without a history. -/
def editorStart (s : MillState) (owed : Side → Nat) : MillState :=
  { s with
    pendingRemovals := owed
    plySinceCapture := 0
    lastMillFrom := fun _ => -1
    lastMillTo := fun _ => -1
    formedMillsBb := fun _ => 0 }

/-- The hands follow from black's, and what the import makes of the editor's removals is what
is owed. -/
structure EditorKeeps (options : MillVariantOptions) (s : MillState) (owed : Side → Nat) :
    Prop where
  hands : s.piecesInHand = handsFromBlack s
  owes : owedAfterChecks options (editorStart s owed) = some s.pendingRemovals

/-- The pieces and the hands make a position that can be played from. -/
structure Completable (options : MillVariantOptions) (s : MillState) (owed : Side → Nat) :
    Prop where
  some : s.piecesOnBoard 0 + s.piecesInHand 0 + s.piecesOnBoard 1 + s.piecesInHand 1 ≠ 0
  enough : s.phase = .moving → ∀ x,
    options.piecesAtLeastCount ≤ s.piecesOnBoard x + s.piecesInHand x
  canPlace : s.phase = .placing → owed (sideIndex s.sideToMove) = 0 →
    s.piecesInHand (sideIndex s.sideToMove) ≠ 0

section Export

variable {controller : MillSetupPositionController} {session : NativeMillGameSession} {fen : Text}

theorem loadFen_ok (h : setFromFen session.rulesPort.rules.options fen = .ok t) :
    (session.loadFen fen).2 = true
      ∧ (session.loadFen fen).1.rulesPort.rules = session.rulesPort.rules
      ∧ (session.loadFen fen).1.rulesPort.kernel.state = t.encode session.rulesPort.rules.options
      ∧ Published (session.loadFen fen).1 := by
  have hport : session.rulesPort.setFromFen fen = some (.ofKernel session.rulesPort.rules
      (session.rulesPort.kernel.replaceState (t.encode session.rulesPort.rules.options)) none) := by
    unfold NativeMillRulesPort.setFromFen MillRules.kernelSetFromFen
    rw [h]
    rfl
  unfold NativeMillGameSession.loadFen
  rw [hport]
  exact ⟨rfl, rfl, rfl, rfl, rfl⟩

theorem loadFen_error {message : String}
    (h : setFromFen session.rulesPort.rules.options fen = .error message) :
    session.loadFen fen = (session, false) := by
  have hport : session.rulesPort.setFromFen fen = none := by
    unfold NativeMillRulesPort.setFromFen MillRules.kernelSetFromFen
    rw [h]
    rfl
  unfold NativeMillGameSession.loadFen
  rw [hport]

theorem loadFen_rules (session : NativeMillGameSession) (fen : Text) :
    (session.loadFen fen).1.rulesPort.rules = session.rulesPort.rules := by
  cases h : setFromFen session.rulesPort.rules.options fen with
  | error message => rw [loadFen_error h]
  | ok t => exact (loadFen_ok h).2.1

/-- The kernel's state after loading. -/
theorem position_of_loaded (h : setFromFen session.rulesPort.rules.options fen = .ok t) :
    MillState.decode (session.loadFen fen).1.rulesPort.kernel.state
      = reloaded session.rulesPort.rules.options t := by
  rw [(loadFen_ok h).2.2.1, decode_encode_eq _ (setFromFen_encodable h)]

theorem sync_session (controller : MillSetupPositionController) :
    controller.sync.1.session = (controller.session.loadFen controller.buildFen).1 := by
  unfold MillSetupPositionController.sync
  rfl

theorem sync_snd (controller : MillSetupPositionController) :
    controller.sync.2 = (controller.session.loadFen controller.buildFen).2 := by
  unfold MillSetupPositionController.sync
  rfl

/-- **What writing the model makes of the session.** -/
theorem sync_position (controller : MillSetupPositionController)
    (hcount : controller.piecesCount ≤ 255) :
    controller.sync.2 = true ∧ controller.sync.1.position
      = reloaded controller.session.rulesPort.rules.options
        (checkIfGameIsOver (editorState controller controller.session.rulesPort.rules.options)
          controller.session.rulesPort.rules.options) := by
  have hread := setFromFen_buildFen controller controller.session.rulesPort.rules.options hcount
  refine ⟨?_, ?_⟩
  · rw [sync_snd]
    exact (loadFen_ok hread).1
  · unfold MillSetupPositionController.position
    rw [sync_session]
    exact position_of_loaded hread

theorem countOnBoard_eq (hpos : PositionInv options s.toMillPosition)
    (hpieces : ∀ n, MillSetupPositionController.pieceChar (controller.board n) = fenChar s n)
    (c : Side) : controller.countOnBoard c.pieceColor = s.piecesOnBoard c := by
  -- a node shows a colour exactly if the colour's bit is set; marked pieces show neither
  have hlive : ∀ n : Node, controller.board n = c.pieceColor
      ↔ testBit (s.byColorBb c) n = true := by
    intro n
    have hn := hpieces n
    rw [hpos.live_iff]
    have hcolor : controller.board n = c.pieceColor
        ↔ MillSetupPositionController.pieceChar (controller.board n) =
          if c = 0 then 'O' else '@' := by
      rcases Side.eq_or_eq_opponent 0 c with rfl | rfl
      · cases controller.board n <;> decide
      · cases controller.board n <;> decide
    have hempty : ∀ d : Side, ('*' = if d = 0 then 'O' else '@') ↔ (0 : Int) = d.toI8 + 1 := by
      decide
    have hpiece : ∀ d e : Side,
        ((if e.toI8 + 1 = 1 then 'O' else if e.toI8 + 1 = 2 then '@' else '*')
        = if d = 0 then 'O' else '@') ↔ e.toI8 + 1 = d.toI8 + 1 := by decide
    have hmark : ∀ d : Side, 'X' ≠ if d = 0 then 'O' else '@' := by decide
    rw [hcolor, hn]
    unfold fenChar MillPosition.isMarked
    cases testBit s.delayedMarkedPieces n
    · rcases hpos.codes n with h0 | ⟨d, hd⟩
      · rw [h0]
        simpa using hempty c
      · rw [hd]
        simpa using hpiece c d
    · simpa using hmark c
  rw [hpos.counts, countOnes_eq_card_fin _ 24 (hpos.byColorBb_below c)]
  unfold MillSetupPositionController.countOnBoard
  rw [List.countP_eq_length_filter, ← List.toFinset_card_of_nodup]
  · congr 1
    ext n
    simp [hlive]
  · exact (List.nodup_finRange 24).filter _

theorem Shows.hands_eq (h : Shows controller s) : controller.inHandCounts = handsFromBlack s :=
  h.hands

/-- The state of the editor's text, as far as the checks look at it. -/
theorem Shows.checked (h : Shows controller s) (hpos : PositionInv options s.toMillPosition)
    (hhands : s.piecesInHand = handsFromBlack s) :
    (editorState controller options).checked
      = (editorStart s fun x => (controller.needRemove x).val).checked := by
  have hchars : (fun node => MillSetupPositionController.pieceChar (controller.board node))
      = fenChar s := funext h.pieces
  have honBoard : (editorRecord controller).piecesOnBoard = s.piecesOnBoard := by
    have hwhite : controller.countOnBoard .white = s.piecesOnBoard 0 :=
      countOnBoard_eq hpos h.pieces 0
    have hblack : controller.countOnBoard .black = s.piecesOnBoard 1 :=
      countOnBoard_eq hpos h.pieces 1
    change perSide (controller.countOnBoard .white) (controller.countOnBoard .black) = _
    rw [hwhite, hblack, perSide_self]
  have hinHand : (editorRecord controller).piecesInHand = s.piecesInHand :=
    h.hands_eq.trans hhands.symm
  have hside : (editorRecord controller).side.toI8 = s.sideToMove := h.side
  have hphase : (editorRecord controller).phase = s.phase := h.phase
  have hpending : (editorRecord controller).finalRemove
      = fun x => (controller.needRemove x).val := funext (finalRemove_editor controller)
  unfold editorState
  rw [hchars, FenRecord.imported_checked, masks_written hpos, marks_written hpos, honBoard, hinHand,
    hside, hphase, hpending]
  rfl

/-- **Exporting keeps the position exactly when `EditorKeeps` holds.** -/
theorem Shows.sync_iff (h : Shows controller s)
    (hsettings : controller.ruleSettings = controller.session.rulesPort.rules.options)
    (hcount : controller.piecesCount ≤ 255)
    (hpos : PositionInv controller.session.rulesPort.rules.options s.toMillPosition)
    (hrunning : s.phase ≠ .gameOver) (hside : s.sideToMove = c.toI8) :
    controller.sync.2 = true ∧ (SamePosition s controller.sync.1.position
      ↔ EditorKeeps controller.ruleSettings s fun x => (controller.needRemove x).val) := by
  obtain ⟨hok, hposition⟩ := sync_position controller hcount
  have hpieces : ∀ n, fenChar (editorState controller controller.session.rulesPort.rules.options) n
      = fenChar s n := fun n =>
    (fenChar_imported _ (fun m => isFenPiece_pieceChar (controller.board m)) _ n).trans (h.pieces n)
  refine ⟨hok, ?_⟩
  have hphase : (editorState controller controller.session.rulesPort.rules.options).phase
      = s.phase := (FenRecord.imported_phase _ _ _).trans h.phase
  have hturn : (editorState controller controller.session.rulesPort.rules.options).sideToMove
      = s.sideToMove := (FenRecord.imported_sideToMove _ _ _).trans h.side
  have hinHand : (editorState controller controller.session.rulesPort.rules.options).piecesInHand
      = handsFromBlack s := (FenRecord.imported_piecesInHand _ _ _).trans h.hands_eq
  rw [hposition, samePosition_reloaded, checks_samePosition_iff hrunning hside hpieces hphase hturn,
    hsettings, hinHand]
  constructor
  · rintro ⟨hhands, howed⟩
    exact ⟨hhands.symm, (owedAfterChecks_congr (h.checked hpos hhands.symm)).symm.trans howed⟩
  · rintro ⟨hhands, howed⟩
    exact ⟨hhands.symm, (owedAfterChecks_congr (h.checked hpos hhands)).trans howed⟩

theorem getFen_eq (controller : MillSetupPositionController) :
    controller.session.getFen = Sanmill.exportFen controller.position := rfl

theorem exportFen_eq (controller : MillSetupPositionController) :
    controller.exportFen = (controller.sync.1, Sanmill.exportFen controller.sync.1.position) := rfl

/-- Exporting gives the text of a position like `s`. -/
def ExportsLike (s : MillState) (controller : MillSetupPositionController) : Prop :=
  SamePosition s controller.exportFen.1.position
    ∧ controller.exportFen.2 = Sanmill.exportFen controller.exportFen.1.position

/-- Committing succeeds, and gives the text of a position like `s`. -/
def CommitsLike (s : MillState) (controller : MillSetupPositionController) : Prop :=
  SamePosition s controller.commit.1.position
    ∧ controller.commit.2 = some (Sanmill.exportFen controller.commit.1.position)

/-- With the hands of the position, the editor's own test is `Completable`. -/
theorem Shows.completable_iff (h : Shows controller s)
    (hpos : PositionInv options s.toMillPosition) (hhands : s.piecesInHand = handsFromBlack s) :
    controller.isCompletablePosition = true
      ↔ Completable controller.ruleSettings s fun x => (controller.needRemove x).val := by
  have hwhite : controller.countOnBoard .white = s.piecesOnBoard 0 :=
    countOnBoard_eq hpos h.pieces 0
  have hblack : controller.countOnBoard .black = s.piecesOnBoard 1 :=
    countOnBoard_eq hpos h.pieces 1
  have hinHand : controller.inHandCounts = s.piecesInHand := h.hands_eq.trans hhands.symm
  have hindex : sideIndex s.sideToMove = controller.sideToMove := by
    rw [← h.side, Side.sideIndex_toI8]
  have hmoving : controller.phase = .moving ↔ s.phase = .moving := by
    rw [← h.phase]
    cases controller.phase <;> decide
  have hplacing : controller.phase = .placing ↔ s.phase = .placing := by
    rw [← h.phase]
    cases controller.phase <;> decide
  have hzero : controller.needRemove controller.sideToMove = 0
      ↔ (controller.needRemove controller.sideToMove).val = 0 := Fin.ext_iff
  unfold MillSetupPositionController.isCompletablePosition
  simp only [hwhite, hblack, hinHand, hmoving, hplacing, hzero]
  -- the three tests of the editor in order, each refusing what one part asks
  constructor
  · intro htest
    split at htest
    · cases htest
    · rename_i hsome
      split at htest
      · cases htest
      · rename_i henough
        split at htest
        · cases htest
        · rename_i hcan
          refine ⟨hsome, fun hphase x => ?_, fun hphase howed hhand => ?_⟩
          · rcases Side.eq_or_eq_opponent 0 x with rfl | rfl
            · exact Nat.le_of_not_lt fun hlt => henough ⟨hphase, Or.inl hlt⟩
            · exact Nat.le_of_not_lt fun hlt => henough ⟨hphase, Or.inr hlt⟩
          · rw [hindex] at howed hhand
            exact hcan ⟨hphase, howed, hhand⟩
  · intro hcompletable
    have hcan := hcompletable.canPlace
    rw [hindex] at hcan
    rw [if_neg hcompletable.some, if_neg, if_neg]
    · rintro ⟨hphase, howed, hhand⟩
      exact hcan hphase howed hhand
    · rintro ⟨hphase, hlt | hlt⟩
      · exact Nat.not_lt.2 (hcompletable.enough hphase 0) hlt
      · exact Nat.not_lt.2 (hcompletable.enough hphase 1) hlt

/-- **What exporting and committing keep.** -/
theorem Shows.keeps_iff (h : Shows controller s)
    (hsettings : controller.ruleSettings = controller.session.rulesPort.rules.options)
    (hcount : controller.piecesCount ≤ 255)
    (hpos : PositionInv controller.session.rulesPort.rules.options s.toMillPosition)
    (hrunning : s.phase = .placing ∨ s.phase = .moving) (hside : s.sideToMove = c.toI8) :
    (ExportsLike s controller
        ↔ EditorKeeps controller.ruleSettings s fun x => (controller.needRemove x).val)
      ∧ (CommitsLike s controller
        ↔ (EditorKeeps controller.ruleSettings s fun x => (controller.needRemove x).val)
          ∧ Completable controller.ruleSettings s fun x => (controller.needRemove x).val) := by
  have hphase : s.phase ≠ .gameOver := by
    rcases hrunning with hphase | hphase <;> rw [hphase] <;> decide
  obtain ⟨hok, hsync⟩ := h.sync_iff hsettings hcount hpos hphase hside
  refine ⟨?_, ?_⟩
  · unfold ExportsLike
    rw [exportFen_eq]
    dsimp only
    rw [and_iff_left rfl]
    exact hsync
  -- a commit exports the synced position if the test lets it through
  have hcommit : controller.commit = if controller.isCompletablePosition = true
      then (controller.sync.1, some (Sanmill.exportFen controller.sync.1.position))
      else (controller, none) := by
    unfold MillSetupPositionController.commit
    generalize controller.sync = synced at hok
    obtain ⟨controller', ok⟩ := synced
    obtain rfl : ok = true := hok
    cases controller.isCompletablePosition with
    | false => rfl
    | true => exact congrArg (fun text => (controller', some text)) (getFen_eq controller')
  unfold CommitsLike
  rw [hcommit]
  constructor
  · rintro ⟨hsame, htext⟩
    split at htext
    · rename_i htest
      rw [if_pos htest] at hsame
      have hkeeps := hsync.1 hsame
      exact ⟨hkeeps, (h.completable_iff hpos hkeeps.hands).1 htest⟩
    · cases htext
  · rintro ⟨hkeeps, hcompletable⟩
    rw [if_pos ((h.completable_iff hpos hkeeps.hands).2 hcompletable)]
    dsimp only
    rw [and_iff_left rfl]
    exact hsync.2 hkeeps

end Export

/-! ## Opening -/

section Open

variable {controller : MillSetupPositionController}

theorem fromTag_moving_iff (tag : Int) :
    MillPhase.fromTag tag = .moving ↔ tag = MillPhase.moving.toI16 := by
  have htwo : MillPhase.moving.toI16 = 2 := rfl
  rw [htwo]
  unfold MillPhase.fromTag
  split_ifs <;> simp <;> omega

theorem readPlacedCount_eq (controller : MillSetupPositionController) :
    ∃ placed, controller.readPlacedCountFromSessionFen
      = { controller with placedCount := placed } := by
  unfold MillSetupPositionController.readPlacedCountFromSessionFen
  split
  · exact ⟨_, rfl⟩
  · split
    · exact ⟨_, rfl⟩
    · split
      · exact ⟨_, rfl⟩
      · exact ⟨_, rfl⟩

/-- **What is read from a session is its position.** -/
theorem readSession_shows (controller : MillSetupPositionController)
    (hpublished : Published controller.session)
    (hcount : controller.piecesCount ≤ 255)
    (hhand : controller.position.piecesInHand 1 ≤ controller.piecesCount)
    (hrunning : controller.position.phase = .placing ∨ controller.position.phase = .moving)
    (hside : controller.position.sideToMove = c.toI8) :
    Shows controller.readBoardFromSession.readSideAndPhase.readPlacedCountFromSessionFen
      controller.position := by
  have hseats : ∀ d : Side, (if seatFromSide d.toI8 = .second then (1 : Side) else 0) = d := by
    decide
  have hone : ∀ d : Side, d = 1 ↔ d.toI8 = 1 := by decide
  -- the active seat names the side
  have hturn : controller.readBoardFromSession.readSideAndPhase.sideToMove = c := by
    have hseat : controller.session.state.activeSeat = seatFromSide c.toI8 := by
      rw [hpublished.activeSeat]
      exact congrArg seatFromSide hside
    change (if controller.session.state.activeSeat = .second then 1 else 0) = c
    rw [hseat]
    exact hseats c
  -- the phase is read from the tag of the published snapshot
  have hphase : controller.readBoardFromSession.readSideAndPhase.phase.millPhase
      = controller.position.phase := by
    have htag : controller.position.phase
        = MillPhase.fromTag controller.session.rulesPort.kernel.state.phaseTag := rfl
    have hmoving : controller.position.phase = .moving
        ↔ controller.session.rulesPort.kernel.state.phaseTag = MillPhase.moving.toI16 := by
      rw [htag]
      exact fromTag_moving_iff _
    change (if controller.session.state.raw.phaseTag = MillPhase.moving.toI16 then Phase.moving
      else Phase.placing).millPhase = _
    rw [hpublished.raw]
    rcases hrunning with hphase | hphase
    · rw [if_neg (fun h => by rw [hmoving.2 h] at hphase; cases hphase), hphase]
      rfl
    · rw [if_pos (hmoving.1 hphase), hphase]
      rfl
  have hhands := inHandCounts_read controller.readBoardFromSession.readSideAndPhase hhand hcount
  obtain ⟨placed, hplaced⟩ := readPlacedCount_eq controller.readBoardFromSession.readSideAndPhase
  refine ⟨fun n => ?_, ?_, ?_, ?_⟩
  · rw [hplaced]
    exact pieceChar_readBoard controller hpublished n
  · rw [hplaced, hside]
    exact congrArg Side.toI8 hturn
  · rw [hplaced]
    exact hphase
  · rw [hhands]
    funext x
    have hblack : controller.readBoardFromSession.readSideAndPhase.sideToMove = 1
        ↔ controller.position.sideToMove = 1 := by
      rw [hturn, hside]
      exact hone c
    rw [← hphase]
    simp only [hblack]
    cases controller.readBoardFromSession.readSideAndPhase.phase <;> rfl

/-- The editor stands on a reachable position, with the rules of its kernel. -/
structure OpenAt (controller : MillSetupPositionController) (r : MillRules)
    (snap : GameStateSnapshot) : Prop where
  rules : controller.session.rulesPort.rules = r
  settings : controller.ruleSettings = r.options
  kernel : controller.session.rulesPort.kernel.state = snap
  published : Published controller.session

theorem Shows.congr (h : Shows controller t) (hsame : SamePosition s t) : Shows controller s where
  pieces n := (h.pieces n).trans (hsame.pieces n)
  side := h.side.trans hsame.sideToMove
  phase := h.phase.trans hsame.phase
  hands := by
    rw [h.hands, hsame.phase, hsame.sideToMove, hsame.piecesInHand]

end Open

/-! ## Edits in between -/

section Edits

variable {controller : MillSetupPositionController}

/-- The text to go back to and the rules of the kernel are as before. -/
structure KeepsBackup (before after : MillSetupPositionController) : Prop where
  backupFen : after.backupFen = before.backupFen
  rules : after.session.rulesPort.rules = before.session.rulesPort.rules

theorem KeepsBackup.trans {a b d : MillSetupPositionController} (h1 : KeepsBackup a b)
    (h2 : KeepsBackup b d) : KeepsBackup a d :=
  ⟨h2.backupFen.trans h1.backupFen, h2.rules.trans h1.rules⟩

theorem sync_keepsBackup (controller : MillSetupPositionController) :
    KeepsBackup controller controller.sync.1 where
  backupFen := rfl
  rules := by
    rw [sync_session]
    exact loadFen_rules _ _

theorem KeepsBackup.sync {a b : MillSetupPositionController} (h : KeepsBackup a b) :
    KeepsBackup a b.sync.1 :=
  h.trans (sync_keepsBackup b)

theorem readPlacedCount_keepsBackup (controller : MillSetupPositionController) :
    KeepsBackup controller controller.readPlacedCountFromSessionFen := by
  obtain ⟨placed, heq⟩ := readPlacedCount_eq controller
  rw [heq]
  exact ⟨rfl, rfl⟩

theorem setPaintColor_keepsBackup (color : PieceColor) :
    KeepsBackup controller (controller.setPaintColor color) := by
  cases color with
  | white =>
    refine KeepsBackup.sync (b := { controller with paintColor := .white, sideToMove := 0 }) ?_
    exact ⟨rfl, rfl⟩
  | black =>
    refine KeepsBackup.sync (b := { controller with paintColor := .black, sideToMove := 1 }) ?_
    exact ⟨rfl, rfl⟩
  | none => exact ⟨rfl, rfl⟩
  | marked => exact ⟨rfl, rfl⟩
  | nobody => exact ⟨rfl, rfl⟩
  | draw => exact ⟨rfl, rfl⟩

/-- The phase is set, and the model is written with it. -/
theorem setPhase_eq (controller : MillSetupPositionController) (next : Phase) :
    ∃ paintColor placedCount, controller.setPhase next
      = ({ controller with phase := next, paintColor, placedCount } :
        MillSetupPositionController).sync.1 := by
  have hpainted : ∃ paintColor, (if next ≠ .placing ∧ controller.paintColor = .marked then
      { controller with phase := next, paintColor := controller.sideToMove.pieceColor }
      else { controller with phase := next }) = { controller with phase := next, paintColor } := by
    split
    · exact ⟨_, rfl⟩
    · exact ⟨_, rfl⟩
  obtain ⟨paintColor, hpaint⟩ := hpainted
  unfold MillSetupPositionController.setPhase
  simp only
  rw [hpaint]
  cases next with
  | placing => exact ⟨paintColor, _, rfl⟩
  | moving => exact ⟨paintColor, _, rfl⟩

theorem edited_keepsBackup (controller : MillSetupPositionController) (edit : SetupEdit) :
    KeepsBackup controller (controller.edited edit) := by
  cases edit with
  | setPaintColor color => exact setPaintColor_keepsBackup color
  | cyclePaintColor =>
    change KeepsBackup controller controller.cyclePaintColor
    unfold MillSetupPositionController.cyclePaintColor
    split <;> exact setPaintColor_keepsBackup _
  | setPhase next =>
    obtain ⟨paintColor, placedCount, heq⟩ := setPhase_eq controller next
    change KeepsBackup controller (controller.setPhase next)
    rw [heq]
    exact KeepsBackup.sync ⟨rfl, rfl⟩
  | setPlacedCount count =>
    change KeepsBackup controller (controller.setPlacedCount count)
    unfold MillSetupPositionController.setPlacedCount
    split
    · exact ⟨rfl, rfl⟩
    · exact KeepsBackup.sync ⟨rfl, rfl⟩
  | tapNode node =>
    change KeepsBackup controller (controller.tapNode node)
    unfold MillSetupPositionController.tapNode
    split
    · exact ⟨rfl, rfl⟩
    · split
      · exact KeepsBackup.sync ⟨rfl, rfl⟩
      · split
        · exact KeepsBackup.sync ⟨rfl, rfl⟩
        · exact ⟨rfl, rfl⟩
  | setNeedRemove color count =>
    change KeepsBackup controller (controller.setNeedRemove color count)
    unfold MillSetupPositionController.setNeedRemove
    dsimp only
    split
    · exact KeepsBackup.sync ⟨rfl, rfl⟩
    · exact KeepsBackup.sync ⟨rfl, rfl⟩
    · exact ⟨rfl, rfl⟩
  | clear => exact KeepsBackup.sync ⟨rfl, rfl⟩
  | transform type =>
    change KeepsBackup controller (controller.transform type)
    unfold MillSetupPositionController.transform
    split
    · exact ⟨rfl, rfl⟩
    · rename_i transformed _
      have hrules := loadFen_rules controller.session transformed
      split
      · rename_i session hload
        rw [hload] at hrules
        exact ⟨rfl, hrules⟩
      · rename_i session hload
        rw [hload] at hrules
        exact ⟨rfl, hrules⟩
  | exportFen => exact sync_keepsBackup controller
  | pasteFen fen =>
    have hrules := loadFen_rules controller.session (Text.dartTrim fen)
    change KeepsBackup controller (controller.pasteFen fen).1
    unfold MillSetupPositionController.pasteFen
    split
    · rename_i session hload
      rw [hload] at hrules
      exact ⟨rfl, hrules⟩
    · rename_i session hload
      rw [hload] at hrules
      exact KeepsBackup.trans
        (b := ({ controller with session }).readBoardFromSession.readSideAndPhase) ⟨rfl, hrules⟩
        (readPlacedCount_keepsBackup _)
  | commit =>
    change KeepsBackup controller controller.commit.1
    have hsync := sync_keepsBackup controller
    unfold MillSetupPositionController.commit
    split
    · exact ⟨rfl, rfl⟩
    · split
      · rename_i controller' heq
        rw [heq] at hsync
        exact hsync
      · rename_i controller' heq
        rw [heq] at hsync
        exact hsync

theorem editAll_keepsBackup (controller : MillSetupPositionController) (edits : List SetupEdit) :
    KeepsBackup controller (controller.editAll edits) := by
  induction edits generalizing controller with
  | nil => exact ⟨rfl, rfl⟩
  | cons edit edits ih => exact (edited_keepsBackup controller edit).trans (ih _)

end Edits

/-! ## Cancelling -/

/-- A position as its text has it: mills are recorded on the nodes of the board only. -/
def asWritten (s : MillState) : MillState :=
  { s with formedMillsBb := fun x => s.formedMillsBb x &&& 0x00ffffff }

/-- The text of the position is read, and the terminal checks leave it alone. -/
structure Restorable (options : MillVariantOptions) (s : MillState) : Prop where
  readable : OwesReadably s
  owes : owedAfterChecks options (asWritten s) = some s.pendingRemovals

section Cancel

variable {controller : MillSetupPositionController}

/-- **What the text of a position is imported as.** -/
theorem import_export_iff (h : Writable s c) (hpos : PositionInv options s.toMillPosition)
    (howes : OwesReadably s) : ∃ u, setFromFen options (exportFen s) = .ok u
      ∧ (SamePosition s u ↔ owedAfterChecks options (asWritten s) = some s.pendingRemovals) := by
  obtain ⟨ext, hread⟩ := setFromFen_exportFen options h howes
  refine ⟨_, hread, ?_⟩
  have hrunning : s.phase ≠ .gameOver := by
    rcases h.running with hphase | hphase <;> rw [hphase] <;> decide
  have hchecked : ((exportedRecord s c ext).imported
      (.ofChars ((List.finRange 24).map (fenChar s))) options).checked = (asWritten s).checked := by
    have hpending : (exportedRecord s c ext).finalRemove = s.pendingRemovals :=
      funext (finalRemove_exported h ext)
    have hside : (exportedRecord s c ext).side.toI8 = s.sideToMove := h.side.symm
    rw [FenRecord.imported_checked, masks_written hpos, marks_written hpos, hpending, hside]
    rfl
  have hside : ((exportedRecord s c ext).imported
      (.ofChars ((List.finRange 24).map (fenChar s))) options).sideToMove = s.sideToMove :=
    (FenRecord.imported_sideToMove _ _ _).trans h.side.symm
  rw [checks_samePosition_iff hrunning h.side
    (fenChar_imported _ (isFenPiece_fenChar s) options) (FenRecord.imported_phase _ _ _) hside,
    owedAfterChecks_congr hchecked, FenRecord.imported_piecesInHand]
  exact ⟨fun hsame => hsame.2, fun howed => ⟨rfl, howed⟩⟩

/-- Going back loads the text that was kept. -/
theorem cancel_position {text : Text} (hbackup : controller.backupFen = some text) :
    (∀ u, setFromFen controller.session.rulesPort.rules.options text = .ok u →
        controller.cancel.position = reloaded controller.session.rulesPort.rules.options u)
      ∧ ∀ message, setFromFen controller.session.rulesPort.rules.options text = .error message →
        controller.cancel.position = controller.position := by
  unfold MillSetupPositionController.cancel
  rw [hbackup]
  refine ⟨fun u hread => position_of_loaded hread, fun message hread => ?_⟩
  change MillState.decode (controller.session.loadFen text).1.rulesPort.kernel.state = _
  rw [loadFen_error hread]
  rfl

/-- Setting the other phase makes another position, whatever the checks do. -/
theorem setPhase_other {next : Phase} (hcount : controller.piecesCount ≤ 255)
    (hrunning : s.phase ≠ .gameOver) (hside : controller.sideToMove.toI8 = s.sideToMove)
    (hnext : next.millPhase ≠ s.phase) : ¬SamePosition s (controller.setPhase next).position := by
  obtain ⟨paintColor, placedCount, heq⟩ := setPhase_eq controller next
  rw [heq]
  let controller' : MillSetupPositionController :=
    { controller with phase := next, paintColor, placedCount }
  change ¬SamePosition s controller'.sync.1.position
  rw [(sync_position controller' hcount).2, samePosition_reloaded]
  have hphase : (editorState controller' controller'.session.rulesPort.rules.options).phase
      = next.millPhase := rfl
  have hplaying : (editorState controller' controller'.session.rulesPort.rules.options).phase
      ≠ .gameOver := by
    rw [hphase]
    cases next <;> decide
  have hturn : (editorState controller' controller'.session.rulesPort.rules.options).sideToMove
      = controller.sideToMove.toI8 := rfl
  intro hsame
  rcases @checkIfGameIsOver_cases controller'.session.rulesPort.rules.options _ _ hplaying hturn
    with ⟨owed, -, hgoes⟩ | ⟨-, hover | hpassed⟩
  · exact hnext (hphase.symm.trans (hgoes.phase.symm.trans hsame.phase))
  · exact hrunning (hsame.phase.symm.trans hover)
  · exact hpassed (hsame.sideToMove.trans (hside.symm.trans hturn.symm))

/-- **When every way of editing can be undone by cancelling.** -/
theorem restorable_iff (h : Writable s c) (hshows : Shows controller s)
    (hbackup : controller.backupFen = some (exportFen s)) (hcount : controller.piecesCount ≤ 255)
    (hpos : PositionInv controller.session.rulesPort.rules.options s.toMillPosition) :
    (∀ edits, SamePosition s (controller.editAll edits).cancel.position)
      ↔ Restorable controller.session.rulesPort.rules.options s := by
  have hrunning : s.phase ≠ .gameOver := by
    rcases h.running with hphase | hphase <;> rw [hphase] <;> decide
  have hedited : ∀ edits, (controller.editAll edits).backupFen = some (exportFen s)
      ∧ (controller.editAll edits).session.rulesPort.rules
        = controller.session.rulesPort.rules := by
    intro edits
    have hkeeps := editAll_keepsBackup controller edits
    exact ⟨hkeeps.backupFen.trans hbackup, hkeeps.rules⟩
  have hrestored : OwesReadably s → ∀ edits,
      (SamePosition s (controller.editAll edits).cancel.position
        ↔ owedAfterChecks controller.session.rulesPort.rules.options (asWritten s)
          = some s.pendingRemovals) := by
    intro howes edits
    obtain ⟨hback, hrules⟩ := hedited edits
    obtain ⟨u, hread, hiff⟩ := import_export_iff h hpos howes
    rw [(cancel_position hback).1 u (by rw [hrules]; exact hread), samePosition_reloaded]
    exact hiff
  constructor
  · intro hall
    have howes : OwesReadably s := by
      cases hread : setFromFen controller.session.rulesPort.rules.options (exportFen s) with
      | ok u => exact owesReadably_of_read hread
      | error message =>
        -- the text is refused, so an edit of the phase stays
        obtain ⟨next, hnext⟩ : ∃ next : Phase, next.millPhase ≠ s.phase := by
          rcases h.running with hphase | hphase
          · exact ⟨.moving, by rw [hphase]; decide⟩
          · exact ⟨.placing, by rw [hphase]; decide⟩
        obtain ⟨hback, hrules⟩ := hedited [.setPhase next]
        have hsame := hall [.setPhase next]
        rw [(cancel_position hback).2 message (by rw [hrules]; exact hread)] at hsame
        exact absurd hsame (setPhase_other hcount hrunning hshows.side hnext)
    exact ⟨howes, (hrestored howes []).1 (hall [])⟩
  · intro hrestorable edits
    exact (hrestored hrestorable.readable edits).2 hrestorable.owes

end Cancel

/-! ## Positions of a game -/

section Game

variable {r : MillRules} {snap : GameStateSnapshot} {controller : MillSetupPositionController}

theorem StateInv.writable (h : StateInv options s) (hturn : TurnInv s c)
    (hcount : options.pieceCount ≤ 255) (hply : s.plySinceCapture ≤ 65535) : Writable s c where
  side := hturn.active
  running := hturn.running
  synced haction := by
    have hsynced := hturn.synced
    rw [haction] at hsynced
    by_contra hnone
    unfold MillState.syncedAction at hsynced
    rw [hturn.active, Side.sideIndex_toI8] at hsynced
    rcases hturn.running with hphase | hphase
    · rw [hphase, if_neg (by decide), if_neg (fun h => hnone h.2)] at hsynced
      cases hsynced
    · rw [hphase, if_neg (by decide), if_neg (fun h => hnone h.2)] at hsynced
      cases hsynced
  piecesOnBoard x := by
    have := h.position.material x
    omega
  piecesInHand x := by
    have := h.position.material x
    omega
  lastMill := h.sane.lastMill
  preferredRemoveTarget := h.sane.preferredRemoveTarget
  captureCounts := h.sane.captureCounts
  ply := hply

/-- A running game, as the editor finds it. -/
theorem Reachable.writable (h : Reachable r snap)
    (hrunning : (MillState.decode snap).phase ≠ .gameOver) :
    PositionInv r.options (MillState.decode snap).toMillPosition
      ∧ ∃ c, Writable (MillState.decode snap) c := by
  obtain ⟨s, rfl, hs⟩ := h.encoded
  rw [decode_encode_eq r.options hs.encodable] at hrunning ⊢
  obtain ⟨c, hturn⟩ := hs.reload.turn hrunning
  have hcount : r.options.pieceCount ≤ 255 := r.valid.pieceCount.2.trans (by decide)
  exact ⟨hs.reload.position, c, hs.reload.writable hturn hcount (reloaded_ply r.options s)⟩

theorem OpenAt.initFromSession (h : OpenAt controller r snap) (hcount : r.options.pieceCount ≤ 255)
    (hpos : PositionInv r.options (MillState.decode snap).toMillPosition)
    (hwritable : Writable (MillState.decode snap) c) :
    Shows controller.initFromSession (MillState.decode snap)
      ∧ controller.initFromSession.backupFen = some (exportFen (MillState.decode snap))
      ∧ (∀ x, controller.initFromSession.needRemove x = 0)
      ∧ controller.initFromSession.ruleSettings = r.options
      ∧ controller.initFromSession.session = controller.session := by
  -- the editor as it is before it reads the board
  let base : MillSetupPositionController :=
    { controller with backupFen := some controller.session.getFen, needRemove := fun _ => 0 }
  have hposition : base.position = MillState.decode snap := congrArg MillState.decode h.kernel
  have hpieces : base.piecesCount = r.options.pieceCount :=
    congrArg MillVariantOptions.pieceCount h.settings
  have hhand : base.position.piecesInHand 1 ≤ base.piecesCount := by
    rw [hposition, hpieces]
    have := hpos.material 1
    omega
  have hshows := readSession_shows base (c := c) h.published (by omega) hhand
    (by rw [hposition]; exact hwritable.running) (by rw [hposition]; exact hwritable.side)
  obtain ⟨placed, hplaced⟩ := readPlacedCount_eq base.readBoardFromSession.readSideAndPhase
  have hinit : controller.initFromSession
      = base.readBoardFromSession.readSideAndPhase.readPlacedCountFromSessionFen := rfl
  rw [hposition] at hshows
  rw [hinit]
  refine ⟨hshows, ?_, ?_, ?_, ?_⟩
  · rw [hplaced, ← h.kernel]
    rfl
  · rw [hplaced]
    exact fun _ => rfl
  · rw [hplaced]
    exact h.settings
  · rw [hplaced]
    rfl

/-- **Opening the editor on the session.** -/
theorem initFromSession_keeps (h : Reachable r snap)
    (hrunning : (MillState.decode snap).phase ≠ .gameOver) (hopen : OpenAt controller r snap) :
    (ExportsLike (MillState.decode snap) controller.initFromSession
        ↔ EditorKeeps r.options (MillState.decode snap) fun _ => 0)
      ∧ (CommitsLike (MillState.decode snap) controller.initFromSession
        ↔ (EditorKeeps r.options (MillState.decode snap) fun _ => 0)
          ∧ Completable r.options (MillState.decode snap) fun _ => 0)
      ∧ ((∀ edits, SamePosition (MillState.decode snap)
          (controller.initFromSession.editAll edits).cancel.position)
        ↔ Restorable r.options (MillState.decode snap)) := by
  obtain ⟨hpos, c, hwritable⟩ := h.writable hrunning
  have hcount : r.options.pieceCount ≤ 255 := r.valid.pieceCount.2.trans (by decide)
  obtain ⟨hshows, hbackup, hneed, hsettings, hsession⟩ :=
    hopen.initFromSession hcount hpos hwritable
  have hrules : controller.initFromSession.session.rulesPort.rules = r := by
    rw [hsession]
    exact hopen.rules
  have hpieces : controller.initFromSession.piecesCount ≤ 255 := by
    unfold MillSetupPositionController.piecesCount
    rw [hsettings]
    exact hcount
  have hzero : (fun x => (controller.initFromSession.needRemove x).val) = fun _ => 0 := by
    funext x
    rw [hneed x]
    rfl
  have hkeeps := hshows.keeps_iff (c := c) (by rw [hsettings, hrules]) hpieces (by rwa [hrules])
    hwritable.running hwritable.side
  rw [hsettings, hzero] at hkeeps
  have hrestorable := restorable_iff hwritable hshows hbackup hpieces (by rwa [hrules])
  rw [hrules] at hrestorable
  exact ⟨hkeeps.1, hkeeps.2, hrestorable⟩

/-- **Opening the editor on a text of the position.** -/
theorem pasteFen_keeps (h : Reachable r snap)
    (hrunning : (MillState.decode snap).phase ≠ .gameOver)
    (hrules : controller.session.rulesPort.rules = r)
    (hsettings : controller.ruleSettings = r.options)
    {fen : Text} (hread : setFromFen r.options (Text.dartTrim fen) = .ok t)
    (hsame : SamePosition (MillState.decode snap) t) :
    (controller.pasteFen fen).2 = true
      ∧ (ExportsLike (MillState.decode snap) (controller.pasteFen fen).1
        ↔ EditorKeeps r.options (MillState.decode snap) fun x => (controller.needRemove x).val)
      ∧ (CommitsLike (MillState.decode snap) (controller.pasteFen fen).1
        ↔ (EditorKeeps r.options (MillState.decode snap) fun x => (controller.needRemove x).val)
          ∧ Completable r.options (MillState.decode snap) fun x =>
            (controller.needRemove x).val) := by
  obtain ⟨hpos, c, hwritable⟩ := h.writable hrunning
  have hcount : r.options.pieceCount ≤ 255 := r.valid.pieceCount.2.trans (by decide)
  have htrim : setFromFen controller.session.rulesPort.rules.options (Text.dartTrim fen)
      = .ok t := by
    rw [hrules, ← hread]
  obtain ⟨hok, hkept, hkernel, hpublished⟩ := loadFen_ok htrim
  -- the session after the load, before the board is read again
  let base : MillSetupPositionController :=
    { controller with session := (controller.session.loadFen (Text.dartTrim fen)).1 }
  have hpaste : controller.pasteFen fen
      = (base.readBoardFromSession.readSideAndPhase.readPlacedCountFromSessionFen, true) := by
    unfold MillSetupPositionController.pasteFen
    have hpair : controller.session.loadFen (Text.dartTrim fen)
        = ((controller.session.loadFen (Text.dartTrim fen)).1, true) := by rw [← hok]
    rw [hpair]
  have hposition : base.position = reloaded r.options t := by
    rw [← hrules]
    exact position_of_loaded htrim
  -- a reload keeps all that a position shows
  have hlike : SamePosition (MillState.decode snap) base.position := by
    rw [hposition, samePosition_reloaded]
    exact hsame
  have hpieces : base.piecesCount = r.options.pieceCount :=
    congrArg MillVariantOptions.pieceCount hsettings
  have hhand : base.position.piecesInHand 1 ≤ base.piecesCount := by
    rw [hlike.piecesInHand, hpieces]
    have := hpos.material 1
    omega
  have hshows := (readSession_shows base (c := c) hpublished (by omega) hhand
    (by rw [hlike.phase]; exact hwritable.running)
    (by rw [hlike.sideToMove]; exact hwritable.side)).congr hlike
  obtain ⟨placed, hplaced⟩ := readPlacedCount_eq base.readBoardFromSession.readSideAndPhase
  have hbase : base.session.rulesPort.rules = r := hkept.trans hrules
  generalize hopened : base.readBoardFromSession.readSideAndPhase.readPlacedCountFromSessionFen
    = opened at hpaste hshows
  rw [hplaced] at hopened
  have hopenedRules : opened.session.rulesPort.rules = r := by
    rw [← hopened]
    exact hbase
  have hopenedSettings : opened.ruleSettings = r.options := by
    rw [← hopened]
    exact hsettings
  have hneed : opened.needRemove = controller.needRemove := by
    rw [← hopened]
    rfl
  have hkeeps := hshows.keeps_iff (c := c) (by rw [hopenedRules, hopenedSettings])
    (by
      unfold MillSetupPositionController.piecesCount
      rwa [hopenedSettings]) (by rwa [hopenedRules]) hwritable.running hwritable.side
  rw [hopenedSettings, hneed] at hkeeps
  rw [hpaste]
  exact ⟨rfl, hkeeps⟩

end Game

/--
**What the editor keeps.** Opened on the session and left without an edit, it exports the
position when the hands follow from black's and what is owed is what the import makes of no
removals. It commits when the position can be played from besides. Whatever was edited,
cancelling restores the position when its own text is read back and left alone by the
terminal checks. Opened on a text of the position, it starts from the removals that the
editor had before.
-/
theorem setupEditor_keeps_iff (r : MillRules) {snap : GameStateSnapshot} (h : Reachable r snap)
    (hrunning : (MillState.decode snap).phase ≠ .gameOver) :
    (∀ controller, OpenAt controller r snap →
      (ExportsLike (MillState.decode snap) controller.initFromSession
          ↔ EditorKeeps r.options (MillState.decode snap) fun _ => 0)
        ∧ (CommitsLike (MillState.decode snap) controller.initFromSession
          ↔ (EditorKeeps r.options (MillState.decode snap) fun _ => 0)
            ∧ Completable r.options (MillState.decode snap) fun _ => 0)
        ∧ ((∀ edits, SamePosition (MillState.decode snap)
            (controller.initFromSession.editAll edits).cancel.position)
          ↔ Restorable r.options (MillState.decode snap)))
      ∧ ∀ (controller : MillSetupPositionController) (fen : Text) (t : MillState),
        controller.session.rulesPort.rules = r → controller.ruleSettings = r.options →
        setFromFen r.options (Text.dartTrim fen) = .ok t →
        SamePosition (MillState.decode snap) t →
        (controller.pasteFen fen).2 = true
          ∧ (ExportsLike (MillState.decode snap) (controller.pasteFen fen).1
            ↔ EditorKeeps r.options (MillState.decode snap) fun x => (controller.needRemove x).val)
          ∧ (CommitsLike (MillState.decode snap) (controller.pasteFen fen).1
            ↔ (EditorKeeps r.options (MillState.decode snap) fun x => (controller.needRemove x).val)
              ∧ Completable r.options (MillState.decode snap)
                fun x => (controller.needRemove x).val) :=
  ⟨fun _ hopen => initFromSession_keeps h hrunning hopen,
    fun _ _ _ hrules hsettings hread hsame =>
      pasteFen_keeps h hrunning hrules hsettings hread hsame⟩

/-- An editor on a session whose kernel has just this snapshot. -/
def editorAt (r : MillRules) (snap : GameStateSnapshot) : MillSetupPositionController where
  session := .fromPort (.ofKernel r ⟨snap, [], []⟩ none)
  ruleSettings := r.options

theorem openAt_editorAt (r : MillRules) (snap : GameStateSnapshot) :
    OpenAt (editorAt r snap) r snap := ⟨rfl, rfl, rfl, rfl, rfl⟩

/-- White has closed a mill and taken a piece, and black has placed another. -/
def takenLine : List Action := [0, 8, 7, 10, 1].map placeAction ++ [removeAction 8, placeAction 12]

def taken : GameStateSnapshot := playLine .default MillRules.default.initialState takenLine

def takenFen : Text :=
  "OO*****O/**@*@***/******** w p p 3 6 2 6 0 0 -1 -1 -1 -1 0 0 4 ids:nodes".toList

theorem takenFen_read :
    (setFromFen MillRules.default.options takenFen).toOption.any (fun t => decide
      ((∀ n, fenChar t n = fenChar (MillState.decode taken) n)
        ∧ t.sideToMove = (MillState.decode taken).sideToMove
        ∧ t.phase = (MillState.decode taken).phase
        ∧ t.piecesInHand = (MillState.decode taken).piecesInHand
        ∧ t.pendingRemovals = (MillState.decode taken).pendingRemovals)) = true := by
  decide +kernel

/-- The position comes through, from the session and as a text pasted over the empty board. -/
theorem setupEditor_keeps_taken :
    CommitsLike (MillState.decode taken) (editorAt .default taken).initFromSession
      ∧ ((editorAt .default MillRules.default.initialState).pasteFen takenFen).2 = true
      ∧ CommitsLike (MillState.decode taken)
        ((editorAt .default MillRules.default.initialState).pasteFen takenFen).1 := by
  have hreach : Reachable .default taken := Reachable.initial.playLine (by decide +kernel)
  have hrunning : (MillState.decode taken).phase ≠ .gameOver := by decide +kernel
  have hkeeps : EditorKeeps MillRules.default.options (MillState.decode taken) fun _ => 0 :=
    ⟨by decide +kernel, by decide +kernel⟩
  have hcompletable : Completable MillRules.default.options (MillState.decode taken) fun _ => 0 :=
    ⟨by decide +kernel, by decide +kernel, by decide +kernel⟩
  obtain ⟨hopened, hpasted⟩ := setupEditor_keeps_iff .default hreach hrunning
  obtain ⟨t, hread, hsame⟩ := (Option.any_eq_true _ _).1 takenFen_read
  obtain ⟨hpieces, hside, hphase, hhands, howed⟩ := of_decide_eq_true hsame
  have hok : setFromFen MillRules.default.options takenFen = .ok t := by
    cases hfen : setFromFen MillRules.default.options takenFen with
    | error e =>
      rw [hfen] at hread
      cases hread
    | ok t' =>
      rw [hfen] at hread
      rw [Option.some.inj hread]
  obtain ⟨hdone, -, hcommits⟩ :=
    hpasted (editorAt .default MillRules.default.initialState) takenFen t rfl rfl
    hok ⟨hpieces, hside, hphase, hhands, howed⟩
  exact ⟨(hopened _ (openAt_editorAt _ _)).2.1.2 ⟨hkeeps, hcompletable⟩, hdone,
    hcommits.2 ⟨hkeeps, hcompletable⟩⟩

/-- White completes a mill with its third piece, and has a piece of black to remove. -/
def millLine : List Action := [0, 8, 7, 10, 1].map placeAction

/-- The editor drops the removal. -/
theorem setupEditor_drops_removal : ¬ ∀ (r : MillRules) (snap : GameStateSnapshot),
    Reachable r snap → (MillState.decode snap).phase ≠ .gameOver →
    ∀ controller, OpenAt controller r snap →
      ExportsLike (MillState.decode snap) controller.initFromSession := by
  intro hall
  have hreach : Reachable .default (playLine .default MillRules.default.initialState millLine) :=
    Reachable.initial.playLine (by decide +kernel)
  have hrunning : (MillState.decode
      (playLine .default MillRules.default.initialState millLine)).phase
      ≠ .gameOver := by decide +kernel
  have howed : (MillState.decode
      (playLine .default MillRules.default.initialState millLine)).pendingRemovals 0
      = 1 := by decide +kernel
  have hexports := hall _ _ hreach hrunning _ (openAt_editorAt _ _)
  have hkeeps := (initFromSession_keeps hreach hrunning (openAt_editorAt _ _)).1.1 hexports
  have hnone : owedAfterChecks MillRules.default.options (editorStart
      (MillState.decode (playLine .default MillRules.default.initialState millLine)) fun _ => 0)
      = some fun _ => 0 := by decide +kernel
  have hzero : (fun _ => 0) = (MillState.decode
      (playLine .default MillRules.default.initialState millLine)).pendingRemovals :=
    Option.some.inj (hnone.symm.trans hkeeps.owes)
  rw [← hzero] at howed
  exact absurd howed (by decide)

end Sanmill
