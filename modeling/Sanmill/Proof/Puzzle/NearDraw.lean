import Sanmill.Mill.Fen
import Sanmill.Proof.PerfectDb.FreshDatabase
import Sanmill.Proof.PerfectDb.OrbitCount
import Sanmill.Proof.PerfectDb.PlaneAgreement
import Sanmill.Proof.Puzzle.Solver

/-!
# A win that the draw rule takes away

The database does not know how many plies have passed without a removal. Near the limit of the
n-move rule it still calls the position won, the first turn and the reply are as it says, and
then every turn of the solver ends the game as a draw.
-/

namespace Sanmill.PerfectDb

/-!
## Sectors of one value

In a file whose slots are all zero every position is counted from the value of its sector, so
the answers depend on the sector alone and no hash has to be worked out.
-/

open LittleEndian

variable {hasher : PerfectHasher} {value : Int} {n count : Nat}

/-- Version 2, one byte for each slot, of which the low four bits are the first field. -/
def zeroHeaderBytes : List Byte :=
  [2, 0, 0, 0, 1, 0, 0, 0, 4, 0, 0, 0] ++ List.replicate 52 0

def zeroHeader : SectorHeader where
  version := 2
  evalStructSize := 1
  field2Offset := 4
  stoneDiff := false
  evalStructSize_pos := by decide
  evalStructSize_le := by decide
  field2Offset_pos := by decide
  field2Offset_lt := by decide

/-- A header, `n` slots and an empty table. -/
def zeroFile (n : Nat) : List Byte := zeroHeaderBytes ++ List.replicate (n + 4) 0

theorem slice_zeroFile {offset len : Nat} (hoffset : 64 ≤ offset)
    (hlen : offset + len ≤ 64 + n + 4) :
    slice? (zeroFile n) offset len = some (List.replicate len 0) := by
  have hheader : zeroHeaderBytes.length = 64 := rfl
  have hlength : (zeroFile n).length = 64 + (n + 4) := by
    unfold zeroFile
    rw [List.length_append, List.length_replicate, hheader]
  unfold slice?
  rw [if_pos (by omega)]
  unfold zeroFile
  rw [List.drop_append, hheader, List.drop_of_length_le (by omega), List.nil_append,
    List.drop_replicate, List.take_replicate]
  refine congrArg (fun k => some (List.replicate k 0)) ?_
  omega

theorem openReader_zeroFile (hcount : count ≤ n) (hfits : n < 2 ^ 32) :
    SectorFile.openReader (zeroFile n) count
      = .ok ⟨zeroHeader, count, fun _ => none, zeroFile n⟩ := by
  have hbytes : slice? (zeroFile n) 0 sectorHeaderSize = some zeroHeaderBytes := by
    unfold slice?
    rw [if_pos (by unfold zeroFile; rw [List.length_append]; exact Nat.le_add_right 64 _)]
    exact congrArg some (List.take_left' rfl)
  have hparse : SectorHeader.parse zeroHeaderBytes = .ok zeroHeader := rfl
  have hsize : checkedMul count zeroHeader.evalStructSize = some count := by
    unfold checkedMul usizeMax
    rw [if_pos (by show count * 1 ≤ _; omega)]
    exact congrArg some (Nat.mul_one count)
  have hstart : checkedAdd sectorHeaderSize count = some (64 + count) := by
    unfold checkedAdd usizeMax sectorHeaderSize
    rw [if_pos (by omega)]
  have htable : slice? (zeroFile n) (64 + count) 4 = some (List.replicate 4 0) :=
    slice_zeroFile (by omega) (by omega)
  unfold SectorFile.openReader
  rw [hbytes]
  refine Except.bind_ok_iff.2 ⟨zeroHeader, hparse, ?_⟩
  rw [hsize]
  dsimp only
  rw [hstart]
  dsimp only
  rw [htable]
  rfl

/-- The shortest file is its header and the four bytes behind it. -/
example : (zeroFile 0).length = 68 := by decide +kernel

theorem evalAt_zeroFile {index : Nat} (hcount : count ≤ n) (hindex : index < count) :
    SectorFile.evalAt ⟨zeroHeader, count, fun _ => none, zeroFile n⟩ index = .ok ⟨0, 0⟩ := by
  have hslot : slice? (zeroFile n) (sectorHeaderSize + index * 1) 1
      = some (List.replicate 1 0) := by
    unfold sectorHeaderSize
    exact slice_zeroFile (by omega) (by omega)
  unfold SectorFile.evalAt
  rw [if_neg (by dsimp only; omega)]
  have hsize : zeroHeader.evalStructSize = 1 := rfl
  dsimp only
  rw [hsize, hslot]
  rfl

/-- There are no more slots than boards. -/
theorem hashCount_le {whiteCount blackCount : Nat} (h : HasherOk whiteCount blackCount hasher) :
    hasher.hashCount ≤ Nat.choose 24 whiteCount * Nat.choose (24 - whiteCount) blackCount := by
  obtain ⟨orbitIndex, htables⟩ := h.tables
  unfold PerfectHasher.hashCount
  refine Nat.mul_le_mul htables.length_le_choose (le_of_eq ?_)
  rw [h.positions, h.blackInverse, length_combinationMasks (by omega)]

/-- A database of which every file is `zeroFile n`. -/
def zeroProvider (n : Nat) : DatabaseProvider := ⟨fun _ => .ok (zeroFile n)⟩

/-- What it answers: the sector decides. -/
def sectorAnswer (variant : DatabaseVariant) (secVals : SecValTable) (query : PerfectQuery) :
    Except (Fault DatabaseError) (Option PerfectOutcome) :=
  if ¬variant.Supports query then .error .panic
  else if query.onlyStoneTaking then .ok none
  else
    match query.sectorAndBoard with
    | none => .error .panic
    | some (id, _) => (secVals.valueOf id).map fun value =>
        some (DatabaseEval.toOutcome ⟨⟨0, 0⟩, value⟩ secVals)

def sectorSource (variant : DatabaseVariant) (secVals : SecValTable) : OutcomeSource Id where
  variant := variant
  evaluateOutcome query := sectorAnswer variant secVals query

variable {variant : DatabaseVariant} {secVals : SecValTable}

/-- **The answers of the database are those of its sectors**, where the files are long enough. -/
theorem freshAnswer_zeroProvider (hfits : n < 2 ^ 32)
    (hlong : ∀ id value, secVals.value id = some value →
      Nat.choose 24 id.whiteOnBoard * Nat.choose (24 - id.whiteOnBoard) id.blackOnBoard ≤ n)
    (query : PerfectQuery) :
    freshAnswer (zeroProvider n) variant secVals query = sectorAnswer variant secVals query := by
  have hfresh := opened_sound (zeroProvider n) variant secVals
  have hanswer : freshAnswer (zeroProvider n) variant secVals query
      = ((Database.opened (zeroProvider n) variant none secVals).evaluateRaw query).1.map
        fun eval => eval.map fun eval => eval.toOutcome secVals := rfl
  rw [hanswer]
  unfold sectorAnswer
  -- the refusals before the sector is read are the same on both sides
  by_cases hsupports : ¬variant.Supports query
  · unfold Database.evaluateRaw
    rw [hfresh.sameVariant, if_pos hsupports, if_pos hsupports]
    rfl
  by_cases hsettled : query.onlyStoneTaking = true
  · unfold Database.evaluateRaw
    rw [hfresh.sameVariant, if_neg hsupports, if_neg hsupports, if_pos hsettled, if_pos hsettled]
    rfl
  rw [if_neg hsupports, if_neg hsettled]
  cases hsector : query.sectorAndBoard with
  | none =>
    unfold Database.evaluateRaw
    rw [hfresh.sameVariant, if_neg hsupports, if_neg hsettled, hsector]
    rfl
  | some found =>
    obtain ⟨id, board⟩ := found
    have hfit := PlaneCache.Sound.sector_fits hsector
    dsimp only
    cases hvalue : secVals.value id with
    | none =>
      have hmissing : secVals.valueOf id = .error (.error (.missingSectorValue id)) := by
        unfold SecValTable.valueOf
        rw [hvalue]
      have hload : (Database.opened (zeroProvider n) variant none secVals).loadSector id
          = .error (.error (.missingSectorValue id)) := by
        show (secVals.valueOf id >>= fun value => _) = _
        rw [hmissing]
        rfl
      unfold Database.evaluateRaw
      rw [hfresh.sameVariant, if_neg hsupports, if_neg hsettled, hsector, hmissing]
      dsimp only
      rw [hload]
      rfl
    | some value =>
      -- the file of zeros is long enough for the sector, and every slot of it reads as zero
      obtain ⟨hasher, hnew, hok⟩ := new_eq_some
          (show id.whiteOnBoard + id.blackOnBoard ≤ 24 by omega)
      have hcount : hasher.hashCount ≤ n := (hashCount_le hok).trans (hlong id value hvalue)
      have hdata : SectorData (zeroProvider n) variant secVals id hasher value (zeroFile n) :=
        ⟨hfit, hnew, hvalue, rfl⟩
      have hin : InSector variant query id board :=
        ⟨not_not.1 hsupports, Bool.eq_false_iff.2 hsettled, hsector⟩
      obtain ⟨probe, hp⟩ := exists_probed hok hin.boardOf
      have hslot := evalAt_zeroFile hcount (hp.index_lt hok)
      have heval : LoadedSector.evaluateRaw
          ⟨value, hasher, ⟨zeroHeader, hasher.hashCount, fun _ => none,
          zeroFile n⟩⟩ (variant.sectorFileName id) board = .ok ⟨⟨0, 0⟩, value⟩ := by
        refine Except.bind_ok_iff.2 ⟨probe, orPanic_eq_ok.2 hp.result, ?_⟩
        refine Except.bind_ok_iff.2 ⟨⟨0, 0⟩, mapError_eq_ok.2 hslot, ?_⟩
        exact Except.bind_ok_iff.2 ⟨⟨0, 0⟩, rfl, rfl⟩
      rw [Database.evaluateRaw_eq hfresh hdata (openReader_zeroFile hcount hfits) hin, heval,
        valueOf_eq_ok.2 hvalue]
      rfl

end Sanmill.PerfectDb

namespace Sanmill.Puzzle

open PerfectDb

variable {r : MillRules} {source : OutcomeSource Id}

/-! ## Evaluating the best turns -/

/-- The best turns, from the turns that the exploration finds. -/
def bestOfFound (source : OutcomeSource Id) (r : MillRules) (rootSide : Int)
    (found : List (List Action × (GameStateSnapshot × List GameStateSnapshot))) :
    Except (Fault TurnError) (Option (List PerfectLogicalTurnChoice)) :=
  ((turnChoices source r rootSide (found.map (turnAfter []))).run : Except _ _).map fun choices =>
    (choices.bind sortedChoices).bind fun turns =>
      sortedChoices (turns.foldl (keepBest .strictSteps) (none, [])).2

/-- The best turns of a position are found, and meet `p`. -/
def bestMeet (source : OutcomeSource Id) (r : MillRules) (state : LineState)
    (p : List PerfectLogicalTurnChoice → Bool) : Bool :=
  databaseMatchesOptions source r
    && decide ((state.snap.sideToMove = 0 ∨ state.snap.sideToMove = 1)
      ∧ (r.outcome state.snap).kind = .ongoing)
    && match explored r state.snap.sideToMove (maxActionsPerLogicalTurn + 1) state.position with
      | .error _ => false
      | .ok found =>
        match bestOfFound source r state.snap.sideToMove found with
        | .ok (some choices) => p choices
        | _ => false

theorem strictBest_of_bestMeet {state : LineState} {p : List PerfectLogicalTurnChoice → Bool}
    (h : bestMeet source r state p = true) :
    ∃ choices, strictBest source r state = .ok choices ∧ p choices = true := by
  unfold bestMeet at h
  rw [Bool.and_eq_true, Bool.and_eq_true, decide_eq_true_iff] at h
  obtain ⟨⟨hmatch, hside, hongoing⟩, hfound⟩ := h
  obtain ⟨c, hc⟩ := Side.exists_toI8 hside
  -- the checks that were evaluated are those that the enumeration makes
  split at hfound
  · cases hfound
  · rename_i found hexplored
    split at hfound
    · rename_i choices hbest
      refine ⟨choices, strictBest_eq_ok_iff.2 ?_, hfound⟩
      have hexplored' : explored r state.snap.sideToMove (maxActionsPerLogicalTurn + 1)
          (state.snap, state.history) = .ok found := hexplored
      have hdefinite : ¬(state.snap.sideToMove ≠ 0 ∧ state.snap.sideToMove ≠ 1) := by omega
      have hmatches : ¬(!databaseMatchesOptions source r) = true := by
        rw [hmatch]
        decide
      obtain ⟨listed, hlisted, hkept⟩ := Except.map_eq_ok_iff.1 hbest
      refine ExceptT.run_bind_ok_iff.2 ⟨listed.bind sortedChoices, ?_, congrArg Except.ok hkept⟩
      unfold allLogicalTurnOutcomesWithDatabase
      rw [legalLogicalTurns_eq hc hongoing, hexplored']
      dsimp only
      rw [if_neg hmatches, if_neg hdefinite]
      exact ExceptT.run_bind_ok_iff.2 ⟨listed, hlisted, rfl⟩
    · cases hfound

/-! ## The position -/

/-- White has five pieces and black four; 97 plies have passed without a removal. -/
def lateWinFen : Text :=
  "*@***O**/O**@**@*/@*O*O**O w m s 5 0 4 0 0 0 -1 -1 -1 -1 0 97 60 ids:nodes".toList

def lateWin : GameStateSnapshot :=
  ((setFromFen {} lateWinFen).toOption.getD (MillState.empty {})).encode {}

/-- More pieces win, as far as the two sectors of the position go. -/
def materialValues : SecValTable where
  virtLossVal := -1
  virtWinVal := 1
  value id := if id = ⟨4, 5, 0, 0⟩ then some (-1) else if id = ⟨5, 4, 0, 0⟩ then some 1 else none

/-- `a7-a4`, by node numbers. -/
def quietTurn : PerfectLogicalTurnChoice := ⟨[moveAction 23 22], ["a7-a4".toList], .win 0⟩

/-- `b4-b2`. -/
def quietReply : PerfectLogicalTurnChoice := ⟨[moveAction 14 13], ["b4-b2".toList], .loss 0⟩

def afterTurn : LineState := advance .default 0 (.new lateWin) quietTurn

def afterReply : LineState := advance .default 0 afterTurn quietReply

/-- What the solver, the opponent and the solver again choose from. -/
theorem lateLine_best :
    bestMeet (sectorSource .standard materialValues) .default (.new lateWin)
        (fun choices => decide (quietTurn ∈ choices)) = true
      ∧ bestMeet (sectorSource .standard materialValues) .default afterTurn
        (fun choices => decide (choices.head? = some quietReply)) = true
      ∧ bestMeet (sectorSource .standard materialValues) .default afterReply
        (fun choices => choices.any fun choice => decide (choice.outcome.wdl ≠ 1)) = true :=
  ⟨by decide +kernel, by decide +kernel, by decide +kernel⟩

/-! ## The database -/

/-- As many slots as there are boards in either sector. -/
def lateSlots : Nat := 164745504

example : lateSlots = Nat.choose 24 5 * Nat.choose 19 4 := by decide +kernel

def lateDatabase : Database :=
  Database.opened (zeroProvider lateSlots) .standard none materialValues

theorem lateDatabase_sound :
    Database.Sound (zeroProvider lateSlots) .standard materialValues lateDatabase :=
  opened_sound _ _ _

theorem materialValues_long (id : SectorId) (value : Int)
    (h : materialValues.value id = some value) :
    Nat.choose 24 id.whiteOnBoard * Nat.choose (24 - id.whiteOnBoard) id.blackOnBoard
      ≤ lateSlots := by
  unfold materialValues at h
  dsimp only at h
  split at h
  · rename_i hid
    rw [hid]
    decide +kernel
  · split at h
    · rename_i hid
      rw [hid]
      decide +kernel
    · cases h

theorem freshSource_late : freshSource (zeroProvider lateSlots) .standard materialValues
    = sectorSource .standard materialValues := by
  unfold freshSource sectorSource
  congr 1
  funext query
  exact freshAnswer_zeroProvider (by decide) materialValues_long query

theorem lateWin_firstTurn : FirstTurn lateDatabase .standard .default 0 lateWin quietTurn 128 := by
  obtain ⟨choices, hbest, hmem⟩ := strictBest_of_bestMeet lateLine_best.1
  refine ⟨⟨.strictSteps, choices, ?_, of_decide_eq_true hmem⟩, rfl, by decide +kernel, by decide,
    by decide⟩
  refine (@strictBest_iff _ (.new lateWin) _ _ _ _ lateDatabase_sound _).2 ?_
  rw [freshSource_late]
  exact hbest

theorem lateLine_goesOn :
    (strategy (sectorSource .standard materialValues) .default 0).finished afterTurn = none
      ∧ (strategy (sectorSource .standard materialValues) .default 0).finished afterReply = none :=
  ⟨strategy_finished_of_ongoing (by decide +kernel),
    strategy_finished_of_ongoing (by decide +kernel)⟩

/-- After the reply the strategy trips: each turn of the solver is a draw. -/
theorem lateWin_trips (n : Nat) :
    (strategy (sectorSource .standard materialValues) .default 0).leftmost (n + 2) afterTurn
      = .error .panic := by
  obtain ⟨replies, hreplies, hfirst⟩ := strictBest_of_bestMeet lateLine_best.2.1
  obtain ⟨last, hlast, hany⟩ := strictBest_of_bestMeet lateLine_best.2.2
  obtain ⟨rest, rfl⟩ := List.head?_eq_some_iff.1 (of_decide_eq_true hfirst)
  obtain ⟨choice, hchoice, hwdl⟩ := List.any_eq_true.1 hany
  have hreply : strategyTurns (sectorSource .standard materialValues) .default 0 afterTurn
      = .ok [afterReply] := by
    refine Except.bind_ok_iff.2 ⟨_, hreplies, ?_⟩
    rw [if_neg (by decide +kernel)]
    rfl
  have htrip : strategyTurns (sectorSource .standard materialValues) .default 0 afterReply
      = .error .panic := by
    refine strategyTurns_eq_error_iff.2 (.inr ⟨last, hlast, ?_⟩)
    rw [if_pos (by decide +kernel)]
    exact ⟨rfl, choice, hchoice, of_decide_eq_true hwdl⟩
  rw [Expansion.leftmost_of_first lateLine_goesOn.1 hreply]
  exact Expansion.leftmost_of_error lateLine_goesOn.2 htrip

theorem lateWin_broken :
    ¬SolutionsHold lateDatabase .standard .default 0 lateWin quietTurn 128 := by
  intro hholds
  have hprincipal := buildPrincipalSolutionLine_answer lateDatabase_sound lateWin_firstTurn
  rw [freshSource_late] at hprincipal
  unfold strategyEnds at hprincipal
  rw [Expansion.head?_leaves strategyTurns_ne_nil] at hprincipal
  exact hholds.principalReturns ((Option.some.inj hprincipal).symm.trans (lateWin_trips 57))

/-- **Near the limit of the n-move rule both builders panic.** -/
theorem lateWin_panics : ¬ ∀ (provider : DatabaseProvider) (variant : DatabaseVariant)
    (secVals : SecValTable) (db : Database), Database.Sound provider variant secVals db →
    ∀ (r : MillRules) (solverSide : Int) (root : GameStateSnapshot)
      (firstTurn : PerfectLogicalTurnChoice) (maxExportedLines : Nat),
      FirstTurn db variant r solverSide root firstTurn maxExportedLines →
        SolutionsHold db variant r solverSide root firstTurn maxExportedLines := by
  intro hall
  exact lateWin_broken (hall _ _ _ _ lateDatabase_sound _ _ _ _ _ lateWin_firstTurn)

/-- After that first turn the strategy trips before it fails, and before 128 lines are won. -/
theorem lateWin_condition :
    FirstTurn lateDatabase .standard .default 0 lateWin quietTurn 128
      ∧ ¬TripsTooLate lateDatabase .standard .default 0 128
        (played .default (lateWin, []) quietTurn.actions) :=
  ⟨lateWin_firstTurn, fun htooLate =>
    lateWin_broken ((solutionsHold_iff lateDatabase_sound lateWin_firstTurn).2 htooLate)⟩

end Sanmill.Puzzle
