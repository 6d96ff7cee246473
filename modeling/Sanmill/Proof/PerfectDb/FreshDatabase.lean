import Sanmill.Lib.Transparent
import Sanmill.PerfectDb.TurnChoice
import Sanmill.Proof.PerfectDb.PlaneCache

/-!
# The cache of sectors does not show

Whatever was asked before, a database answers like one that has just been opened, errors
included. So a program that reaches the database through `OutcomeSource` may be read with a
source that has no state.
-/

namespace Sanmill.PerfectDb

variable {provider : DatabaseProvider} {variant : DatabaseVariant} {secVals : SecValTable}
  {db db' : Database} {id : SectorId} {query : PerfectQuery}

/-- A sector, read from its file. -/
def readSector (provider : DatabaseProvider) (variant : DatabaseVariant) (secVals : SecValTable)
    (id : SectorId) : Except (Fault DatabaseError) LoadedSector := do
  let value ← secVals.valueOf id
  let hasher ← orPanic (PerfectHasher.new id.whiteOnBoard id.blackOnBoard)
  let name := variant.sectorFileName id
  let reader ← (provider.openSector name).mapError .error
  let file ← inSector name (SectorFile.openReader reader hasher.hashCount)
  .ok ⟨value, hasher, file⟩

/-- What a database that has just been opened answers. -/
def freshAnswer (provider : DatabaseProvider) (variant : DatabaseVariant) (secVals : SecValTable)
    (query : PerfectQuery) : Except (Fault DatabaseError) (Option PerfectOutcome) :=
  ((Database.opened provider variant none secVals).evaluateOutcome query).1

/-- The database without its cache. -/
def freshSource (provider : DatabaseProvider) (variant : DatabaseVariant)
    (secVals : SecValTable) : OutcomeSource Id where
  variant := variant
  evaluateOutcome query := freshAnswer provider variant secVals query

theorem opened_sound (provider : DatabaseProvider) (variant : DatabaseVariant)
    (secVals : SecValTable) :
    Database.Sound provider variant secVals (Database.opened provider variant none secVals) where
  sameProvider := rfl
  sameVariant := rfl
  sameSecVals := rfl
  capacity := by
    intro c hc
    cases hc
  ordered := LoadCache.ordered_empty
  sectors := by
    intro id sector hmem
    cases hmem

namespace Database.Sound

theorem readSector_cached {sector : LoadedSector}
    (hsector : IsSector provider variant secVals id sector) :
    readSector provider variant secVals id = .ok sector := by
  obtain ⟨bytes, hdata, hopen⟩ := hsector
  refine Except.bind_ok_iff.2 ⟨_, valueOf_eq_ok.2 hdata.value, ?_⟩
  refine Except.bind_ok_iff.2 ⟨_, orPanic_eq_ok.2 hdata.hasher, ?_⟩
  refine Except.bind_ok_iff.2 ⟨bytes, mapError_eq_ok.2 hdata.bytes, ?_⟩
  exact Except.bind_ok_iff.2 ⟨_, mapError_eq_ok.2 hopen, rfl⟩

/-- A sector is handed out as it is read, and an error is the error of reading it. -/
theorem loadSector_map (h : Sound provider variant secVals db) (id : SectorId) :
    (db.loadSector id).map Prod.fst = readSector provider variant secVals id := by
  unfold Database.loadSector
  cases hcached : db.sectors.get? id with
  | some sector =>
    exact (readSector_cached (h.sectors id sector (LoadCache.get?_eq_some hcached))).symm
  | none =>
    -- the last step finds room in the cache, so it cannot fail
    have hroom : ∀ sector, ∃ sectors,
        db.sectors.insert db.sectorCacheCapacity id sector = some sectors := by
      intro sector
      obtain ⟨sectors, hinserted, -⟩ :=
        @LoadCache.insert_spec _ _ _ _ _ sector _ h.capacity h.ordered hcached
      exact ⟨sectors, hinserted⟩
    unfold readSector
    rw [h.sameSecVals, h.sameVariant, h.sameProvider]
    dsimp only
    cases secVals.valueOf id with
    | error e => rfl
    | ok value =>
      cases PerfectHasher.new id.whiteOnBoard id.blackOnBoard with
      | none => rfl
      | some hasher =>
        cases hread : provider.openSector (variant.sectorFileName id) with
        | error e => rfl
        | ok reader =>
          cases hfile : SectorFile.openReader reader hasher.hashCount with
          | error e =>
            simp [hfile, inSector, orPanic, Except.mapError, Except.map, bind, Except.bind]
          | ok file =>
            obtain ⟨sectors, hinserted⟩ := hroom ⟨value, hasher, file⟩
            simp [hfile, hinserted, inSector, orPanic, Except.mapError, Except.map, bind,
              Except.bind]

/-- **The answer does not depend on what was asked before.** -/
theorem evaluateOutcome_eq (h : Sound provider variant secVals db) (query : PerfectQuery) :
    (db.evaluateOutcome query).1 = freshAnswer provider variant secVals query := by
  have hfresh := opened_sound provider variant secVals
  -- the answer never depends on which sectors are loaded already
  have hraw : ∀ db, Sound provider variant secVals db → (db.evaluateRaw query).1
      = if ¬ variant.Supports query then .error .panic
        else if query.onlyStoneTaking then .ok none
        else
          query.sectorAndBoard.elim (.error .panic) fun found =>
            readSector provider variant secVals found.1 >>= fun sector =>
              (sector.evaluateRaw (variant.sectorFileName found.1) found.2).map some := by
    intro db h
    unfold Database.evaluateRaw
    rw [h.sameVariant]
    split
    · rfl
    · split
      · rfl
      · cases hsector : query.sectorAndBoard with
        | none => rfl
        | some found =>
          obtain ⟨id, board⟩ := found
          dsimp only [Option.elim]
          -- a cached sector is what reading its file would give
          rw [← h.loadSector_map id]
          cases hload : db.loadSector id with
          | error e => rfl
          | ok loaded =>
            obtain ⟨sector, after⟩ := loaded
            have hafter : after.variant = variant :=
              (h.loadSector (PlaneCache.Sound.sector_fits hsector) hload).1.sameVariant
            dsimp only
            rw [hafter]
            rfl
  unfold freshAnswer Database.evaluateOutcome
  dsimp only
  rw [hraw db h, hraw _ hfresh, h.sameSecVals]
  rfl

theorem evaluateOutcome (h : Sound provider variant secVals db) (query : PerfectQuery) :
    Sound provider variant secVals (db.evaluateOutcome query).2 :=
  h.evaluateRaw query

end Database.Sound

/-! ## Programs over the database -/

/-- A program over the database, and what it answers without a cache. -/
abbrev Uncached (provider : DatabaseProvider) (variant : DatabaseVariant) (secVals : SecValTable)
    {ε α : Type} (x : ExceptT ε (StateM Database) α) (y : Except ε α) : Prop :=
  Transparent (Database.Sound provider variant secVals) x y

theorem source_uncached (query : PerfectQuery) :
    Uncached provider variant secVals ((Database.source variant).evaluateOutcome query)
      (freshAnswer provider variant secVals query) := by
  intro db hdb
  exact ⟨hdb.evaluateOutcome_eq query, hdb.evaluateOutcome query⟩

section

variable {r : MillRules}

theorem evaluateState_uncached (state : MillState) (side : Int) :
    Uncached provider variant secVals
      (evaluateStateOutcomeWithDatabase (Database.source variant) r state side)
      (evaluateStateOutcomeWithDatabase (freshSource provider variant secVals) r state
        side).run := by
  unfold evaluateStateOutcomeWithDatabase
  have hsame : databaseMatchesOptions (freshSource provider variant secVals) r
      = databaseMatchesOptions (Database.source variant) r := rfl
  rw [hsame]
  split
  · exact Transparent.pure none
  · cases queryFromState state r.options side with
    | none => exact Transparent.throw _
    | some found =>
      cases found with
      | none => exact Transparent.pure none
      | some query => exact source_uncached query

theorem turnOutcome_uncached (rootSide : Int) (turn : MillLogicalTurn) :
    Uncached provider variant secVals (turnOutcome (Database.source variant) r rootSide turn)
      (turnOutcome (freshSource provider variant secVals) r rootSide turn).run := by
  unfold turnOutcome
  cases terminalOutcomeForRoot r turn.finalSnapshot rootSide with
  | some outcome => exact Transparent.pure _
  | none =>
    dsimp only
    split
    · exact Transparent.throw _
    · refine Transparent.bindId (Transparent.reread coveredOutcome (evaluateState_uncached _ _)) ?_
      intro outcome
      exact Transparent.pure _

theorem turnChoices_uncached (rootSide : Int) (turns : List MillLogicalTurn) :
    Uncached provider variant secVals (turnChoices (Database.source variant) r rootSide turns)
      (turnChoices (freshSource provider variant secVals) r rootSide turns).run := by
  induction turns with
  | nil => exact Transparent.pure _
  | cons turn rest ih =>
    refine Transparent.bindId (turnOutcome_uncached rootSide turn) ?_
    intro outcome
    cases outcome with
    | none => exact Transparent.pure none
    | some outcome =>
      refine Transparent.bindId ih ?_
      intro choices
      exact Transparent.pure _

/-- **The best turns do not depend on what was asked before.** -/
theorem bestChoices_uncached (snap : GameStateSnapshot) (history : List GameStateSnapshot)
    (ordering : PerfectMoveOrdering) :
    Uncached provider variant secVals
      (bestLogicalTurnChoicesWithOrdering (Database.source variant) r snap history ordering)
      (bestLogicalTurnChoicesWithOrdering (freshSource provider variant secVals) r snap history
        ordering).run := by
  refine Transparent.bindId ?_ fun turns => Transparent.pure _
  unfold allLogicalTurnOutcomesWithDatabase
  have hsame : databaseMatchesOptions (freshSource provider variant secVals) r
      = databaseMatchesOptions (Database.source variant) r := rfl
  rw [hsame]
  dsimp only
  split
  · exact Transparent.pure none
  · split
    · exact Transparent.pure none
    · cases r.legalLogicalTurns snap history with
      | error e => exact Transparent.throw _
      | ok turns =>
        refine Transparent.bindId (turnChoices_uncached _ turns) ?_
        intro choices
        exact Transparent.pure _

end

end Sanmill.PerfectDb
