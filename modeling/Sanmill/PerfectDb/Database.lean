import Sanmill.Lib.LoadCache
import Sanmill.PerfectDb.CanonicalKey
import Sanmill.PerfectDb.SectorFile

/-!
# The database

`Database` answers a query from the slot of its canonical board, which it reads from the file
of the sector. A slot that redirects sends it once to the slot of a symmetric board. Opened
sectors are cached.
-/

namespace Sanmill.PerfectDb

open LittleEndian

/-- How a call of the database fails. -/
inductive DatabaseError where
  | read (name : String) (notFound : Bool)
  | parse (name : String) (source : ParseError)
  | missingSectorValue (id : SectorId)
deriving DecidableEq

/-- `is_missing_asset`: the file of the sector is not there. -/
def DatabaseError.isMissingAsset : DatabaseError → Bool
  | .read _ notFound => notFound
  | _ => false

/-- The files by their names. -/
structure DatabaseProvider where
  read : String → Except DatabaseError (List Byte)

/-- `open_sector`: a reader over the bytes. -/
def DatabaseProvider.openSector (provider : DatabaseProvider) (name : String) :
    Except DatabaseError (List Byte) :=
  provider.read name

/-- A variant with a database: its name in the files and its pieces. -/
structure DatabaseVariant where
  name : String
  pieceCount : Nat
deriving DecidableEq

namespace DatabaseVariant

/-- Nine Men's Morris. -/
def standard : DatabaseVariant := ⟨"std", 9⟩

/-- Lasker Morris. -/
def lasker : DatabaseVariant := ⟨"lask", 10⟩

/-- Morabaraba. -/
def morabaraba : DatabaseVariant := ⟨"mora", 12⟩

/-- The variants that have a database. -/
def known : List DatabaseVariant := [standard, lasker, morabaraba]

variable (variant : DatabaseVariant)

/-- The file that holds a sector. -/
def sectorFileName (id : SectorId) : String :=
  s!"{variant.name}_{id.whiteOnBoard}_{id.blackOnBoard}_{id.whiteInHand}_{id.blackInHand}.sec2"

/-- What `assert_supports` asserts. -/
def Supports (query : PerfectQuery) : Prop :=
  (query.whiteInHand ≤ variant.pieceCount ∧ query.blackInHand ≤ variant.pieceCount)
    ∧ countOnes query.whiteBits + query.whiteInHand ≤ variant.pieceCount
    ∧ countOnes query.blackBits + query.blackInHand ≤ variant.pieceCount

instance (query : PerfectQuery) : Decidable (variant.Supports query) :=
  inferInstanceAs (Decidable (_ ∧ _ ∧ _))

end DatabaseVariant

/-- The values of the sectors, as both the database and the planes read them. -/
structure SecValTable where
  virtLossVal : Int
  virtWinVal : Int
  value : SectorId → Option Int

/-- `value`, with the error where there is none. -/
def SecValTable.valueOf (secVals : SecValTable) (id : SectorId) :
    Except (Fault DatabaseError) Int :=
  match secVals.value id with
  | some value => .ok value
  | none => .error (.error (.missingSectorValue id))

/-- The value of a position beside that of its sector. -/
structure DatabaseEval where
  raw : RawEval
  sectorValue : Int
deriving DecidableEq

/-- What a position is worth, and in how many steps. -/
inductive PerfectOutcome where
  | win (steps : Int)
  | draw (steps : Int)
  | loss (steps : Int)
deriving DecidableEq, Repr

/-- Win, draw or loss as a number. -/
def PerfectOutcome.wdl : PerfectOutcome → Int
  | .win _ => 1
  | .draw _ => 0
  | .loss _ => -1

namespace DatabaseEval

/-- The value of the position over all sectors. -/
def absoluteKey1 (eval : DatabaseEval) : Int := eval.raw.key1 + eval.sectorValue

/-- `to_outcome`: the virtual values stand for a win and a loss. -/
def toOutcome (eval : DatabaseEval) (secVals : SecValTable) : PerfectOutcome :=
  if eval.absoluteKey1 = secVals.virtWinVal then .win eval.raw.key2
  else if eval.absoluteKey1 = secVals.virtLossVal then .loss eval.raw.key2
  else .draw eval.raw.key2

end DatabaseEval

/-- A sector with its hasher and its file. -/
structure LoadedSector where
  value : Int
  hasher : PerfectHasher
  file : SectorFile

/-- `map_err` to the error of the database. -/
def inSector {α : Type} (name : String) (result : Except ParseError α) :
    Except (Fault DatabaseError) α :=
  result.mapError fun source => .error (.parse name source)

/-- An `expect`, an assertion or an index. -/
def orPanic {ε α : Type} (result : Option α) : Except (Fault ε) α :=
  match result with
  | some value => .ok value
  | none => .error .panic

/-- The error of a redirect that leads to another one. -/
def doubleRedirect : ParseError :=
  .invalidHeader "Perfect DB symmetry redirect resolved to another redirect"

namespace LoadedSector

variable (sector : LoadedSector) (name : String)

/-- A redirect must not lead to another one. -/
def concrete (raw : RawEval) : Except (Fault DatabaseError) RawEval := do
  let kind ← inSector name raw.tryKind
  match kind with
  | .symmetry _ => .error (.error (.parse name doubleRedirect))
  | _ => .ok raw

/-- The slot that a redirect leads to. -/
def redirected (canonicalBoard : Nat) (operation : SymmetryOp) :
    Except (Fault DatabaseError) RawEval := do
  let redirectedBoard := transform48 operation canonicalBoard
  let redirectedIndex ← orPanic (sector.hasher.directHashIndex redirectedBoard)
  let raw ← inSector name (sector.file.evalAt redirectedIndex)
  concrete name raw

/-- The value at a slot, after at most one redirect. -/
def settled (canonicalBoard : Nat) (raw : RawEval) : Except (Fault DatabaseError) RawEval := do
  let kind ← inSector name raw.tryKind
  match kind with
  | .symmetry operation => sector.redirected name canonicalBoard operation
  | _ => .ok raw

/-- The part of `evaluate_raw` after the sector is loaded. -/
def evaluateRaw (board : Nat) : Except (Fault DatabaseError) DatabaseEval := do
  let probe ← orPanic (sector.hasher.hashProbe board)
  let raw ← inSector name (sector.file.evalAt probe.index)
  let raw ← sector.settled name probe.canonicalBoard raw
  .ok ⟨raw, sector.value⟩

end LoadedSector

/-- An open database with the sectors it keeps. -/
structure Database where
  provider : DatabaseProvider
  variant : DatabaseVariant
  sectorCacheCapacity : Option Nat
  secVals : SecValTable
  sectors : LoadCache SectorId LoadedSector

namespace Database

/-- An opened database, before its first query. -/
def opened (provider : DatabaseProvider) (variant : DatabaseVariant)
    (sectorCacheCapacity : Option Nat) (secVals : SecValTable) : Database :=
  ⟨provider, variant, sectorCacheCapacity, secVals, .empty⟩

variable (db : Database)

/-- The sector, read anew when it is not cached; an error leaves the cache as it is. -/
def loadSector (id : SectorId) : Except (Fault DatabaseError) (LoadedSector × Database) :=
  match db.sectors.get? id with
  | some sector => .ok (sector, db)
  | none => do
    let value ← db.secVals.valueOf id
    let hasher ← orPanic (PerfectHasher.new id.whiteOnBoard id.blackOnBoard)
    let name := db.variant.sectorFileName id
    let reader ← (db.provider.openSector name).mapError .error
    let file ← inSector name (SectorFile.openReader reader hasher.hashCount)
    let sector : LoadedSector := ⟨value, hasher, file⟩
    let sectors ← orPanic (db.sectors.insert db.sectorCacheCapacity id sector)
    .ok (sector, { db with sectors })

/-- `evaluate_raw`, with the database after the call. -/
def evaluateRaw (query : PerfectQuery) :
    Except (Fault DatabaseError) (Option DatabaseEval) × Database :=
  if ¬ db.variant.Supports query then (.error .panic, db)
  else if query.onlyStoneTaking then (.ok none, db)
  else
    match query.sectorAndBoard with
    | none => (.error .panic, db)
    | some (id, board) =>
      match db.loadSector id with
      | .error e => (.error e, db)
      | .ok (sector, db) =>
        ((sector.evaluateRaw (db.variant.sectorFileName id) board).map some, db)

/-- `evaluate_outcome`: the raw value read as an outcome. -/
def evaluateOutcome (query : PerfectQuery) :
    Except (Fault DatabaseError) (Option PerfectOutcome) × Database :=
  let (result, after) := db.evaluateRaw query
  (result.map fun eval => eval.map fun eval => eval.toOutcome db.secVals, after)

end Database

end Sanmill.PerfectDb
