import Sanmill.Proof.PerfectDb.InverseBoard
import Sanmill.Proof.PerfectDb.OrbitCount
import Sanmill.Proof.PerfectDb.PlaneCache

/-!
# The planes against the database

A plane that can be built answers as the database does, whatever either was asked before. A
slot that redirects twice, or with an operation that does not exist, is reported by the
database, while the plane of its sector is never built: it panics.
-/

namespace Sanmill.PerfectDb

open LittleEndian

variable {provider : DatabaseProvider} {variant : DatabaseVariant} {secVals : SecValTable}
  {id : SectorId} {hasher : PerfectHasher} {value : Int} {bytes : List Byte}
  {rawEvals : List RawEval} {board : Nat} {probe : HashProbe}

/-! ## Slots -/

/-- An evaluation that is none of a redirect. -/
def RawEval.Concrete (raw : RawEval) : Prop := raw.key1 ≠ 0 ∨ 0 ≤ raw.key2

/-- The slot of the probe is concrete, or redirects, by an operation, to one that is. -/
def LeadsToValue (hasher : PerfectHasher) (rawEvals : List RawEval) (probe : HashProbe) : Prop :=
  ∀ raw, rawEvals[probe.index]? = some raw → raw.Concrete
    ∨ ∃ operation : SymmetryOp, raw.key2 = -(operation.val + 1 : Int)
      ∧ ∀ index redirected,
        hasher.directHashIndex (transform48 operation probe.canonicalBoard) = some index →
        rawEvals[index]? = some redirected → redirected.Concrete

/-- What `try_kind` finds. -/
theorem tryKind_cases (raw : RawEval) :
    (∃ kind, raw.tryKind = .ok kind ∧ raw.Concrete ∧ ∀ operation, kind ≠ .symmetry operation)
      ∨ (∃ operation : SymmetryOp, raw.tryKind = .ok (.symmetry operation) ∧ ¬ raw.Concrete
        ∧ raw.key2 = -(operation.val + 1 : Int))
      ∨ (∃ e, raw.tryKind = .error e) ∧ ¬ raw.Concrete
        ∧ ∀ operation : SymmetryOp, raw.key2 ≠ -(operation.val + 1 : Int) := by
  unfold RawEval.tryKind RawEval.Concrete
  split
  · rename_i hkey1
    exact .inl ⟨_, rfl, .inl hkey1, nofun⟩
  · rename_i hkey1
    split
    · rename_i hkey2
      exact .inl ⟨_, rfl, .inr hkey2, nofun⟩
    · rename_i hkey2
      have hnot : ¬ (raw.key1 ≠ 0 ∨ 0 ≤ raw.key2) := not_or.2 ⟨hkey1, hkey2⟩
      dsimp only
      split
      · rename_i hrange
        refine .inr (.inl ⟨_, rfl, hnot, ?_⟩)
        show raw.key2 = -(((-(raw.key2 + 1)).toNat : Int) + 1)
        omega
      · rename_i hrange
        refine .inr (.inr ⟨⟨_, rfl⟩, hnot, fun operation heq => hrange ?_⟩)
        have hlt := operation.isLt
        omega

/-- Boards of the sector have an index. -/
theorem exists_directHashIndex {whiteCount blackCount : Nat}
    (h : HasherOk whiteCount blackCount hasher)
    (hboard : BoardOf whiteCount blackCount board) :
    ∃ index, hasher.directHashIndex board = some index ∧ index < hasher.hashCount := by
  obtain ⟨orbitIndex, htables⟩ := h.tables
  obtain ⟨entry, hentry⟩ := h.total _ (whiteHalf_lt board) hboard.white
  obtain ⟨-, seed, hseed, -, -⟩ := htables.entry _ entry hentry
  obtain ⟨rank, hrank, hcompact⟩ := exists_rank h hboard
  have hrow : entry.index + 1 ≤ hasher.whiteInverse.length := (List.getElem?_eq_some_iff.1 hseed).1
  have hlt : rank < hasher.positionsPerWhite := by
    rw [h.positions]
    exact (List.getElem?_eq_some_iff.1 hcompact).1
  refine ⟨entry.index * hasher.positionsPerWhite + rank, ?_, ?_⟩
  · have hwhiteCount : countOnes (board &&& mask24) = hasher.whiteCount :=
      hboard.white.trans h.whiteCount_eq.symm
    have hblackCount : countOnes ((board >>> 24) &&& mask24) = hasher.blackCount :=
      hboard.black.trans h.blackCount_eq.symm
    have hapart : (board &&& mask24) &&& ((board >>> 24) &&& mask24) = 0 := hboard.disjoint
    have hlookup : hasher.whiteLookup (board &&& mask24) = some entry := hentry
    simp only [PerfectHasher.directHashIndex, guard, if_pos hwhiteCount, if_pos hblackCount,
      if_pos hapart, hlookup, hrank, Option.pure_def, Option.bind_eq_bind, Option.bind_some]
  · have hmul := Nat.mul_le_mul_right hasher.positionsPerWhite hrow
    rw [Nat.succ_mul] at hmul
    rw [PerfectHasher.hashCount]
    omega

/-- Neither side gets behind the slot: the plane panics, and the database reports an error. -/
def NotResolved (name : String) (plane : Option RawEval)
    (database : Except (Fault DatabaseError) RawEval) : Prop :=
  plane = none ∧ ∃ source, database = .error (.error (.parse name source))

section Slot

variable {sector : LoadedSector} {whiteCount blackCount : Nat}
  (h : HasherOk whiteCount blackCount sector.hasher)
  (hlength : rawEvals.length = sector.hasher.hashCount)
  (hread : ∀ index raw, rawEvals[index]? = some raw → sector.file.evalAt index = .ok raw)
  (name : String)
include h hlength hread

/-- A redirect leads both to the same slot, where it leads to a board of the sector. -/
theorem redirected_agrees {index canonicalBoard : Nat} {operation : SymmetryOp}
    (hinverse : sector.hasher.inverseBoard index = some canonicalBoard)
    (hboard : BoardOf whiteCount blackCount canonicalBoard) :
    ∃ target raw, sector.hasher.directHashIndex (transform48 operation canonicalBoard) = some target
      ∧ rawEvals[target]? = some raw
      ∧ (raw.Concrete → WdlPlane.redirected sector.hasher rawEvals index operation = some raw
          ∧ sector.redirected name canonicalBoard operation = .ok raw)
      ∧ (¬ raw.Concrete → NotResolved name
          (WdlPlane.redirected sector.hasher rawEvals index operation)
          (sector.redirected name canonicalBoard operation)) := by
  obtain ⟨target, htarget, hlt⟩ := exists_directHashIndex h (hboard.transform operation)
  obtain ⟨raw, hraw⟩ : ∃ raw, rawEvals[target]? = some raw :=
    ⟨_, List.getElem?_eq_getElem (hlength ▸ hlt)⟩
  refine ⟨target, raw, htarget, hraw, ?_⟩
  -- both readers come to the same slot; what they make of a second redirect differs in form only
  have hplane : WdlPlane.redirected sector.hasher rawEvals index operation
      = WdlPlane.concrete raw := by
    unfold WdlPlane.redirected
    simp only [hinverse, htarget, hraw, Option.bind_eq_bind, Option.bind_some]
  have hdatabase : sector.redirected name canonicalBoard operation
      = LoadedSector.concrete name raw := by
    unfold LoadedSector.redirected
    dsimp only
    rw [htarget]
    show (inSector name (sector.file.evalAt target) >>= _) = _
    rw [hread target raw hraw]
    rfl
  rw [hplane, hdatabase]
  unfold WdlPlane.concrete LoadedSector.concrete
  rcases tryKind_cases raw with ⟨kind, hkind, hconcrete, hother⟩
    | ⟨again, hkind, hconcrete, -⟩ | ⟨⟨e, hkind⟩, hconcrete, -⟩
  · refine ⟨fun _ => ?_, fun hnot => absurd hconcrete hnot⟩
    rw [hkind]
    cases kind with
    | symmetry again => exact absurd rfl (hother again)
    | value => exact ⟨rfl, rfl⟩
    | count => exact ⟨rfl, rfl⟩
  · refine ⟨fun hyes => absurd hyes hconcrete, fun _ => ?_⟩
    rw [hkind]
    exact ⟨rfl, doubleRedirect, rfl⟩
  · refine ⟨fun hyes => absurd hyes hconcrete, fun _ => ?_⟩
    rw [hkind]
    exact ⟨rfl, e, rfl⟩

/-- **Both sides find the same behind the slot of a probe**, and neither where it does not lead
to a value. -/
theorem slot_agrees (hboard : BoardOf whiteCount blackCount board)
    (hp : Probed sector.hasher board probe) :
    (LeadsToValue sector.hasher rawEvals probe → ∃ raw,
        WdlPlane.resolve sector.hasher rawEvals probe.index = some raw
          ∧ sector.evaluateRaw name board = .ok ⟨raw, sector.value⟩)
      ∧ (¬ LeadsToValue sector.hasher rawEvals probe →
        WdlPlane.resolve sector.hasher rawEvals probe.index = none
          ∧ ∃ source, sector.evaluateRaw name board = .error (.error (.parse name source))) := by
  have hindex := hp.index_lt h
  obtain ⟨raw, hraw⟩ : ∃ raw, rawEvals[probe.index]? = some raw :=
    ⟨_, List.getElem?_eq_getElem (hlength ▸ hindex)⟩
  have hinverse := inverseBoard_probe h hboard hp
  have hcanonical := hp.canonical_board hboard
  have hdatabase : sector.evaluateRaw name board
      = sector.settled name probe.canonicalBoard raw >>= fun raw => .ok ⟨raw, sector.value⟩ := by
    unfold LoadedSector.evaluateRaw
    rw [hp.result]
    show (inSector name (sector.file.evalAt probe.index) >>= _) = _
    rw [hread _ _ hraw]
    rfl
  have hplane : WdlPlane.resolve sector.hasher rawEvals probe.index
      = WdlPlane.settled sector.hasher rawEvals probe.index raw := by
    unfold WdlPlane.resolve
    rw [hraw, Option.bind_some]
  have hleads : LeadsToValue sector.hasher rawEvals probe ↔ raw.Concrete
      ∨ ∃ operation : SymmetryOp, raw.key2 = -(operation.val + 1 : Int)
        ∧ ∀ index redirected,
          sector.hasher.directHashIndex (transform48 operation probe.canonicalBoard) = some index →
          rawEvals[index]? = some redirected → redirected.Concrete := by
    constructor
    · intro hall
      exact hall raw hraw
    · intro hthis other hother
      obtain rfl := Option.some.inj (hraw.symm.trans hother)
      exact hthis
  -- a value is taken as it is, a redirect is followed once, any other pair is an error
  rw [hdatabase, hplane, hleads]
  unfold LoadedSector.settled WdlPlane.settled
  rcases tryKind_cases raw with ⟨kind, hkind, hconcrete, hother⟩
    | ⟨operation, hkind, hconcrete, hcode⟩ | ⟨⟨e, hkind⟩, hconcrete, hcode⟩
  · refine ⟨fun _ => ⟨raw, ?_⟩, fun hnot => absurd (Or.inl hconcrete) hnot⟩
    rw [hkind]
    cases kind with
    | symmetry again => exact absurd rfl (hother again)
    | value => exact ⟨rfl, rfl⟩
    | count => exact ⟨rfl, rfl⟩
  · obtain ⟨target, redirected, htarget, hredirected, hgood, hbad⟩ :=
      redirected_agrees h hlength hread name hinverse hcanonical
    rw [hkind]
    constructor
    · rintro (hyes | ⟨operation', hcode', hall⟩)
      · exact absurd hyes hconcrete
      -- the operation of the redirect is read off its code
      · obtain rfl : operation' = operation := Fin.ext (by omega)
        obtain ⟨hplane', hdatabase'⟩ := hgood (hall target redirected htarget hredirected)
        refine ⟨redirected, hplane', ?_⟩
        show (sector.redirected name probe.canonicalBoard operation' >>= _) = _
        rw [hdatabase']
        rfl
    · intro hnot
      have hnotConcrete : ¬ redirected.Concrete := by
        intro hyes
        refine hnot (.inr ⟨operation, hcode, ?_⟩)
        intro index other hindex' hother
        obtain rfl := Option.some.inj (htarget.symm.trans hindex')
        obtain rfl := Option.some.inj (hredirected.symm.trans hother)
        exact hyes
      obtain ⟨hplane', source, hdatabase'⟩ := hbad hnotConcrete
      refine ⟨hplane', source, ?_⟩
      show (sector.redirected name probe.canonicalBoard operation >>= _) = _
      rw [hdatabase']
      rfl
  · constructor
    · rintro (hyes | ⟨operation, hoperation, -⟩)
      · exact absurd hyes hconcrete
      · exact absurd hoperation (hcode operation)
    · intro _
      rw [hkind]
      exact ⟨rfl, e, rfl⟩

end Slot

/-! ## Queries -/

/-- A query for a settled position of the sector, that the variant supports. -/
structure InSector (variant : DatabaseVariant) (query : PerfectQuery) (id : SectorId)
    (board : Nat) : Prop where
  supports : variant.Supports query
  settled : query.onlyStoneTaking = false
  sector : query.sectorAndBoard = some (id, board)

/-- The database after some queries. -/
def Database.after (db : Database) (queries : List PerfectQuery) : Database :=
  Run.last (fun db query => (db.evaluateRaw query).2) db queries

/-- The cache of planes after some calls. -/
def PlaneCache.after (cache : PlaneCache) (calls : List PlaneCall) : PlaneCache :=
  Run.last PlaneCache.called cache calls

variable {query : PerfectQuery}

theorem InSector.boardOf (h : InSector variant query id board) :
    BoardOf id.whiteOnBoard id.blackOnBoard board := by
  obtain ⟨-, rfl, rfl⟩ := (query.sectorAndBoard_eq_some_iff id board).1 h.sector
  exact query.boardOf_foldedBoard

theorem SectorData.hasherOk (h : SectorData provider variant secVals id hasher value bytes) :
    HasherOk id.whiteOnBoard id.blackOnBoard hasher := by
  have hfits := h.fits
  obtain ⟨hasher', hnew, hok⟩ :=
    new_eq_some (show id.whiteOnBoard + id.blackOnBoard ≤ 24 by omega)
  rwa [Option.some.inj (hnew.symm.trans h.hasher)] at hok

theorem Database.evaluateRaw_eq {db : Database} {file : SectorFile}
    (hdb : Database.Sound provider variant secVals db)
    (hdata : SectorData provider variant secVals id hasher value bytes)
    (hopen : SectorFile.openReader bytes hasher.hashCount = .ok file)
    (hquery : InSector variant query id board) :
    (db.evaluateRaw query).1 = (LoadedSector.evaluateRaw ⟨value, hasher, file⟩
      (variant.sectorFileName id) board).map some := by
  obtain ⟨db', hload⟩ := hdb.loadSector_eq hdata hopen
  have hsupports : ¬ ¬ db.variant.Supports query := by
    rw [hdb.sameVariant]
    exact not_not.2 hquery.supports
  have hafter : db'.variant = variant :=
    (hdb.loadSector hdata.fits hload).1.sameVariant
  unfold Database.evaluateRaw
  rw [if_neg hsupports, hquery.settled, if_neg Bool.false_ne_true, hquery.sector]
  dsimp only
  rw [hload]
  dsimp only
  rw [hafter]

theorem PlaneCache.wdlForQuery_eq {cache : PlaneCache} {plane : WdlPlane}
    (hcache : PlaneCache.Sound (IsPlane provider variant secVals) provider variant secVals cache)
    (hdata : SectorData provider variant secVals id hasher value bytes)
    (hbuild : WdlPlane.build bytes hasher value secVals = .ok plane)
    (hquery : InSector variant query id board) (hprobe : hasher.hashProbe board = some probe)
    (written : Option Nat) :
    (cache.wdlForQuery query written).1 = (orPanic (plane.wdlAt probe.index)).map some := by
  obtain ⟨withHasher, hhasher⟩ := PlaneCache.Sound.hasherFor_new cache hdata.hasher
  obtain ⟨hsound, -, -⟩ := hcache.hasherFor hhasher
  obtain ⟨cache', hplane⟩ : ∃ cache', withHasher.planeFor id written = .ok (plane, cache') :=
    hsound.planeFor_eq hdata hbuild
  unfold PlaneCache.wdlForQuery
  rw [hquery.settled, if_neg Bool.false_ne_true, hquery.sector]
  dsimp only
  rw [hhasher]
  dsimp only
  rw [hprobe]
  dsimp only
  rw [hplane]

theorem toOutcome_wdl (raw : RawEval) (value : Int) (secVals : SecValTable) :
    (DatabaseEval.toOutcome ⟨raw, value⟩ secVals).wdl = WdlPlane.wdlOf secVals value raw := by
  unfold DatabaseEval.toOutcome DatabaseEval.absoluteKey1 WdlPlane.wdlOf
  dsimp only
  split
  · rfl
  · split
    · rfl
    · rfl

/-- A plane of the sector, when it is built, answers as the database does, and the build returns
an error where the database reports one in the file. -/
structure PlanesAgree (provider : DatabaseProvider) (variant : DatabaseVariant)
    (secVals : SecValTable) (id : SectorId) (hasher : PerfectHasher) (value : Int)
    (bytes : List Byte) (sectorCapacity planeCapacity : Option Nat)
    (cacheDir : Option (SectorId → Option (List Byte))) : Prop where
  same : ∀ plane, WdlPlane.build bytes hasher value secVals = .ok plane →
    ∀ query board, InSector variant query id board → ∀ queries calls written, ∃ outcome,
      (((Database.opened provider variant sectorCapacity secVals).after
        queries).evaluateOutcome query).1 = .ok (some outcome)
      ∧ (((PlaneCache.opened provider variant secVals planeCapacity cacheDir).after
        calls).wdlForQuery query written).1 = .ok (some outcome.wdl)
  refused : ∀ query board, InSector variant query id board → ∀ queries source,
    (((Database.opened provider variant sectorCapacity secVals).after queries).evaluateRaw query).1
        = .error (.error (.parse (variant.sectorFileName id) source)) →
      ∃ e, WdlPlane.build bytes hasher value secVals = .error (.error e)

/-- **The planes agree with the database, and are refused with an error where it reports one,
exactly when no slot that a query probes is a redirect to another one or a redirect by an
operation that does not exist.** The directory of the cache holds planes of this database. -/
theorem planes_agree_iff (hdata : SectorData provider variant secVals id hasher value bytes)
    {sectorCapacity planeCapacity : Option Nat} {cacheDir : Option (SectorId → Option (List Byte))}
    (hsectors : ∀ c ∈ sectorCapacity, 0 < c) (hplanes : ∀ c ∈ planeCapacity, 0 < c)
    (hdir : ∀ id plane,
      (PlaneCache.opened provider variant secVals planeCapacity cacheDir).savedPlane id
        = some plane →
      IsPlane provider variant secVals id plane) :
    PlanesAgree provider variant secVals id hasher value bytes sectorCapacity planeCapacity cacheDir
      ↔ ∀ rawEvals, decodeAllFromBytes bytes hasher.hashCount = .ok rawEvals →
        ∀ query board probe, InSector variant query id board →
          hasher.hashProbe board = some probe → LeadsToValue hasher rawEvals probe := by
  have hok := hdata.hasherOk
  have hdb : ∀ queries, Database.Sound provider variant secVals
      ((Database.opened provider variant sectorCapacity secVals).after queries) := by
    intro queries
    have hinit : Database.Sound provider variant secVals
        (Database.opened provider variant sectorCapacity secVals) :=
      ⟨rfl, rfl, rfl, hsectors, LoadCache.ordered_empty,
        fun id sector hentry => (List.not_mem_nil hentry).elim⟩
    exact hinit.run queries
  have hcache : ∀ calls, PlaneCache.Sound (IsPlane provider variant secVals) provider
      variant secVals
      ((PlaneCache.opened provider variant secVals planeCapacity cacheDir).after calls) := by
    intro calls
    have hinit : PlaneCache.Sound (IsPlane provider variant secVals) provider variant secVals
        (PlaneCache.opened provider variant secVals planeCapacity cacheDir) :=
      ⟨rfl, rfl, rfl, hplanes, LoadCache.ordered_empty,
        fun id plane hentry => (List.not_mem_nil hentry).elim, hdir⟩
    exact hinit.run (fun _ _ hplane => hplane) calls
  rcases WdlPlane.build_cases bytes hasher value secVals with
    ⟨e, hdecode, hbuild⟩ | ⟨rawEvals, hdecode, hdecoded, hbuilt⟩
  · -- nothing is accepted, and the build returns an error
    constructor
    · intro _ rawEvals hrawEvals
      rw [hdecode] at hrawEvals
      cases hrawEvals
    · intro _
      refine ⟨fun plane hplane => ?_, fun query board hquery queries source hsource => ⟨e, hbuild⟩⟩
      rw [hbuild] at hplane
      cases hplane
  · obtain ⟨file, hopen, hread⟩ := hdecoded.opened
    have hslot : ∀ query board, InSector variant query id board → ∃ probe,
        Probed hasher board probe := fun query board hquery => exists_probed hok hquery.boardOf
    constructor
    · rintro ⟨-, herrors⟩ rawEvals' hrawEvals query board probe hquery hprobe
      obtain rfl := Except.ok.inj (hdecode.symm.trans hrawEvals)
      obtain ⟨probe', hp⟩ := hslot query board hquery
      obtain rfl := Option.some.inj (hp.result.symm.trans hprobe)
      by_contra hnot
      obtain ⟨-, hbad⟩ := @slot_agrees _ _ _ ⟨value, hasher, file⟩ _ _ hok hdecoded.length hread
        (variant.sectorFileName id) hquery.boardOf hp
      obtain ⟨-, source, hsource⟩ := hbad hnot
      obtain ⟨e, he⟩ := herrors query board hquery [] source (by
        rw [Database.evaluateRaw_eq (hdb []) hdata hopen hquery, hsource]
        rfl)
      rcases hbuilt with ⟨plane, hplane, -⟩ | ⟨hpanic, -⟩
      · rw [hplane] at he
        cases he
      · rw [hpanic] at he
        cases he
    · intro hleads
      constructor
      · intro plane hplane query board hquery queries calls written
        obtain ⟨probe, hp⟩ := hslot query board hquery
        obtain ⟨hgood, -⟩ := @slot_agrees _ _ _ ⟨value, hasher, file⟩ _ _ hok hdecoded.length hread
          (variant.sectorFileName id) hquery.boardOf hp
        obtain ⟨raw, hresolve, hevaluate⟩ :=
          hgood (hleads rawEvals hdecode query board probe hquery hp.result)
        rcases hbuilt with ⟨built, hbuild, -, -, hslots⟩ | ⟨hpanic, -⟩
        · obtain rfl := Except.ok.inj (hbuild.symm.trans hplane)
          obtain ⟨raw', hresolve', hwdl⟩ := hslots probe.index (hp.index_lt hok)
          obtain rfl := Option.some.inj (hresolve.symm.trans hresolve')
          refine ⟨DatabaseEval.toOutcome ⟨raw, value⟩ secVals, ?_, ?_⟩
          · unfold Database.evaluateOutcome
            dsimp only
            rw [Database.evaluateRaw_eq (hdb queries) hdata hopen hquery, hevaluate,
              (hdb queries).sameSecVals]
            rfl
          · rw [PlaneCache.wdlForQuery_eq (hcache calls) hdata hplane hquery hp.result, hwdl,
              toOutcome_wdl]
            rfl
        · rw [hpanic] at hplane
          cases hplane
      · intro query board hquery queries source hsource
        obtain ⟨probe, hp⟩ := hslot query board hquery
        obtain ⟨hgood, -⟩ := @slot_agrees _ _ _ ⟨value, hasher, file⟩ _ _ hok hdecoded.length hread
          (variant.sectorFileName id) hquery.boardOf hp
        obtain ⟨raw, -, hevaluate⟩ :=
          hgood (hleads rawEvals hdecode query board probe hquery hp.result)
        rw [Database.evaluateRaw_eq (hdb queries) hdata hopen hquery, hevaluate] at hsource
        cases hsource

def firstValues : SecValTable := ⟨-299, 299, fun _ => some 21⟩

theorem oneSlot_data (slot : List Byte) : ∃ hasher,
    SectorData ⟨fun _ => .ok (oneSlot slot)⟩ .standard firstValues ⟨0, 0, 9, 9⟩ hasher 21
      (oneSlot slot) := by
  obtain ⟨hasher, hnew, -⟩ := new_eq_some (show 0 + 0 ≤ 24 by omega)
  exact ⟨hasher, ⟨by decide, hnew, rfl, rfl⟩⟩

/-! ## One black stone -/

section OneStone

variable {board : Nat} {probe : HashProbe}

/-- The boards of a sector with one stone, which is black. -/
theorem oneStone_board (h : BoardOf 0 1 board) : ∃ i : Fin 24, board = 2 ^ (24 + i.val) := by
  have hwhite : whiteHalf board = 0 := by
    have hpop := h.white
    rw [countOnes_eq_popcount ((whiteHalf_lt board).trans (by decide))] at hpop
    have hnil : (whiteHalf board).bitIndices = [] := List.length_eq_zero_iff.1 hpop
    rw [← Nat.sum_map_two_pow_bitIndices (whiteHalf board), hnil]
    rfl
  obtain ⟨i, hi⟩ : ∃ i, blackHalf board = 2 ^ i := by
    have hpop := h.black
    rw [countOnes_eq_popcount ((blackHalf_lt board).trans (by decide))] at hpop
    obtain ⟨i, hone⟩ := List.length_eq_one_iff.1 hpop
    refine ⟨i, ?_⟩
    rw [← Nat.sum_map_two_pow_bitIndices (blackHalf board), hone]
    simp
  have hlt : i < 24 := (Nat.pow_lt_pow_iff_right (by decide)).1 (hi ▸ blackHalf_lt board)
  have hboard := h.lt
  rw [whiteHalf_eq_mod] at hwhite
  rw [blackHalf_eq_mod] at hi
  refine ⟨⟨i, hlt⟩, ?_⟩
  dsimp only
  rw [Nat.pow_add]
  omega

/-- The first operation moves every stone, so a redirect by it leads to another slot. -/
theorem oneStone_redirect {hasher : PerfectHasher} {index : Nat}
    (hdata : PerfectHasher.new 0 1 = some hasher) (hok : HasherOk 0 1 hasher)
    (hboard : BoardOf 0 1 board) (hp : Probed hasher board probe)
    (hindex : hasher.directHashIndex (transform48 0 probe.canonicalBoard) = some index) :
    index ≠ probe.index := by
  have hcanonical := hp.canonical_board hboard
  have himage := hcanonical.transform 0
  obtain ⟨i, hi⟩ := oneStone_board himage
  have hseed : SeedBoard 0 1 (transform48 0 probe.canonicalBoard) := by
    refine ⟨himage, ?_⟩
    have hzero : ∀ i : Fin 24, whiteHalf (2 ^ (24 + i.val)) = 0 := by decide +kernel
    rw [hi, hzero i]
    exact fun op => Nat.zero_le _
  obtain ⟨index', hindex', -, hstored⟩ := directHashIndex_eq_some hdata hok hseed
  obtain rfl := Option.some.inj (hindex.symm.trans hindex')
  rintro rfl
  have hfixed := Option.some.inj (hstored.symm.trans (Probed.inverseBoard hok hboard hp))
  obtain ⟨j, hj⟩ := oneStone_board hcanonical
  have hmoved : ∀ j : Fin 24, transform48 0 (2 ^ (24 + j.val)) ≠ 2 ^ (24 + j.val) := by
    decide +kernel
  rw [hj] at hfixed
  exact hmoved j hfixed

end OneStone

/-- Wins, but for a first slot that redirects to the place where a quarter turn takes the stone. -/
def oneStoneFile : List Byte :=
  encode 4 2 ++ encode 4 3 ++ encode 4 12 ++ List.replicate 52 0 ++ [0x00, 0xF0, 0xFF]
    ++ (List.replicate 23 [0x16, 0x11, 0x00]).flatten ++ encode 4 0

/-- A redirect to a slot that holds a win agrees. -/
theorem planes_agree_oneStone : ∃ hasher,
    PlanesAgree ⟨fun _ => .ok oneStoneFile⟩ .standard firstValues ⟨0, 1, 9, 8⟩ hasher 21
      oneStoneFile
      (some 4) (some 4) none := by
  obtain ⟨hasher, hnew, hok⟩ := new_eq_some (show 0 + 1 ≤ 24 by omega)
  have hdata : SectorData ⟨fun _ => .ok oneStoneFile⟩ .standard firstValues ⟨0, 1, 9, 8⟩ hasher 21
      oneStoneFile := ⟨by decide, hnew, rfl, rfl⟩
  -- the sector has 24 slots: one orbit of the white stone times the places of no other
  have hcount : hasher.hashCount = 24 := by
    obtain ⟨orbitIndex, htables⟩ := hok.tables
    obtain ⟨entry, hentry⟩ := hok.total 0 (by decide) (by decide)
    obtain ⟨-, seed, hseed, -, -⟩ := htables.entry 0 entry hentry
    have hsome : 0 < hasher.whiteInverse.length :=
      Nat.zero_lt_of_lt (List.getElem?_eq_some_iff.1 hseed).1
    have hone : hasher.whiteInverse.length ≤ 1 := htables.length_le_choose
    have hpositions : hasher.positionsPerWhite = 24 := by
      rw [hok.positions, hok.blackInverse, length_combinationMasks (by omega)]
      decide
    unfold PerfectHasher.hashCount
    rw [hpositions, show hasher.whiteInverse.length = 1 by omega]
  have hdecode : decodeAllFromBytes oneStoneFile 24
      = .ok (⟨0, -1⟩ :: List.replicate 23 ⟨278, 1⟩) := by
    decide +kernel
  refine ⟨hasher, (planes_agree_iff hdata ?_ ?_ ?_).2 ?_⟩
  · intro c hc
    obtain rfl := Option.some.inj hc
    decide
  · intro c hc
    obtain rfl := Option.some.inj hc
    decide
  · intro id plane hsaved
    cases hsaved
  · intro rawEvals hrawEvals query board probe hquery hprobe raw hraw
    rw [hcount] at hrawEvals
    obtain rfl := Except.ok.inj (hrawEvals.symm.trans hdecode)
    -- every slot but the first holds a value, and the redirect does not lead back to the first
    have hwin : ∀ {index : Nat} {raw : RawEval}, index ≠ 0 →
        (⟨0, -1⟩ :: List.replicate 23 ⟨278, 1⟩)[index]? = some raw → raw.Concrete := by
      intro index raw hne hraw
      obtain ⟨later, rfl⟩ := Nat.exists_eq_succ_of_ne_zero hne
      obtain rfl := List.eq_of_mem_replicate (List.mem_of_getElem? hraw)
      exact .inl (by decide)
    by_cases hfirst : probe.index = 0
    · rw [hfirst] at hraw
      obtain rfl := Option.some.inj hraw
      refine .inr ⟨0, rfl, ?_⟩
      intro index redirected hindex hredirected
      obtain ⟨probe', hp⟩ := exists_probed hok hquery.boardOf
      obtain rfl := Option.some.inj (hp.result.symm.trans hprobe)
      refine hwin ?_ hredirected
      rw [← hfirst]
      exact oneStone_redirect hnew hok hquery.boardOf hp hindex
    · exact .inl (hwin hfirst hraw)

def emptyBoard : PerfectQuery :=
  ⟨0, 0, 9, 9, 0, false, by decide, by decide, by decide, by decide, by decide, by decide⟩

/-- The only slot redirects to itself: the database reports it, and the build panics. -/
theorem planes_disagree_chained : ∃ hasher,
    SectorData ⟨fun _ => .ok (oneSlot [0x00, 0xF0, 0xFF])⟩ .standard firstValues ⟨0, 0, 9, 9⟩ hasher
      21 (oneSlot [0x00, 0xF0, 0xFF])
    ∧ ((Database.opened ⟨fun _ => .ok (oneSlot [0x00, 0xF0, 0xFF])⟩ .standard none
        firstValues).evaluateRaw emptyBoard).1
      = .error (.error (.parse "std_0_0_9_9.sec2" doubleRedirect))
    ∧ WdlPlane.build (oneSlot [0x00, 0xF0, 0xFF]) hasher 21 firstValues = .error .panic := by
  obtain ⟨hasher, hdata⟩ := oneSlot_data [0x00, 0xF0, 0xFF]
  have hbuild : ((PerfectHasher.new 0 0).map fun h =>
      WdlPlane.build (oneSlot [0x00, 0xF0, 0xFF]) h 21 firstValues) = some (.error .panic) := by
    decide +kernel
  refine ⟨hasher, hdata, by decide +kernel, ?_⟩
  rw [hdata.hasher] at hbuild
  exact Option.some.inj hbuild

end Sanmill.PerfectDb
