import Sanmill.Lib.Run
import Sanmill.Proof.PerfectDb.CanonicalKey
import Sanmill.Proof.PerfectDb.WdlPlane

/-!
# What the caches hold

Whatever was asked before, a cached plane is the one that `build` makes of the file of its
sector, and a cached sector is the one that `open` makes of it.
-/

namespace Sanmill.PerfectDb

open LittleEndian

/-! ## Files of planes -/

namespace WdlPlane

variable {plane : WdlPlane}

theorem length_toBytes (h : plane.Shaped) :
    plane.toBytes.length = planeHeaderLen + packedLen plane.hashCount := by
  unfold toBytes planeMagic planeHeaderLen
  simp only [List.length_append, List.length_cons, List.length_nil, length_encode]
  rw [h]
  omega

/-- **What is read of a plane that was written, as far as it was written, is the plane.** -/
theorem fromBytes?_take (h : plane.Shaped) (hcount : plane.hashCount < 2 ^ 64) {length : Nat}
    {read : WdlPlane} (hread : fromBytes? (plane.toBytes.take length) = some read) :
    read = plane := by
  unfold fromBytes? at hread
  split at hread
  · cases hread
  · rename_i hheader
    rw [not_or, Nat.not_lt] at hheader
    split at hread
    · cases hread
    · dsimp only at hread
      split at hread
      · cases hread
      · rename_i hlength
        rw [not_not] at hlength
        have hlong : planeHeaderLen ≤ length := by
          have hle := hheader.1
          rw [List.length_take] at hle
          omega
        have hfield : ((plane.toBytes.take length).drop 5).take 8 = encode 8 plane.hashCount := by
          unfold planeHeaderLen at hlong
          rw [List.drop_take, List.take_take, Nat.min_eq_left (by omega)]
          show (encode 8 plane.hashCount ++ plane.bits).take 8 = _
          exact List.take_left' (length_encode 8 plane.hashCount)
        have hdecoded : decode (((plane.toBytes.take length).drop 5).take 8) = plane.hashCount := by
          rw [hfield, decode_encode hcount]
        -- the length tells that nothing is missing
        have hwhole : plane.toBytes.take length = plane.toBytes := by
          rw [hdecoded, ← length_toBytes h, List.length_take] at hlength
          exact List.take_of_length_le (by omega)
        have hbits : (plane.toBytes.take length).drop planeHeaderLen = plane.bits := by
          rw [hwhole]
          show (encode 8 plane.hashCount ++ plane.bits).drop 8 = _
          exact List.drop_left' (length_encode 8 plane.hashCount)
        rw [← Option.some.inj hread, hdecoded, hbits]

end WdlPlane

/-! ## Sectors -/

/-- The hasher, the value and the file of a sector. -/
structure SectorData (provider : DatabaseProvider) (variant : DatabaseVariant)
    (secVals : SecValTable) (id : SectorId) (hasher : PerfectHasher) (value : Int)
    (bytes : List Byte) : Prop where
  fits : id.whiteOnBoard ≤ 12 ∧ id.blackOnBoard ≤ 12
  hasher : PerfectHasher.new id.whiteOnBoard id.blackOnBoard = some hasher
  value : secVals.value id = some value
  bytes : provider.read (variant.sectorFileName id) = .ok bytes

variable {provider : DatabaseProvider} {variant : DatabaseVariant} {secVals : SecValTable}
  {id : SectorId} {hasher hasher' : PerfectHasher} {value value' : Int} {bytes bytes' : List Byte}

theorem SectorData.unique (h : SectorData provider variant secVals id hasher value bytes)
    (h' : SectorData provider variant secVals id hasher' value' bytes') :
    hasher' = hasher ∧ value' = value ∧ bytes' = bytes :=
  ⟨Option.some.inj (h'.hasher.symm.trans h.hasher), Option.some.inj (h'.value.symm.trans h.value),
    Except.ok.inj (h'.bytes.symm.trans h.bytes)⟩

/-- A plane that `build` makes. -/
def IsPlane (provider : DatabaseProvider) (variant : DatabaseVariant) (secVals : SecValTable)
    (id : SectorId) (plane : WdlPlane) : Prop :=
  ∃ hasher value bytes, SectorData provider variant secVals id hasher value bytes
    ∧ WdlPlane.build bytes hasher value secVals = .ok plane

theorem IsPlane.shaped {plane : WdlPlane} (h : IsPlane provider variant secVals id plane) :
    plane.Shaped ∧ plane.hashCount < 2 ^ 64 := by
  obtain ⟨hasher, value, bytes, hdata, hbuild⟩ := h
  obtain ⟨hasher', hnew, hok⟩ := new_eq_some (show id.whiteOnBoard + id.blackOnBoard ≤ 24 by
    have hfits := hdata.fits
    omega)
  obtain rfl := Option.some.inj (hnew.symm.trans hdata.hasher)
  have hcount := hashCount_lt hok hdata.fits.1 hdata.fits.2
  rcases WdlPlane.build_cases bytes hasher' value secVals with
    ⟨e, -, herror⟩ | ⟨rawEvals, -, -, ⟨built, hbuilt, hshaped, heq, -⟩ | ⟨hpanic, -⟩⟩
  · rw [hbuild] at herror
    cases herror
  · rw [hbuild] at hbuilt
    obtain rfl := Except.ok.inj hbuilt
    rw [heq]
    exact ⟨hshaped, by omega⟩
  · rw [hbuild] at hpanic
    cases hpanic

/-- A sector that `open` makes. -/
def IsSector (provider : DatabaseProvider) (variant : DatabaseVariant) (secVals : SecValTable)
    (id : SectorId) (sector : LoadedSector) : Prop :=
  ∃ bytes, SectorData provider variant secVals id sector.hasher sector.value bytes
    ∧ SectorFile.openReader bytes sector.hasher.hashCount = .ok sector.file

theorem orPanic_eq_ok {ε α : Type} {result : Option α} {a : α} :
    (orPanic result : Except (Fault ε) α) = .ok a ↔ result = some a := by
  cases result with
  | none =>
    constructor
    · intro h
      cases h
    · intro h
      cases h
  | some b =>
    constructor
    · intro h
      rw [Except.ok.inj h]
    · intro h
      rw [Option.some.inj h]
      rfl

theorem mapError_eq_ok {ε ε' α : Type} {f : ε → ε'} {result : Except ε α} {a : α} :
    result.mapError f = .ok a ↔ result = .ok a := by
  cases result with
  | error e =>
    constructor
    · intro h
      cases h
    · intro h
      cases h
  | ok b =>
    constructor
    · intro h
      rw [Except.ok.inj h]
    · intro h
      rw [Except.ok.inj h]
      rfl

theorem valueOf_eq_ok : secVals.valueOf id = .ok value ↔ secVals.value id = some value := by
  unfold SecValTable.valueOf
  cases secVals.value id with
  | none =>
    constructor
    · intro h
      cases h
    · intro h
      cases h
  | some v =>
    constructor
    · intro h
      rw [Except.ok.inj h]
    · intro h
      rw [Option.some.inj h]

/-! ## The cache of planes -/

/-- Every plane of the cache, in memory or in its directory, is good for its sector. -/
structure PlaneCache.Sound (Good : SectorId → WdlPlane → Prop) (provider : DatabaseProvider)
    (variant : DatabaseVariant) (secVals : SecValTable) (cache : PlaneCache) : Prop where
  sameProvider : cache.provider = provider
  sameVariant : cache.variant = variant
  sameSecVals : cache.secVals = secVals
  capacity : ∀ c ∈ cache.planeCacheCapacity, 0 < c
  ordered : cache.planes.Ordered
  planes : ∀ id plane, (id, plane) ∈ cache.planes.entries → Good id plane
  saved : ∀ id plane, cache.savedPlane id = some plane → Good id plane

namespace PlaneCache.Sound

variable {Good : SectorId → WdlPlane → Prop} {cache cache' : PlaneCache} {plane : WdlPlane}
  {written : Option Nat}

theorem withHashers (h : Sound Good provider variant secVals cache) (hashers : WdlPlaneCache) :
    Sound Good provider variant secVals { cache with hashers } :=
  ⟨h.sameProvider, h.sameVariant, h.sameSecVals, h.capacity, h.ordered, h.planes, h.saved⟩

theorem hasherFor (h : Sound Good provider variant secVals cache)
    (hhasher : cache.hasherFor id = some (hasher, cache')) :
    Sound Good provider variant secVals cache' ∧ cache'.planes = cache.planes
      ∧ cache'.cacheDir = cache.cacheDir := by
  obtain ⟨⟨found, hashers⟩, -, hpair⟩ := Option.map_eq_some_iff.1 hhasher
  cases hpair
  exact ⟨h.withHashers hashers, rfl, rfl⟩

theorem hasherFor_new (cache : PlaneCache)
    (hnew : PerfectHasher.new id.whiteOnBoard id.blackOnBoard = some hasher) :
    ∃ cache', cache.hasherFor id = some (hasher, cache') := by
  obtain ⟨hashers, hhashers⟩ := cache.hashers.hasherFor_eq_some hnew
  refine ⟨{ cache with hashers }, ?_⟩
  unfold PlaneCache.hasherFor
  rw [hhashers]
  rfl

/-- A cache hands out the hasher of the sector. -/
theorem hasherFor_unique (hhasher : cache.hasherFor id = some (hasher, cache')) :
    PerfectHasher.new id.whiteOnBoard id.blackOnBoard = some hasher := by
  obtain ⟨⟨found, hashers⟩, hfound, hpair⟩ := Option.map_eq_some_iff.1 hhasher
  cases hpair
  unfold WdlPlaneCache.hasherFor at hfound
  split at hfound
  · rename_i stored hstored
    cases hfound
    exact cache.hashers.built id _ hstored
  · split at hfound
    · cases hfound
    · rename_i fresh hfresh
      cases hfound
      exact hfresh

theorem save (h : Sound Good provider variant secVals cache)
    (hplane : IsPlane provider variant secVals id plane) (hgood : Good id plane) :
    Sound Good provider variant secVals (cache.save id plane written) := by
  cases written with
  | none => exact h
  | some length =>
    refine ⟨h.sameProvider, h.sameVariant, h.sameSecVals, h.capacity, h.ordered, h.planes, ?_⟩
    intro other read hsaved
    obtain ⟨files, hfiles, hfile⟩ := Option.bind_eq_some_iff.1 hsaved
    obtain ⟨old, hold, rfl⟩ := Option.map_eq_some_iff.1 hfiles
    obtain ⟨content, hcontent, hread⟩ := Option.bind_eq_some_iff.1 hfile
    by_cases hother : other = id
    · subst hother
      rw [Function.update_self] at hcontent
      obtain rfl := Option.some.inj hcontent
      obtain ⟨hshaped, hcount⟩ := hplane.shaped
      rw [WdlPlane.fromBytes?_take hshaped hcount hread]
      exact hgood
    · rw [Function.update_of_ne hother] at hcontent
      refine h.saved other read ?_
      exact Option.bind_eq_some_iff.2
        ⟨old, hold, Option.bind_eq_some_iff.2 ⟨content, hcontent, hread⟩⟩

theorem loadOrBuildPlane (h : Sound Good provider variant secVals cache)
    (hgood : ∀ id plane, IsPlane provider variant secVals id plane → Good id plane)
    (hfits : id.whiteOnBoard ≤ 12 ∧ id.blackOnBoard ≤ 12)
    (hload : cache.loadOrBuildPlane id written = .ok (plane, cache')) :
    Sound Good provider variant secVals cache' ∧ cache'.planes = cache.planes
      ∧ Good id plane := by
  unfold PlaneCache.loadOrBuildPlane at hload
  split at hload
  · rename_i saved hsaved
    cases hload
    exact ⟨h, rfl, h.saved id plane hsaved⟩
  · obtain ⟨value, hvalue, hread⟩ := Except.bind_ok_iff.1 hload
    obtain ⟨bytes, hbytes, hhash⟩ := Except.bind_ok_iff.1 hread
    obtain ⟨⟨hasher, withHasher⟩, hhasher, hbuild⟩ := Except.bind_ok_iff.1 hhash
    obtain ⟨built, hbuilt, hsave⟩ := Except.bind_ok_iff.1 hbuild
    cases hsave
    rw [valueOf_eq_ok, h.sameSecVals] at hvalue
    rw [mapError_eq_ok, h.sameProvider, h.sameVariant] at hbytes
    rw [orPanic_eq_ok] at hhasher
    obtain ⟨hsound, hplanes, -⟩ := h.hasherFor hhasher
    rw [mapError_eq_ok, hsound.sameSecVals] at hbuilt
    have hplane : IsPlane provider variant secVals id plane :=
      ⟨hasher, value, bytes, ⟨hfits, hasherFor_unique hhasher, hvalue, hbytes⟩, hbuilt⟩
    refine ⟨hsound.save hplane (hgood id plane hplane), ?_, hgood id plane hplane⟩
    rw [← hplanes]
    cases written with
    | none => rfl
    | some length => rfl

/-- **A plane that the cache hands out is good for the sector.** -/
theorem planeFor (h : Sound Good provider variant secVals cache)
    (hgood : ∀ id plane, IsPlane provider variant secVals id plane → Good id plane)
    (hfits : id.whiteOnBoard ≤ 12 ∧ id.blackOnBoard ≤ 12)
    (hplane : cache.planeFor id written = .ok (plane, cache')) :
    Sound Good provider variant secVals cache' ∧ Good id plane := by
  unfold PlaneCache.planeFor at hplane
  split at hplane
  · rename_i cached hcached
    cases hplane
    exact ⟨h, h.planes id plane (LoadCache.get?_eq_some hcached)⟩
  -- the plane is not cached: it is loaded, room is made, and it is found again
  · rename_i hmissing
    obtain ⟨⟨loaded, withPlane⟩, hload, hroom⟩ := Except.bind_ok_iff.1 hplane
    obtain ⟨planes, hinsert, hfind⟩ := Except.bind_ok_iff.1 hroom
    obtain ⟨got, hgot, hresult⟩ := Except.bind_ok_iff.1 hfind
    cases hresult
    rw [orPanic_eq_ok] at hinsert hgot
    obtain ⟨hsound, hsame, hloaded⟩ := h.loadOrBuildPlane hgood hfits hload
    have hnew : withPlane.planes.get? id = none := by
      rw [hsame]
      exact hmissing
    obtain ⟨inserted, hinserted, hordered, hget, hentries⟩ :=
      @LoadCache.insert_spec _ _ _ _ _ loaded _ hsound.capacity hsound.ordered hnew
    obtain rfl := Option.some.inj (hinserted.symm.trans hinsert)
    obtain rfl := Option.some.inj (hget.symm.trans hgot)
    refine ⟨⟨hsound.sameProvider, hsound.sameVariant, hsound.sameSecVals, hsound.capacity, hordered,
      ?_, hsound.saved⟩, hloaded⟩
    intro other plane hentry
    rcases hentries _ hentry with heq | hold
    · cases heq
      exact hloaded
    · exact hsound.planes other plane hold

/-- A plane that can be built is handed out. -/
theorem planeFor_eq (h : Sound (IsPlane provider variant secVals) provider variant secVals cache)
    (hdata : SectorData provider variant secVals id hasher value bytes)
    (hbuild : WdlPlane.build bytes hasher value secVals = .ok plane) :
    ∃ cache', cache.planeFor id written = .ok (plane, cache') := by
  -- whatever the cache or the directory holds for the sector is this plane
  have hunique : ∀ other, IsPlane provider variant secVals id other → other = plane := by
    rintro other ⟨hasher', value', bytes', hdata', hbuild'⟩
    obtain ⟨rfl, rfl, rfl⟩ := hdata.unique hdata'
    exact Except.ok.inj (hbuild'.symm.trans hbuild)
  have hloads : ∃ loaded, cache.loadOrBuildPlane id written = .ok (plane, loaded) := by
    unfold PlaneCache.loadOrBuildPlane
    cases hsaved : cache.savedPlane id with
    | some saved => exact ⟨cache, by rw [hunique saved (h.saved id saved hsaved)]⟩
    | none =>
      obtain ⟨withHasher, hhasher⟩ := hasherFor_new cache hdata.hasher
      obtain ⟨hsound, -, -⟩ := h.hasherFor hhasher
      refine ⟨withHasher.save id plane written, ?_⟩
      refine Except.bind_ok_iff.2 ⟨value, valueOf_eq_ok.2 (h.sameSecVals.symm ▸ hdata.value), ?_⟩
      refine Except.bind_ok_iff.2 ⟨bytes, mapError_eq_ok.2 ?_, ?_⟩
      · rw [h.sameProvider, h.sameVariant]
        exact hdata.bytes
      refine Except.bind_ok_iff.2 ⟨(hasher, withHasher), orPanic_eq_ok.2 hhasher, ?_⟩
      refine Except.bind_ok_iff.2 ⟨plane, mapError_eq_ok.2 ?_, rfl⟩
      rw [hsound.sameSecVals]
      exact hbuild
  unfold PlaneCache.planeFor
  cases hcached : cache.planes.get? id with
  | some cached =>
    exact ⟨cache, by rw [hunique cached (h.planes id cached (LoadCache.get?_eq_some hcached))]⟩
  | none =>
    obtain ⟨loaded, hload⟩ := hloads
    obtain ⟨hsound, hsame, -⟩ := h.loadOrBuildPlane (fun _ _ hplane => hplane) hdata.fits hload
    have hnew : loaded.planes.get? id = none := by
      rw [hsame]
      exact hcached
    obtain ⟨planes, hinserted, -, hget, -⟩ :=
      @LoadCache.insert_spec _ _ _ _ _ plane _ hsound.capacity hsound.ordered hnew
    refine ⟨{ loaded with planes }, ?_⟩
    refine Except.bind_ok_iff.2 ⟨(plane, loaded), hload, ?_⟩
    refine Except.bind_ok_iff.2 ⟨planes, orPanic_eq_ok.2 hinserted, ?_⟩
    exact Except.bind_ok_iff.2 ⟨plane, orPanic_eq_ok.2 hget, rfl⟩

theorem sector_fits {query : PerfectQuery} {board : Nat}
    (h : query.sectorAndBoard = some (id, board)) :
    id.whiteOnBoard ≤ 12 ∧ id.blackOnBoard ≤ 12 := by
  obtain ⟨hcounts, rfl, -⟩ := (query.sectorAndBoard_eq_some_iff id board).1 h
  have hle := sector_le hcounts
  exact ⟨hle.1, hle.2.1⟩

theorem unpacked_fits {key slot : Nat} (h : unpackCanonicalKey key = some (id, slot)) :
    id.whiteOnBoard ≤ 12 ∧ id.blackOnBoard ≤ 12 := by
  unfold unpackCanonicalKey at h
  obtain ⟨id', hid, hpair⟩ := Option.bind_eq_some_iff.1 h
  cases hpair
  obtain ⟨hle, rfl⟩ := (SectorId.new_eq_some_iff _ _ _ _ _).1 hid
  exact ⟨hle.1, hle.2.1⟩

/-- **A call keeps the cache sound.** -/
theorem called (h : Sound Good provider variant secVals cache)
    (hgood : ∀ id plane, IsPlane provider variant secVals id plane → Good id plane)
    (call : PlaneCall) :
    Sound Good provider variant secVals (cache.called call) := by
  -- a call that fails leaves the cache as it was, but for the hasher it may have built
  cases call with
  | wdlForQuery query written =>
    show Sound Good provider variant secVals (cache.wdlForQuery query written).2
    unfold PlaneCache.wdlForQuery
    split
    · exact h
    · split
      · exact h
      · rename_i id board hsector
        split
        · exact h
        · rename_i hasher withHasher hhasher
          obtain ⟨hsound, -, -⟩ := h.hasherFor hhasher
          split
          · exact hsound
          · split
            · rename_i plane withPlane hplane
              exact (hsound.planeFor hgood (sector_fits hsector) hplane).1
            · split
              · exact hsound
              · exact hsound
            · exact hsound
  | wdlByCanonicalKey key written =>
    show Sound Good provider variant secVals (cache.wdlByCanonicalKey key written).2
    unfold PlaneCache.wdlByCanonicalKey
    split
    · exact h
    · split
      · exact h
      · rename_i id slot hunpacked
        split
        · rename_i plane withPlane hplane
          exact (h.planeFor hgood (unpacked_fits hunpacked) hplane).1
        · split
          · exact h
          · exact h
        · exact h
  | canonicalKeyForQuery query =>
    show Sound Good provider variant secVals (cache.canonicalKeyForQuery query).2
    unfold PlaneCache.canonicalKeyForQuery
    split
    · exact h
    · exact h.withHashers _

theorem run (h : Sound Good provider variant secVals cache)
    (hgood : ∀ id plane, IsPlane provider variant secVals id plane → Good id plane)
    (calls : List PlaneCall) :
    Sound Good provider variant secVals (Run.last PlaneCache.called cache calls) :=
  Run.invariant (fun _ call hsound _ => hsound.called hgood call) h
    (Run.every_of_forall (fun _ _ => trivial) _ _)

end PlaneCache.Sound

/-! ## The cache of sectors -/

/-- Every sector of the cache is opened from its file. -/
structure Database.Sound (provider : DatabaseProvider) (variant : DatabaseVariant)
    (secVals : SecValTable) (db : Database) : Prop where
  sameProvider : db.provider = provider
  sameVariant : db.variant = variant
  sameSecVals : db.secVals = secVals
  capacity : ∀ c ∈ db.sectorCacheCapacity, 0 < c
  ordered : db.sectors.Ordered
  sectors : ∀ id sector, (id, sector) ∈ db.sectors.entries →
    IsSector provider variant secVals id sector

namespace Database.Sound

variable {db db' : Database} {sector : LoadedSector} {file : SectorFile}

theorem loadSector (h : Sound provider variant secVals db)
    (hfits : id.whiteOnBoard ≤ 12 ∧ id.blackOnBoard ≤ 12)
    (hload : db.loadSector id = .ok (sector, db')) :
    Sound provider variant secVals db' ∧ IsSector provider variant secVals id sector := by
  unfold Database.loadSector at hload
  split at hload
  · rename_i cached hcached
    cases hload
    exact ⟨h, h.sectors id sector (LoadCache.get?_eq_some hcached)⟩
  -- the sector is not cached: its value, its hasher and its file are what `IsSector` asks for
  · rename_i hmissing
    obtain ⟨value, hvalue, hhash⟩ := Except.bind_ok_iff.1 hload
    obtain ⟨hasher, hhasher, hread⟩ := Except.bind_ok_iff.1 hhash
    obtain ⟨bytes, hbytes, hopen⟩ := Except.bind_ok_iff.1 hread
    obtain ⟨file, hfile, hroom⟩ := Except.bind_ok_iff.1 hopen
    obtain ⟨sectors, hinsert, hresult⟩ := Except.bind_ok_iff.1 hroom
    cases hresult
    rw [valueOf_eq_ok, h.sameSecVals] at hvalue
    rw [orPanic_eq_ok] at hhasher hinsert
    rw [mapError_eq_ok, h.sameProvider, h.sameVariant] at hbytes
    unfold inSector at hfile
    rw [mapError_eq_ok] at hfile
    have hsector : IsSector provider variant secVals id ⟨value, hasher, file⟩ :=
      ⟨bytes, ⟨hfits, hhasher, hvalue, hbytes⟩, hfile⟩
    obtain ⟨inserted, hinserted, hordered, -, hentries⟩ :=
      @LoadCache.insert_spec _ _ _ _ _ ⟨value, hasher, file⟩ _ h.capacity h.ordered hmissing
    obtain rfl := Option.some.inj (hinserted.symm.trans hinsert)
    refine ⟨⟨h.sameProvider, h.sameVariant, h.sameSecVals, h.capacity, hordered, ?_⟩, hsector⟩
    intro other sector hentry
    rcases hentries _ hentry with heq | hold
    · cases heq
      exact hsector
    · exact h.sectors other sector hold

/-- A sector that can be opened is handed out. -/
theorem loadSector_eq (h : Sound provider variant secVals db)
    (hdata : SectorData provider variant secVals id hasher value bytes)
    (hopen : SectorFile.openReader bytes hasher.hashCount = .ok file) :
    ∃ db', db.loadSector id = .ok (⟨value, hasher, file⟩, db') := by
  unfold Database.loadSector
  cases hcached : db.sectors.get? id with
  | some cached =>
    obtain ⟨value', hasher', file'⟩ := cached
    obtain ⟨bytes', hdata', hopen'⟩ := h.sectors id _ (LoadCache.get?_eq_some hcached)
    obtain ⟨rfl, rfl, rfl⟩ := hdata.unique hdata'
    obtain rfl := Except.ok.inj (hopen'.symm.trans hopen)
    exact ⟨db, rfl⟩
  | none =>
    obtain ⟨sectors, hinserted, -⟩ :=
      @LoadCache.insert_spec _ _ _ _ _ ⟨value, hasher, file⟩ _ h.capacity h.ordered hcached
    refine ⟨{ db with sectors }, ?_⟩
    refine Except.bind_ok_iff.2 ⟨value, valueOf_eq_ok.2 (h.sameSecVals.symm ▸ hdata.value), ?_⟩
    refine Except.bind_ok_iff.2 ⟨hasher, orPanic_eq_ok.2 hdata.hasher, ?_⟩
    refine Except.bind_ok_iff.2 ⟨bytes, mapError_eq_ok.2 ?_, ?_⟩
    · rw [h.sameProvider, h.sameVariant]
      exact hdata.bytes
    refine Except.bind_ok_iff.2 ⟨file, mapError_eq_ok.2 hopen, ?_⟩
    exact Except.bind_ok_iff.2 ⟨sectors, orPanic_eq_ok.2 hinserted, rfl⟩

theorem evaluateRaw (h : Sound provider variant secVals db) (query : PerfectQuery) :
    Sound provider variant secVals (db.evaluateRaw query).2 := by
  unfold Database.evaluateRaw
  split
  · exact h
  · split
    · exact h
    · split
      · exact h
      · rename_i id board hsector
        split
        · exact h
        · rename_i sector loaded hload
          exact (h.loadSector (PlaneCache.Sound.sector_fits hsector) hload).1

theorem run (h : Sound provider variant secVals db) (queries : List PerfectQuery) :
    Sound provider variant secVals
      (Run.last (fun db query => (db.evaluateRaw query).2) db queries) :=
  Run.invariant (fun _ query hsound _ => hsound.evaluateRaw query) h
    (Run.every_of_forall (fun _ _ => trivial) _ _)

end Database.Sound

end Sanmill.PerfectDb
