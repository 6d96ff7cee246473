import Sanmill.PerfectDb.Database

/-!
# Planes of wins, draws and losses

A plane keeps two bits for each slot of a sector. It is built from the whole file, where a
redirect is followed from the board that the slot stands for. `WdlPlaneCache` builds planes on
demand and keeps them in memory, and as files where it has a directory for them.
-/

namespace Sanmill.PerfectDb

open LittleEndian

/-- Win, draw or loss of every slot of a sector, two bits each. -/
structure WdlPlane where
  hashCount : Nat
  bits : List Byte
deriving DecidableEq

namespace WdlPlane

/-- The first bytes of a plane, `SMWD`. -/
def planeMagic : List Byte := [0x53, 0x4D, 0x57, 0x44]

/-- The version that is written. -/
def planeVersion : Byte := 1

/-- The bytes before the slots. -/
def planeHeaderLen : Nat := 13

/-- `n.div_ceil(4)`. -/
def packedLen (hashCount : Nat) : Nat := (hashCount + 3) / 4

/-- `none` for the code that no `set` writes. -/
def wdlOfCode (code : Byte) : Option Int :=
  match code.toNat with
  | 0 => some (-1)
  | 1 => some 0
  | 2 => some 1
  | _ => none

/-- `none` also for an index out of range. -/
def wdlAt (plane : WdlPlane) (index : Nat) : Option Int :=
  if index < plane.hashCount then
    (plane.bits[index / 4]?).bind fun byte => wdlOfCode ((byte >>> (index % 4 * 2)) &&& 3)
  else none

/-- The two bits of a value. -/
def wdlCode (wdl : Int) : Option Byte :=
  if wdl = -1 then some 0 else if wdl = 0 then some 1 else if wdl = 1 then some 2 else none

/-- Writes the two bits of a slot and keeps the others of its byte. -/
def set (plane : WdlPlane) (index : Nat) (wdl : Int) : Option WdlPlane :=
  (wdlCode wdl).bind fun code =>
    (plane.bits[index / 4]?).map fun byte =>
      let shift := index % 4 * 2
      let cleared := byte &&& ~~~((3 : Byte) <<< shift)
      { plane with bits := plane.bits.set (index / 4) (cleared ||| (code <<< shift)) }

/-- The assertion that a redirect does not lead to another one; here and below `none` stands
for a panic. -/
def concrete (raw : RawEval) : Option RawEval :=
  match raw.tryKind with
  | .error _ => none
  | .ok (.symmetry _) => none
  | .ok _ => some raw

/-- The slot that a redirect leads to. -/
def redirected (hasher : PerfectHasher) (rawEvals : List RawEval) (index : Nat)
    (operation : SymmetryOp) : Option RawEval := do
  let board ← hasher.inverseBoard index
  let redirectedIndex ← hasher.directHashIndex (transform48 operation board)
  let raw ← rawEvals[redirectedIndex]?
  concrete raw

/-- The value at a slot, after at most one redirect. -/
def settled (hasher : PerfectHasher) (rawEvals : List RawEval) (index : Nat) (raw : RawEval) :
    Option RawEval :=
  match raw.tryKind with
  | .error _ => none
  | .ok (.symmetry operation) => redirected hasher rawEvals index operation
  | .ok _ => some raw

/-- The evaluation behind a slot. -/
def resolve (hasher : PerfectHasher) (rawEvals : List RawEval) (index : Nat) : Option RawEval :=
  (rawEvals[index]?).bind (settled hasher rawEvals index)

/-- Win, draw or loss of a raw value. -/
def wdlOf (secVals : SecValTable) (sectorValue : Int) (raw : RawEval) : Int :=
  let absolute := raw.key1 + sectorValue
  if absolute = secVals.virtWinVal then 1
  else if absolute = secVals.virtLossVal then -1
  else 0

/-- One round of the loop of `build`. -/
def buildStep (hasher : PerfectHasher) (rawEvals : List RawEval) (sectorValue : Int)
    (secVals : SecValTable) (plane : WdlPlane) (index : Nat) : Option WdlPlane :=
  (resolve hasher rawEvals index).bind fun raw => plane.set index (wdlOf secVals sectorValue raw)

/-- `build`: the plane of a sector file. -/
def build (bytes : List Byte) (hasher : PerfectHasher) (sectorValue : Int)
    (secVals : SecValTable) : Except (Fault ParseError) WdlPlane := do
  let hashCount := hasher.hashCount
  let rawEvals ← decodeAllFromBytes bytes hashCount
  orPanic ((List.range hashCount).foldlM (buildStep hasher rawEvals sectorValue secVals)
    ⟨hashCount, List.replicate (packedLen hashCount) 0⟩)

/-! ## Files -/

/-- The bytes of a plane as they are saved. -/
def toBytes (plane : WdlPlane) : List Byte :=
  planeMagic ++ planeVersion :: (encode 8 plane.hashCount ++ plane.bits)

/-- `none` where the source returns an error; its caller drops which. -/
def fromBytes? (bytes : List Byte) : Option WdlPlane :=
  if bytes.length < planeHeaderLen ∨ bytes.take 4 ≠ planeMagic then none
  else if bytes[4]? ≠ some planeVersion then none
  else
    let hashCount := decode ((bytes.drop 5).take 8)
    if bytes.length ≠ planeHeaderLen + packedLen hashCount then none
    else some ⟨hashCount, bytes.drop planeHeaderLen⟩

end WdlPlane

/-- `WdlPlaneCache` with its planes; the hashers are the part that the keys need. -/
structure PlaneCache where
  provider : DatabaseProvider
  variant : DatabaseVariant
  secVals : SecValTable
  planeCacheCapacity : Option Nat
  /-- The files of the cache directory, where there is one, by the sectors in their names. -/
  cacheDir : Option (SectorId → Option (List Byte))
  hashers : WdlPlaneCache
  planes : LoadCache SectorId WdlPlane

namespace PlaneCache

/-- A cache that has loaded nothing yet. -/
def opened (provider : DatabaseProvider) (variant : DatabaseVariant) (secVals : SecValTable)
    (planeCacheCapacity : Option Nat) (cacheDir : Option (SectorId → Option (List Byte))) :
    PlaneCache :=
  ⟨provider, variant, secVals, planeCacheCapacity, cacheDir, .new, .empty⟩

variable (cache : PlaneCache)

/-- The hasher of a sector, built once. -/
def hasherFor (id : SectorId) : Option (PerfectHasher × PlaneCache) :=
  (cache.hashers.hasherFor id).map fun (hasher, hashers) => (hasher, { cache with hashers })

/-- A plane in the cache directory that can be read. -/
def savedPlane (id : SectorId) : Option WdlPlane := do
  let files ← cache.cacheDir
  let bytes ← files id
  WdlPlane.fromBytes? bytes

/-- The plane is written: a failure is ignored, and leaves the file as it was or a part of the
new one. -/
def save (id : SectorId) (plane : WdlPlane) (written : Option Nat) : PlaneCache :=
  match written with
  | none => cache
  | some length =>
    { cache with
      cacheDir := cache.cacheDir.map fun files =>
        Function.update files id (some (plane.toBytes.take length)) }

/-- The plane of a sector: read from the directory, or built from the sector file. -/
def loadOrBuildPlane (id : SectorId) (written : Option Nat) :
    Except (Fault DatabaseError) (WdlPlane × PlaneCache) :=
  match cache.savedPlane id with
  | some plane => .ok (plane, cache)
  | none => do
    let sectorValue ← cache.secVals.valueOf id
    let name := cache.variant.sectorFileName id
    let bytes ← (cache.provider.read name).mapError .error
    let (hasher, cache) ← orPanic (cache.hasherFor id)
    let plane ← (WdlPlane.build bytes hasher sectorValue cache.secVals).mapError fun fault =>
      match fault with
      | .error source => .error (.parse name source)
      | .panic => .panic
    .ok (plane, cache.save id plane written)

/-- An error leaves the planes as they are. -/
def planeFor (id : SectorId) (written : Option Nat) :
    Except (Fault DatabaseError) (WdlPlane × PlaneCache) :=
  match cache.planes.get? id with
  | some plane => .ok (plane, cache)
  | none => do
    let (plane, cache) ← cache.loadOrBuildPlane id written
    let planes ← orPanic (cache.planes.insert cache.planeCacheCapacity id plane)
    let plane ← orPanic (planes.get? id)
    .ok (plane, { cache with planes })

/-- `written` is how many bytes of a new plane get into the cache directory. -/
def wdlForQuery (query : PerfectQuery) (written : Option Nat) :
    Except (Fault DatabaseError) (Option Int) × PlaneCache :=
  if query.onlyStoneTaking then (.ok none, cache)
  else
    match query.sectorAndBoard with
    | none => (.error .panic, cache)
    | some (id, board) =>
      match cache.hasherFor id with
      | none => (.error .panic, cache)
      | some (hasher, cache) =>
        match hasher.hashProbe board with
        | none => (.error .panic, cache)
        | some probe =>
          match cache.planeFor id written with
          | .ok (plane, cache) => ((orPanic (plane.wdlAt probe.index)).map some, cache)
          | .error (.error e) =>
            if e.isMissingAsset then (.ok none, cache) else (.error (.error e), cache)
          | .error .panic => (.error .panic, cache)

/-- The key changes no more than the hashers. -/
def canonicalKeyForQuery (query : PerfectQuery) : Option Nat × PlaneCache :=
  match cache.hashers.canonicalKeyForQuery query with
  | none => (none, cache)
  | some (key, hashers) => (some key, { cache with hashers })

/-- The value at a canonical key. -/
def wdlByCanonicalKey (key : Nat) (written : Option Nat) :
    Except (Fault DatabaseError) (Option Int) × PlaneCache :=
  if key.testBit midRemovalKeyBit then (.error .panic, cache)
  else
    match unpackCanonicalKey key with
    | none => (.error .panic, cache)
    | some (id, slot) =>
      match cache.planeFor id written with
      | .ok (plane, cache) => ((orPanic (plane.wdlAt slot)).map some, cache)
      | .error (.error e) =>
        if e.isMissingAsset then (.ok none, cache) else (.error (.error e), cache)
      | .error .panic => (.error .panic, cache)

end PlaneCache

/-- A call of the cache. -/
inductive PlaneCall where
  | wdlForQuery (query : PerfectQuery) (written : Option Nat)
  | wdlByCanonicalKey (key : Nat) (written : Option Nat)
  | canonicalKeyForQuery (query : PerfectQuery)

/-- The cache after a call. -/
def PlaneCache.called (cache : PlaneCache) : PlaneCall → PlaneCache
  | .wdlForQuery query written => (cache.wdlForQuery query written).2
  | .wdlByCanonicalKey key written => (cache.wdlByCanonicalKey key written).2
  | .canonicalKeyForQuery query => (cache.canonicalKeyForQuery query).2

end Sanmill.PerfectDb
