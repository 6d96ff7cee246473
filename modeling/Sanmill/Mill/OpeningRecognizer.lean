import Mathlib.Data.Finset.Card
import Mathlib.Data.Rat.Defs
import Sanmill.Lib.Utf16
import Sanmill.Record.Transform

/-!
# Opening recognition

`mill_opening_recognizer.dart`. The placements of a game are read in the sixteen frames of the
board and compared with the lines of a book: the first moves of a line, the same squares in
another order, or a named branch that leaves the line. The confidence of an opening is a double
that is only compared, so it may be of any linear order; the confidence of a result is a
rational. Fields of the book that recognition does not read are left out.
-/

namespace Sanmill.MillOpeningRecognizer

open Recorder

/-! ## The book -/

/-- A known way out of an opening. -/
structure OpeningBranch where
  deviationPly : Int
  deviationMove : Text
  name : Text
  strategicNotes : Text
deriving DecidableEq

/-- An opening of the book, with the fields that the recognizer reads or reports. -/
structure OpeningEntry (δ : Type) where
  id : Text
  name : Text
  aliases : List Text
  family : Text
  source : Text
  sourceReference : Text
  confidence : δ
  tags : List Text
  strategicNotes : Text
  commonBlunders : List Text
  recommendedResponses : List (Text × List Text)
  lineMoves : List Text
  branchMoves : List OpeningBranch
  favoredSide : Text
deriving DecidableEq

/-- How well the moves fit. -/
inductive MillOpeningStatus where
  | none
  | probable
  | exact
  | transposition
  | deviation
  | novel
deriving Repr, DecidableEq

/-- What is reported of a game. -/
structure MillOpeningRecognition where
  status : MillOpeningStatus
  matchedPly : Nat
  openingId : Option Text := none
  name : Option Text := none
  family : Option Text := none
  source : Option Text := none
  sourceReference : Option Text := none
  strategicNotes : Text := []
  commonBlunders : List Text := []
  recommendedResponses : List (Text × List Text) := []
  aliases : List Text := []
  tags : List Text := []
  favoredSide : Text := "equal".toList
  candidateFamilies : List Text := []
  nextMove : Option Text := none
  branchName : Option Text := none
  deviationPly : Option Nat := none
  deviationMove : Option Text := none
  confidence : ℚ := 0

/-- No opening fits. -/
def MillOpeningRecognition.none : MillOpeningRecognition where
  status := .none
  matchedPly := 0

/-- `TransformationType.values`. -/
def transformationTypes : List TransformationType :=
  [.identity, .rotate90, .rotate180, .rotate270, .mirrorVertical, .mirrorHorizontal,
    .mirrorBackslash, .mirrorSlash, .swap, .swapRotate90, .swapRotate180, .swapRotate270,
    .swapMirrorVertical, .swapMirrorHorizontal, .swapMirrorBackslash, .swapMirrorSlash]

/-- The placements, read in a frame. -/
def movesIn (placementMoves : List Text) (type : TransformationType) : List Text :=
  placementMoves.map fun m => transformMoveNotation m type

/-- The move of a line, brought back from the frame that the line was matched in. -/
def fromFrame (move : Text) (type : TransformationType) : Text :=
  transformMoveNotationWithMap move (inverseTransformMap (getTransformMap type))

/-! ## Comparing moves with a line -/

/-- `_commonPrefix`. -/
def commonPrefix : List Text → List Text → Nat
  | a :: as, b :: bs => if a = b then commonPrefix as bs + 1 else 0
  | _, _ => 0

/-- The squares that one side took in the first `ply` moves: the even places or the odd ones. -/
def sideMoves (moves : List Text) (ply parity : Nat) : Finset Text :=
  (((List.range ply).filter fun i => i % 2 = parity).map fun i => moves.getD i []).toFinset

/-- `_setEquals`. -/
def setEquals (a b : Finset Text) : Bool := decide (a.card = b.card) && decide (b ⊆ a)

/-- `_setMatch`. -/
def setMatch (moved line : List Text) (ply : Nat) : Bool :=
  setEquals (sideMoves moved ply 0) (sideMoves line ply 0)
    && setEquals (sideMoves moved ply 1) (sideMoves line ply 1)

/-! ## One frame after the other -/

section

variable {δ : Type}

/-- A line that the moves follow as far as they go. -/
structure BestMatch (δ : Type) where
  opening : OpeningEntry δ
  type : TransformationType
  lineLength : Nat

/-- A line that the moves follow for a while. -/
structure PartialMatch (δ : Type) where
  opening : OpeningEntry δ
  type : TransformationType
  length : Nat

/-- `Map.putIfAbsent` on a map that keeps the order of insertion. -/
def putIfAbsent (entries : List (Text × BestMatch δ)) (id : Text) (found : BestMatch δ) :
    List (Text × BestMatch δ) :=
  if id ∈ entries.map Prod.fst then entries else entries ++ [(id, found)]

/-- The variables of the loop in `recognize`. -/
structure Scan (δ : Type) where
  exactById : List (Text × BestMatch δ) := []
  transpositionById : List (Text × BestMatch δ) := []
  bestPrefix : Nat := 0
  prefixMatches : List (PartialMatch δ) := []

/-- The body of the inner loop. -/
def Scan.opening (moved : List Text) (type : TransformationType) (scan : Scan δ)
    (opening : OpeningEntry δ) : Scan δ :=
  let ply := moved.length
  let line := opening.lineMoves
  let length := commonPrefix moved line
  let scan := { scan with
    bestPrefix := max scan.bestPrefix length
    prefixMatches :=
      if 0 < length then scan.prefixMatches ++ [⟨opening, type, length⟩] else scan.prefixMatches }
  if ply ≤ line.length ∧ length = ply then
    { scan with exactById := putIfAbsent scan.exactById opening.id ⟨opening, type, line.length⟩ }
  else if ply ≤ line.length ∧ setMatch moved line ply then
    { scan with
      transpositionById :=
        putIfAbsent scan.transpositionById opening.id ⟨opening, type, line.length⟩ }
  else scan

/-- Both loops. -/
def scanFrames (placementMoves : List Text) (openings : List (OpeningEntry δ)) : Scan δ :=
  transformationTypes.foldl
    (fun scan type => openings.foldl (Scan.opening (movesIn placementMoves type) type) scan) {}

/-- `_sourceRank`. -/
def sourceRank (entry : OpeningEntry δ) : Nat :=
  if entry.source = "book".toList then 0
  else if "book-".toList.isPrefixOf entry.id then 1
  else if "novel-".toList.isPrefixOf entry.id then 2
  else 3

/-- `_build`. -/
def build (found : BestMatch δ) (ply : Nat) (status : MillOpeningStatus) (confidence : ℚ)
    (candidateFamilies : List Text) : MillOpeningRecognition :=
  let opening := found.opening
  { status
    matchedPly := ply
    openingId := some opening.id
    name := some opening.name
    family := some opening.family
    source := some opening.source
    sourceReference := some opening.sourceReference
    strategicNotes := opening.strategicNotes
    commonBlunders := opening.commonBlunders
    recommendedResponses := opening.recommendedResponses
    aliases := opening.aliases
    tags := opening.tags
    favoredSide := opening.favoredSide
    candidateFamilies
    nextMove := opening.lineMoves[ply]?.map fun move => fromFrame move found.type
    confidence }

/-- The first branch of an opening that leaves its line at ply `bestPrefix + 1` with `move`. -/
def branchFor (opening : OpeningEntry δ) (bestPrefix : Nat) (move : Text) :
    Option OpeningBranch :=
  opening.branchMoves.find? fun branch =>
    branch.deviationPly = (bestPrefix + 1 : Nat) ∧ branch.deviationMove = move

/-- What `_detectDeviation` returns for a branch of an opening. -/
def deviationResult (placementMoves : List Text) (bestPrefix : Nat)
    (found : OpeningEntry δ × OpeningBranch) : MillOpeningRecognition :=
  let (opening, branch) := found
  { status := .deviation
    matchedPly := bestPrefix
    openingId := some opening.id
    name := some opening.name
    family := some opening.family
    source := some opening.source
    sourceReference := some opening.sourceReference
    strategicNotes :=
      if branch.strategicNotes ≠ [] then branch.strategicNotes else opening.strategicNotes
    commonBlunders := opening.commonBlunders
    recommendedResponses := opening.recommendedResponses
    aliases := opening.aliases
    tags := opening.tags
    favoredSide := opening.favoredSide
    branchName := some branch.name
    deviationPly := some (bestPrefix + 1)
    deviationMove := placementMoves[bestPrefix]?
    confidence := 1 / 2 }

/-- `_detectDeviation`. -/
def detectDeviation (prefixMatches : List (PartialMatch δ)) (placementMoves : List Text)
    (bestPrefix : Nat) : Option MillOpeningRecognition :=
  prefixMatches.findSome? fun found =>
    if found.length ≠ bestPrefix then none
    else do
      let move ← (movesIn placementMoves found.type)[bestPrefix]?
      let branch ← branchFor found.opening bestPrefix move
      some (deviationResult placementMoves bestPrefix (found.opening, branch))

end

/-! ## The representative of several openings -/

section

variable {δ : Type} [LinearOrder δ]

/-- `_preferred`; `String.compareTo` compares code units. -/
def preferred (a b : BestMatch δ) : Ordering :=
  (compare b.opening.confidence a.opening.confidence).then <|
    (compare a.lineLength b.lineLength).then <|
      compare (Utf16.ofText a.opening.id) (Utf16.ofText b.opening.id)

/-- `_resolveAmbiguous`; `first` and `rest` are the candidates. -/
def resolveAmbiguous (first : BestMatch δ) (rest : List (BestMatch δ)) (ply : Nat)
    (exact : Bool) : MillOpeningRecognition :=
  let topRank := (rest.map fun m => sourceRank m.opening).foldl min (sourceRank first.opening)
  let named := ((first :: rest).filter fun m => sourceRank m.opening = topRank).mergeSort
    fun a b => (preferred a b).isLE
  let families := ((named.map fun m => m.opening.family).filter fun f => f ≠ []).eraseDups
  let ambiguous := decide (1 < named.length)
  let status :=
    if exact then if ambiguous then MillOpeningStatus.probable else .exact else .transposition
  let confidence : ℚ :=
    if exact then if ambiguous then 1 / named.length else 1 else 7 / 10
  build (named.headD first) ply status confidence families

/-- `novelCommitPly`. -/
def novelCommitPly : Nat := 6

/-- The opening that a line follows, or where it leaves it. -/
def recognize (placementMoves : List Text) (openings : List (OpeningEntry δ)) :
    MillOpeningRecognition :=
  let ply := placementMoves.length
  if ply = 0 ∨ openings = [] then .none
  else
    let scan := scanFrames placementMoves openings
    match scan.exactById.map Prod.snd with
    | first :: rest => resolveAmbiguous first rest ply true
    | [] =>
      match scan.transpositionById.map Prod.snd with
      | first :: rest => resolveAmbiguous first rest ply false
      | [] =>
        let deviation :=
          if 0 < scan.bestPrefix ∧ scan.bestPrefix < ply then
            detectDeviation scan.prefixMatches placementMoves scan.bestPrefix
          else none
        match deviation with
        | some result => result
        | none =>
          if novelCommitPly ≤ ply ∨ 0 < scan.bestPrefix then
            { status := .novel, matchedPly := scan.bestPrefix }
          else .none

/-! ## Continuations -/

/-- A move that a line goes on with. -/
structure ContinuationCandidate (δ : Type) where
  move : Text
  confidence : δ
  lineLength : Nat

/-- The order of the candidates in `_continuationMoves`. -/
def ContinuationCandidate.compare (a b : ContinuationCandidate δ) : Ordering :=
  (Ord.compare b.confidence a.confidence).then (Ord.compare b.lineLength a.lineLength)

/-- The candidates that the frame `type` gives. -/
def candidatesIn (placementMoves : List Text) (openings : List (OpeningEntry δ))
    (requiredFavoredSide : Option Text) (type : TransformationType) :
    List (ContinuationCandidate δ) :=
  openings.filterMap fun opening =>
    if requiredFavoredSide.any fun side => opening.favoredSide ≠ side then none
    else if commonPrefix (movesIn placementMoves type) opening.lineMoves
      ≠ placementMoves.length then
      none
    else
      opening.lineMoves[placementMoves.length]?.map fun next =>
        { move := fromFrame next type
          confidence := opening.confidence
          lineLength := opening.lineMoves.length }

/-- `_continuationMoves`; the sort is stable here, and need not be in the source. -/
def continuationMoves (placementMoves : List Text) (openings : List (OpeningEntry δ))
    (requiredFavoredSide : Option Text) : List Text :=
  let candidates :=
    transformationTypes.flatMap (candidatesIn placementMoves openings requiredFavoredSide)
  ((candidates.mergeSort fun a b => (a.compare b).isLE).map ContinuationCandidate.move).eraseDups

/-- The moves of the openings that favour a side. -/
def favoredOpeningMoves (placementMoves : List Text) (openings : List (OpeningEntry δ))
    (aiSide : Text) : List Text :=
  if aiSide ≠ "W".toList ∧ aiSide ≠ "B".toList then []
  else continuationMoves placementMoves openings (some aiSide)

/-- The moves of all openings. -/
def bookContinuationMoves (placementMoves : List Text) (openings : List (OpeningEntry δ)) :
    List Text :=
  continuationMoves placementMoves openings none

end

end Sanmill.MillOpeningRecognizer
