import Sanmill.Lib.StableSort
import Sanmill.Proof.Search.Exactness

/-!
# The order of moves

A stable sort orders the moves of a node by descending scores, and a legal move of the table
comes first. Where the scores are already in order the table move is swapped to the front,
which keeps the generated order of the others only if it swaps equal moves or neighbours.
-/

namespace Sanmill

open StableSort

variable {W : Type}

/-- What `move_order_scores_ctx` promises of a list: the scores fit their lane, and the flag
says whether a later action scores higher than the one before it. -/
structure Game.ScoresMoves (g : Game W) (wb : W) (moves : List Action)
    (context : MoveOrderContext) : Prop where
  fits : ∀ i < moves.length, (g.moveOrderScoresCtx wb moves context).1 i
    ≤ Searcher.moveOrderScoreMax
  needsSort : (g.moveOrderScoresCtx wb moves context).2 = true ↔
    ∃ i, i + 1 < moves.length ∧ (g.moveOrderScoresCtx wb moves context).1 i
      < (g.moveOrderScoresCtx wb moves context).1 (i + 1)

namespace Searcher

variable (g : Game W)

/-- Moves with their places, as the stable sort by descending scores orders them. -/
def stableOrder (scores : Nat → Int) (entries : List (Action × Nat)) : List Action :=
  (entries.mergeSort (descending fun entry => scores entry.2)).map Prod.fst

/-- The order that is asked for: the table move, then the others as the stable sort has them. -/
def expectedOrder (moves : List Action) (scores : Nat → Int) : Option Nat → List Action
  | none => stableOrder scores moves.zipIdx
  | some index => (moves[index]?).toList ++ stableOrder scores (moves.zipIdx.eraseIdx index)

/-- Bringing the move at `index` to the front leaves the others in order. -/
def KeepsOrder (moves : List Action) (scores : Nat → Int) (needsSort : Bool) (index : Nat) : Prop :=
  if needsSort then ∀ j < index, scores j ≠ moveOrderScoreMax
  else ∀ j < index, moves[j]? = moves[0]?

variable {moves : List Action} {scores : Nat → Int} {index : Nat}

/-! ## The sort -/

theorem insertMove_eq_insertDesc (scored : Action × Int) (sorted : List (Action × Int)) :
    insertMove scored sorted = insertDesc Prod.snd scored sorted := by
  induction sorted with
  | nil => rfl
  | cons prev rest ih =>
    unfold insertMove insertDesc
    rw [ih]

theorem sortMoves_eq_sortDesc (moves : List Action) (scores : Nat → Int) :
    sortMoves moves scores
      = (sortDesc (fun entry : Action × Nat => scores entry.2) moves.zipIdx).map Prod.fst := by
  have hinsert : (fun sorted move => insertMove move sorted)
      = fun (sorted : List (Action × Int)) move => insertDesc Prod.snd move sorted := by
    funext sorted move
    exact insertMove_eq_insertDesc move sorted
  have hmap := sortDesc_map (fun entry : Action × Nat => (entry.1, scores entry.2)) Prod.snd
    moves.zipIdx
  unfold sortMoves
  rw [hinsert]
  show (sortDesc Prod.snd (moves.zipIdx.map fun entry => (entry.1, scores entry.2))).map
    Prod.fst = _
  rw [← hmap, List.map_map]
  rfl

theorem stableOrder_eq_sortDesc (scores : Nat → Int) (entries : List (Action × Nat)) :
    stableOrder scores entries
      = (sortDesc (fun entry : Action × Nat => scores entry.2) entries).map Prod.fst := by
  unfold stableOrder
  rw [sortDesc_eq_mergeSort]

theorem sortMoves_eq_stableOrder (moves : List Action) (scores : Nat → Int) :
    sortMoves moves scores = stableOrder scores moves.zipIdx := by
  rw [sortMoves_eq_sortDesc, stableOrder_eq_sortDesc]

/-! ## A place in the list -/

theorem exists_split (h : index < moves.length) :
    ∃ front top back, moves = front ++ top :: back ∧ front.length = index :=
  ⟨moves.take index, moves[index], moves.drop (index + 1),
    (List.take_append_drop index moves).symm.trans (by rw [List.drop_eq_getElem_cons h]),
    List.length_take_of_le (le_of_lt h)⟩

theorem zipIdx_split (front : List Action) (top : Action) (back : List Action) :
    (front ++ top :: back).zipIdx
      = front.zipIdx ++ (top, front.length) :: back.zipIdx (front.length + 1) := by
  rw [List.zipIdx_append, Nat.zero_add, List.zipIdx_cons]

theorem expectedOrder_split (front : List Action) (top : Action) (back : List Action)
    (scores : Nat → Int) :
    expectedOrder (front ++ top :: back) scores (some front.length)
      = top :: stableOrder scores (front.zipIdx ++ back.zipIdx (front.length + 1)) := by
  have htop : (front ++ top :: back)[front.length]? = some top := by
    rw [List.getElem?_append_right (le_refl _), Nat.sub_self]
    rfl
  have herase : (front ++ top :: back).zipIdx.eraseIdx front.length
      = front.zipIdx ++ back.zipIdx (front.length + 1) := by
    rw [zipIdx_split, List.eraseIdx_append_of_length_le (le_of_eq List.length_zipIdx),
      List.length_zipIdx, Nat.sub_self]
    rfl
  show _ ++ stableOrder scores ((front ++ top :: back).zipIdx.eraseIdx front.length) = _
  rw [htop, herase]
  rfl

theorem snd_lt_of_mem_zipIdx {l : List Action} {n : Nat} {entry : Action × Nat}
    (h : entry ∈ l.zipIdx n) : n ≤ entry.2 ∧ entry.2 < n + l.length := by
  obtain ⟨hle, hlt, -⟩ := List.mem_zipIdx h
  exact ⟨hle, hlt⟩

/-- With a first greatest score at its place a move comes first, and the others are sorted. -/
theorem stableOrder_promote {scores' : Nat → Int} {front back : List Action} {top : Action}
    (hfront : ∀ j < front.length, scores j < scores' front.length)
    (hback : ∀ j < back.length, scores (front.length + 1 + j) ≤ scores' front.length)
    (hothers : ∀ j, j ≠ front.length → scores' j = scores j) :
    stableOrder scores' (front ++ top :: back).zipIdx
      = top :: stableOrder scores (front.zipIdx ++ back.zipIdx (front.length + 1)) := by
  -- the other actions keep their scores and their places
  have hkeys : ∀ entry ∈ front.zipIdx ++ back.zipIdx (front.length + 1),
      scores' entry.2 = scores entry.2 := by
    intro entry hentry
    refine hothers _ ?_
    rcases List.mem_append.1 hentry with hmem | hmem
    · have hlt := (snd_lt_of_mem_zipIdx hmem).2
      omega
    · have hle := (snd_lt_of_mem_zipIdx hmem).1
      omega
  have hpromote := @sortDesc_promote _ (fun entry : Action × Nat => scores' entry.2) front.zipIdx
    (back.zipIdx (front.length + 1)) (top, front.length)
    (by
      intro entry hentry
      have hlt := (snd_lt_of_mem_zipIdx hentry).2
      rw [hkeys entry (List.mem_append_left _ hentry)]
      exact hfront entry.2 (by omega))
    (by
      intro entry hentry
      obtain ⟨hle, hlt⟩ := snd_lt_of_mem_zipIdx hentry
      have hbound := hback (entry.2 - (front.length + 1)) (by omega)
      rw [Nat.add_sub_cancel' hle] at hbound
      rw [hkeys entry (List.mem_append_right _ hentry)]
      exact hbound)
  rw [stableOrder_eq_sortDesc, stableOrder_eq_sortDesc, zipIdx_split, hpromote, List.map_cons,
    sortDesc_congr hkeys]

/-! ## The swap -/

theorem append_singleton_eq_cons {a : Action} {l : List Action} :
    l ++ [a] = a :: l ↔ ∀ x ∈ l, x = a := by
  induction l with
  | nil => exact ⟨fun _ x hx => (List.not_mem_nil hx).elim, fun _ => rfl⟩
  | cons b rest ih =>
    rw [List.cons_append, List.cons.injEq]
    constructor
    · rintro ⟨rfl, hrest⟩ x hx
      rcases List.mem_cons.1 hx with rfl | hx
      · rfl
      · exact ih.1 hrest x hx
    · intro h
      obtain rfl := h b List.mem_cons_self
      exact ⟨rfl, ih.2 fun x hx => h x (List.mem_cons_of_mem b hx)⟩

theorem swap_front (first : Action) (rest : List Action) (top : Action) (back : List Action) :
    ((first :: rest ++ top :: back).toArray.swapIfInBounds 0 (first :: rest).length).toList
      = top :: (rest ++ first :: back) := by
  have hlen : rest.length + 1 < (first :: rest ++ top :: back).length := by
    rw [List.length_append, List.length_cons, List.length_cons]
    omega
  have hget : (first :: rest ++ top :: back)[rest.length + 1] = top := by
    simp
  unfold Array.swapIfInBounds
  rw [dif_pos (by simp), dif_pos (by simp), Array.toList_swap]
  simp only [List.getElem_toArray, List.length_cons, hget]
  simp

theorem swap_keeps_iff (front : List Action) (top : Action) (back : List Action) :
    ((front ++ top :: back).toArray.swapIfInBounds 0 front.length).toList
        = top :: (front ++ back)
      ↔ ∀ j < front.length, (front ++ top :: back)[j]? = (front ++ top :: back)[0]? := by
  cases front with
  | nil =>
    constructor
    · intro _ j hj
      exact absurd hj (Nat.not_lt_zero j)
    · intro _
      simp [Array.swapIfInBounds]
  | cons first rest =>
    have hat : ∀ j < (first :: rest).length,
        (first :: rest ++ top :: back)[j]? = (first :: rest)[j]? :=
      fun j hj => List.getElem?_append_left hj
    rw [swap_front, List.cons.injEq, List.cons_append]
    constructor
    · rintro ⟨-, heq⟩ j hj
      -- the first action goes behind the others of the front, which changes nothing only if they
      -- are equal
      have hrest : rest ++ [first] = first :: rest := by
        have h : (rest ++ [first]) ++ back = (first :: rest) ++ back := by
          rw [List.append_assoc]
          exact heq
        exact List.append_cancel_right h
      have hall := append_singleton_eq_cons.1 hrest
      rw [hat j hj, hat 0 (Nat.succ_pos _)]
      cases j with
      | zero => rfl
      | succ j =>
        have hjr : j < rest.length := by
          rw [List.length_cons] at hj
          omega
        rw [List.getElem?_cons_succ, List.getElem?_eq_getElem hjr,
          hall rest[j] (List.getElem_mem hjr)]
        rfl
    · intro h
      have hall : ∀ x ∈ rest, x = first := by
        intro x hx
        obtain ⟨j, hj, rfl⟩ := List.mem_iff_getElem.1 hx
        have hjs : j + 1 < (first :: rest).length := by
          rw [List.length_cons]
          omega
        have hx' := h (j + 1) hjs
        rw [hat (j + 1) hjs, hat 0 (Nat.succ_pos _), List.getElem?_cons_succ,
          List.getElem?_eq_getElem hj] at hx'
        exact Option.some.inj hx'
      have hrest := append_singleton_eq_cons.2 hall
      refine ⟨rfl, ?_⟩
      rw [← List.cons_append, ← hrest, List.append_assoc]
      rfl

/-! ## The table move -/

theorem findIdx_first {action : Action} (h : moves.findIdx? (· = action) = some index) :
    index < moves.length ∧ ∀ j < index, moves[j]? ≠ moves[index]? := by
  obtain ⟨hlt, heq, hbefore⟩ := List.findIdx?_eq_some_iff_getElem.1 h
  refine ⟨hlt, fun j hj hsame => ?_⟩
  have hjlt : j < moves.length := lt_trans hj hlt
  rw [List.getElem?_eq_getElem hjlt, List.getElem?_eq_getElem hlt] at hsame
  have hnot := hbefore j hj
  rw [Option.some.inj hsame] at hnot
  exact hnot heq

/-- The index is that of the first move equal to it. -/
theorem legalHashMoveIndex_first {s : Searcher} {key : BitVec 64} {ttMove : Option Action}
    {probeTtMove : Bool} (h : s.legalHashMoveIndex g key moves ttMove probeTtMove = some index) :
    index < moves.length ∧ ∀ j < index, moves[j]? ≠ moves[index]? := by
  have hfind : ∀ {hint : Option Action},
      (hint.bind fun action => moves.findIdx? (· = action)) = some index →
      index < moves.length ∧ ∀ j < index, moves[j]? ≠ moves[index]? := by
    intro hint hhint
    obtain ⟨action, -, haction⟩ := Option.bind_eq_some_iff.1 hhint
    exact findIdx_first haction
  unfold legalHashMoveIndex at h
  dsimp only at h
  split at h
  · rename_i found hfound
    rw [h] at hfound
    exact hfind hfound
  · split at h
    · rename_i found hfound
      rw [h] at hfound
      exact hfind hfound
    · split at h
      · exact hfind h
      · cases h

/-! ## The result -/

theorem descending_of_not_needsSort
    (h : ¬ ∃ i, i + 1 < moves.length ∧ scores i < scores (i + 1)) :
    moves.zipIdx.Pairwise fun a b => scores b.2 ≤ scores a.2 := by
  have hstep : ∀ k i, i + k < moves.length → scores (i + k) ≤ scores i := by
    intro k
    induction k with
    | zero => exact fun i _ => le_refl _
    | succ k ih =>
      intro i hi
      have hprev := ih i (by omega)
      rw [← Nat.add_assoc]
      by_contra hnot
      exact h ⟨i + k, by omega, by omega⟩
  refine (zipIdx_places moves 0).imp_of_mem fun {a b} _ hb hab => ?_
  have hlt := (snd_lt_of_mem_zipIdx hb).2
  have hle := hstep (b.2 - a.2) a.2 (by omega)
  rwa [Nat.add_sub_cancel' (le_of_lt hab)] at hle

theorem stableOrder_of_pairwise {entries : List (Action × Nat)}
    (h : entries.Pairwise fun a b => scores b.2 ≤ scores a.2) :
    stableOrder scores entries = entries.map Prod.fst := by
  rw [stableOrder_eq_sortDesc, sortDesc_of_pairwise _ h]

/-- The sort with the greatest score at the place of the table move. -/
theorem sortMoves_promoted_iff (hfits : ∀ i < moves.length, scores i ≤ moveOrderScoreMax)
    (hlt : index < moves.length) (hfirst : ∀ j < index, moves[j]? ≠ moves[index]?) :
    sortMoves moves (Function.update scores index moveOrderScoreMax)
        = expectedOrder moves scores (some index)
      ↔ ∀ j < index, scores j ≠ moveOrderScoreMax := by
  obtain ⟨front, top, back, rfl, rfl⟩ := exists_split hlt
  have hlength : (front ++ top :: back).length = front.length + 1 + back.length := by
    rw [List.length_append, List.length_cons]
    omega
  have hself : Function.update scores front.length moveOrderScoreMax front.length
      = moveOrderScoreMax := Function.update_self _ _ _
  have hother : ∀ j, j ≠ front.length →
      Function.update scores front.length moveOrderScoreMax j = scores j :=
    fun j hj => Function.update_of_ne hj _ _
  rw [sortMoves_eq_stableOrder, expectedOrder_split]
  constructor
  · -- an earlier move of the greatest score would come first
    intro heq
    by_contra hnot
    have hex : ∃ j, j < front.length ∧ scores j = moveOrderScoreMax := by
      by_contra hnone
      exact hnot fun j hj hmax => hnone ⟨j, hj, hmax⟩
    obtain ⟨hfound, hmax⟩ := Nat.find_spec hex
    have hbefore : ∀ j < Nat.find hex, scores j ≠ moveOrderScoreMax :=
      fun j hj hmaxj => Nat.find_min hex hj ⟨lt_trans hj hfound, hmaxj⟩
    generalize Nat.find hex = first at hfound hmax hbefore
    obtain ⟨front', top', back', hsplit, hlen'⟩ :=
      exists_split (show first < (front ++ top :: back).length by omega)
    subst hlen'
    have hlength' : (front ++ top :: back).length = front'.length + 1 + back'.length := by
      rw [hsplit, List.length_append, List.length_cons]
      omega
    have hle : ∀ j, j < (front ++ top :: back).length →
        Function.update scores front.length moveOrderScoreMax j ≤ moveOrderScoreMax := by
      intro j hj
      by_cases hjl : j = front.length
      · rw [hjl, hself]
      · rw [hother j hjl]
        exact hfits j hj
    have hpromote := @stableOrder_promote
      (Function.update scores front.length moveOrderScoreMax)
      (Function.update scores front.length moveOrderScoreMax) front' back' top'
      (by
        intro j hj
        have hjne : scores j ≠ moveOrderScoreMax := hbefore j hj
        have hjle := hfits j (by omega)
        rw [hother j (by omega), hother front'.length (by omega), hmax]
        omega)
      (by
        intro j hj
        rw [hother front'.length (by omega), hmax]
        exact hle _ (by omega))
      (fun j _ => rfl)
    rw [hsplit, hpromote] at heq
    obtain ⟨rfl, -⟩ := List.cons.inj heq
    refine hfirst front'.length hfound ?_
    rw [List.getElem?_append_right (le_refl _), Nat.sub_self]
    rw [hsplit, List.getElem?_append_right (le_refl _), Nat.sub_self]
    rfl
  · intro hbelow
    refine stableOrder_promote (fun j hj => ?_) (fun j hj => ?_) hother
    · rw [hself]
      exact lt_of_le_of_ne (hfits j (by omega)) (hbelow j hj)
    · rw [hself]
      exact hfits _ (by omega)

/-- The swap, where the scores are in order. -/
theorem swap_expected_iff (hsorted : ¬ ∃ i, i + 1 < moves.length ∧ scores i < scores (i + 1))
    (hlt : index < moves.length) :
    (moves.toArray.swapIfInBounds 0 index).toList = expectedOrder moves scores (some index)
      ↔ ∀ j < index, moves[j]? = moves[0]? := by
  have hpair := descending_of_not_needsSort hsorted
  obtain ⟨front, top, back, rfl, rfl⟩ := exists_split hlt
  have hothers : (front.zipIdx ++ back.zipIdx (front.length + 1)).Pairwise
      fun a b => scores b.2 ≤ scores a.2 := by
    rw [zipIdx_split] at hpair
    exact hpair.sublist ((List.sublist_cons_self _ _).append_left _)
  rw [expectedOrder_split, stableOrder_of_pairwise hothers, List.map_append,
    List.zipIdx_map_fst, List.zipIdx_map_fst]
  exact swap_keeps_iff front top back

/-- **The moves come out permuted, a legal table move first and the others in stable order,
exactly when no move before the table move has the greatest score, or, where the scores are in
order already, when no other move stands before it than copies of the first.** -/
theorem orderMovesImpl_iff (s : Searcher) (wb : W) (key : BitVec 64) (moves : List Action)
    (ttMove : Option Action) (probeTtMove : Bool)
    (hscores : g.ScoresMoves wb moves s.options.moveOrderContext) :
    ((s.orderMovesImpl g wb key moves ttMove probeTtMove).Perm moves
      ∧ s.orderMovesImpl g wb key moves ttMove probeTtMove
        = expectedOrder moves (g.moveOrderScoresCtx wb moves s.options.moveOrderContext).1
            (s.legalHashMoveIndex g key moves ttMove probeTtMove))
      ↔ ∀ index, s.legalHashMoveIndex g key moves ttMove probeTtMove = some index →
        KeepsOrder moves (g.moveOrderScoresCtx wb moves s.options.moveOrderContext).1
          (g.moveOrderScoresCtx wb moves s.options.moveOrderContext).2 index := by
  have hperm := orderMovesImpl_perm g s wb key moves ttMove probeTtMove
  rw [and_iff_right hperm]
  obtain ⟨hfits, hneeds⟩ := hscores
  unfold orderMovesImpl
  generalize g.moveOrderScoresCtx wb moves s.options.moveOrderContext = scored at hfits hneeds ⊢
  obtain ⟨scores, needsSort⟩ := scored
  dsimp only at hfits hneeds ⊢
  cases hindex : s.legalHashMoveIndex g key moves ttMove probeTtMove with
  | none =>
    dsimp only
    refine iff_of_true ?_ (fun index h => by cases h)
    have hsorted : ¬ needsSort = true → moves = expectedOrder moves scores none := by
      intro hflag
      show moves = stableOrder scores moves.zipIdx
      rw [stableOrder_of_pairwise (descending_of_not_needsSort (hflag ∘ hneeds.2)),
        List.zipIdx_map_fst]
    split
    · rename_i hshort
      refine hsorted fun hflag => ?_
      obtain ⟨i, hi, -⟩ := hneeds.1 hflag
      omega
    · split
      · exact sortMoves_eq_stableOrder moves scores
      · rename_i hflag
        exact hsorted hflag
  | some index =>
    dsimp only
    obtain ⟨hlt, hfirst⟩ := legalHashMoveIndex_first g hindex
    have honly : (∀ other, some index = some other → KeepsOrder moves scores needsSort other)
        ↔ KeepsOrder moves scores needsSort index := by
      constructor
      · exact fun h => h index rfl
      · intro h other hother
        obtain rfl := Option.some.inj hother
        exact h
    rw [honly]
    unfold KeepsOrder
    split
    · -- a single move
      rename_i hshort
      have hzero : index = 0 := by omega
      have hflag : ¬ needsSort = true := by
        intro hflag
        obtain ⟨i, hi, -⟩ := hneeds.1 hflag
        omega
      subst hzero
      rw [if_neg hflag]
      refine iff_of_true ?_ (fun j hj => absurd hj (Nat.not_lt_zero j))
      have hswap := (swap_expected_iff (hflag ∘ hneeds.2) hlt).2
        fun j hj => absurd hj (Nat.not_lt_zero j)
      rw [← hswap]
      simp [Array.swapIfInBounds]
    · split
      · exact sortMoves_promoted_iff hfits hlt hfirst
      · rename_i hflag
        exact swap_expected_iff (hflag ∘ hneeds.2) hlt

/-! ## Lists of equal scores -/

/-- A node of moves that all score the same. -/
def levelMoves (count : Nat) : Game (List Action) :=
  pathGame (fun _ => (List.range count).map fun n => pathMove n) (fun _ => 0) (fun _ _ _ => none)

def hintedSearcher (hint : Action) : Searcher :=
  { options := { moveOrderContext := { hashMove := some hint } } }

theorem levelMoves_scores (count : Nat) (wb : List Action) (moves : List Action)
    (context : MoveOrderContext) : (levelMoves count).ScoresMoves wb moves context where
  fits i _ := by
    show (0 : Int) ≤ 32767
    omega
  needsSort := by
    show false = true ↔ ∃ i, i + 1 < moves.length ∧ (0 : Int) < 0
    constructor
    · intro h
      cases h
    · rintro ⟨i, -, hi⟩
      omega

/-- A table move in the second place leaves the others in order. -/
theorem orderMovesImpl_second :
    (hintedSearcher (pathMove 1)).orderMovesImpl (levelMoves 3) [] 1
        [pathMove 0, pathMove 1, pathMove 2] none true
      = expectedOrder [pathMove 0, pathMove 1, pathMove 2] (fun _ => 0) (some 1) := by
  have h := (orderMovesImpl_iff (levelMoves 3) (hintedSearcher (pathMove 1)) [] 1
    [pathMove 0, pathMove 1, pathMove 2] none true (levelMoves_scores 3 _ _ _)).2 (by
      intro index hindex
      have hone : (hintedSearcher (pathMove 1)).legalHashMoveIndex (levelMoves 3) 1
          [pathMove 0, pathMove 1, pathMove 2] none true = some 1 := by decide
      obtain rfl := Option.some.inj (hone.symm.trans hindex)
      intro j hj
      rw [Nat.lt_one_iff.1 hj])
  exact h.2

/-- In the third place it changes places with the first. -/
theorem orderMovesImpl_third :
    (levelMoves 3).ScoresMoves [] [pathMove 0, pathMove 1, pathMove 2]
        (hintedSearcher (pathMove 2)).options.moveOrderContext
      ∧ (hintedSearcher (pathMove 2)).legalHashMoveIndex (levelMoves 3) 1
          [pathMove 0, pathMove 1, pathMove 2] none true = some 2
      ∧ (hintedSearcher (pathMove 2)).orderMovesImpl (levelMoves 3) [] 1
          [pathMove 0, pathMove 1, pathMove 2] none true = [pathMove 2, pathMove 1, pathMove 0]
      ∧ expectedOrder [pathMove 0, pathMove 1, pathMove 2] (fun _ => 0) (some 2)
          = [pathMove 2, pathMove 0, pathMove 1] := by
  refine ⟨levelMoves_scores 3 _ _ _, by decide, by decide, ?_⟩
  show [pathMove 2] ++ stableOrder (fun _ => 0) [(pathMove 0, 0), (pathMove 1, 1)] = _
  rw [stableOrder_eq_sortDesc]
  decide

end Searcher

end Sanmill
