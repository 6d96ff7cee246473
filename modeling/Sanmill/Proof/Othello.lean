import Sanmill.Othello.Game
import Sanmill.Proof.Codec

/-!
# Othello: what a move does, and when the game is over

A legal action flips the runs that `Bracketed` describes by coordinates, no more and no less, and
adds one disc. The rules end the game when the board is full and the search when there is no
action; they differ on the blocked positions, which play reaches after eight actions.
-/

namespace Sanmill.Othello

/-! ## The squares of a ray -/

/-- `x` is `k` steps away from `sq`. -/
def At (sq : Square) (d : Int × Int) (k : Nat) (x : Square) : Prop :=
  column x = column sq + k * d.1 ∧ row x = row sq + k * d.2

theorem column_idx {c r : Int} (h : InBounds c r) : column (idx c r h) = c := by
  have hval : (idx c r h).val = (r * 8 + c).toNat := rfl
  unfold column
  rw [hval]
  omega

theorem row_idx {c r : Int} (h : InBounds c r) : row (idx c r h) = r := by
  have hval : (idx c r h).val = (r * 8 + c).toNat := rfl
  unfold row
  rw [hval]
  omega

theorem eq_of_coordinates {x y : Square} (hc : column x = column y) (hr : row x = row y) :
    x = y := by
  unfold column at hc
  unfold row at hr
  apply Fin.ext
  omega

theorem inBounds_coordinates (x : Square) : InBounds (column x) (row x) := by
  have := x.isLt
  unfold column row
  omega

/-- The `i`-th square of a walk is `i` steps from its start, and the squares before it are on the
board. -/
theorem getElem?_walk {d : Int × Int} {fuel : Nat} {c r : Int} {i : Nat} {x : Square} :
    (walk d fuel c r)[i]? = some x
      ↔ i < fuel ∧ (∀ j ≤ i, InBounds (c + j * d.1) (r + j * d.2))
        ∧ column x = c + i * d.1 ∧ row x = r + i * d.2 := by
  -- the ray is followed one square at a time; its later squares are those of the next start
  induction fuel generalizing c r i with
  | zero =>
    constructor
    · intro h
      cases h
    · rintro ⟨h, -⟩
      omega
  | succ fuel ih =>
    unfold walk
    by_cases hin : InBounds c r
    · rw [dif_pos hin]
      cases i with
      | zero =>
        rw [List.getElem?_cons_zero, Option.some_inj]
        constructor
        · rintro rfl
          refine ⟨by omega, ?_, ?_, ?_⟩
          · intro j hj
            obtain rfl : j = 0 := by omega
            simpa using hin
          · simpa using column_idx hin
          · simpa using row_idx hin
        · rintro ⟨-, -, hc, hr⟩
          apply eq_of_coordinates
          · rw [column_idx, hc]
            simp
          · rw [row_idx, hr]
            simp
      | succ i =>
        rw [List.getElem?_cons_succ, ih]
        have hshift : ∀ (a b : Int) (j : Nat), a + b + j * b = a + (j + 1 : Nat) * b := by
          intro a b j
          push_cast
          ring
        simp only [hshift]
        constructor
        · rintro ⟨hi, hall, hcoord⟩
          refine ⟨by omega, ?_, hcoord⟩
          intro j hj
          cases j with
          | zero => simpa using hin
          | succ j => exact hall j (by omega)
        · rintro ⟨hi, hall, hcoord⟩
          exact ⟨by omega, fun j hj => hall (j + 1) (by omega), hcoord⟩
    · rw [dif_neg hin]
      constructor
      · intro h
        cases h
      · rintro ⟨-, hall, -⟩
        have hzero := hall 0 (Nat.zero_le _)
        simp only [Nat.cast_zero, zero_mul, add_zero] at hzero
        exact absurd hzero hin

theorem getElem?_ray {sq x : Square} {d : Int × Int} {i : Nat} :
    (ray sq d)[i]? = some x
      ↔ i < 8 ∧ (∀ j, 1 ≤ j → j ≤ i + 1 → ∃ y, At sq d j y) ∧ At sq d (i + 1) x := by
  unfold ray
  rw [getElem?_walk]
  have hshift : ∀ (a b : Int) (j : Nat), a + b + j * b = a + (j + 1 : Nat) * b := by
    intro a b j
    push_cast
    ring
  simp only [hshift]
  refine and_congr_right fun _ => and_congr ?_ Iff.rfl
  constructor
  · intro hall j hj hle
    have hin := hall (j - 1) (by omega)
    rw [Nat.sub_add_cancel hj] at hin
    exact ⟨idx _ _ hin, column_idx hin, row_idx hin⟩
  · intro hall j hj
    obtain ⟨y, hc, hr⟩ := hall (j + 1) (by omega) (by omega)
    rw [← hc, ← hr]
    exact inBounds_coordinates y

/-- No step stays within a line for eight squares. -/
theorem at_lt {sq x : Square} {d : Int × Int} (hd : d ∈ directions) {k : Nat} (h : At sq d k x) :
    k < 8 := by
  have hsq := inBounds_coordinates sq
  have hx := inBounds_coordinates x
  obtain ⟨hc, hr⟩ := h
  have hcases : ∀ d ∈ directions, d.1 = 1 ∨ d.1 = -1 ∨ d.2 = 1 ∨ d.2 = -1 := by decide
  rcases hcases d hd with h | h | h | h
  · rw [h] at hc
    omega
  · rw [h] at hc
    omega
  · rw [h] at hr
    omega
  · rw [h] at hr
    omega

/-- The square itself and its eight rays have no square twice. -/
theorem nodup_rays (sq : Square) : (sq :: directions.flatMap (ray sq)).Nodup := by
  revert sq
  decide +kernel

theorem nodup_ray {sq : Square} {d : Int × Int} (hd : d ∈ directions) : (ray sq d).Nodup :=
  (List.nodup_flatMap.1 (List.nodup_cons.1 (nodup_rays sq)).2).1 d hd

theorem not_mem_ray {sq : Square} {d : Int × Int} (hd : d ∈ directions) : sq ∉ ray sq d :=
  fun hmem => (List.nodup_cons.1 (nodup_rays sq)).1 (List.mem_flatMap.2 ⟨d, hd, hmem⟩)

theorem disjoint_rays (sq : Square) :
    directions.Pairwise fun d d' => (ray sq d).Disjoint (ray sq d') :=
  (List.nodup_flatMap.1 (List.nodup_cons.1 (nodup_rays sq)).2).2

/-! ## Bracketed runs -/

/-- A run of opponent discs and the own disc that closes it, from the start of a list. -/
structure Closes (board : Board) (own opp : Int) (squares run : List Square) : Prop where
  split : ∃ last rest, squares = run ++ last :: rest ∧ board last = own
  opponents : ∀ x ∈ run, board x = opp
  nonempty : run ≠ []

theorem Closes.takeWhile {board : Board} {own opp : Int} {squares run : List Square}
    (h : Closes board own opp squares run) (hne : own ≠ opp) :
    squares.takeWhile (fun x => board x = opp) = run := by
  obtain ⟨last, rest, rfl, hlast⟩ := h.split
  have hall : ∀ x ∈ run, decide (board x = opp) = true :=
    fun x hx => decide_eq_true (h.opponents x hx)
  have hstop : ¬ decide (board last = opp) = true := by
    rw [hlast]
    exact mt of_decide_eq_true hne
  rw [List.takeWhile_append_of_pos hall, List.takeWhile_cons, if_neg hstop,
    List.append_nil]

/-- What the inner loop has counted, and what is still ahead. -/
theorem bracketed_eq_some_iff {board : Board} {own opp : Int} (hne : own ≠ opp)
    {squares : List Square} {count total : Nat} :
    bracketed board own opp squares count = some total
      ↔ ∃ run last rest, squares = run ++ last :: rest ∧ board last = own
        ∧ (∀ x ∈ run, board x = opp) ∧ total = count + run.length ∧ 0 < total := by
  -- the count is what was passed before these squares
  induction squares generalizing count with
  | nil =>
    constructor
    · intro h
      cases h
    · rintro ⟨run, last, rest, hsplit, -⟩
      cases run <;> cases hsplit
  | cons sq squares ih =>
    unfold bracketed
    by_cases hopp : board sq = opp
    · rw [if_pos hopp, ih]
      constructor
      · rintro ⟨run, last, rest, rfl, hlast, hall, htotal, hpos⟩
        refine ⟨sq :: run, last, rest, rfl, hlast, ?_, ?_, hpos⟩
        · exact List.forall_mem_cons.2 ⟨hopp, hall⟩
        · rw [List.length_cons, htotal]
          omega
      · rintro ⟨run, last, rest, hsplit, hlast, hall, htotal, hpos⟩
        cases run with
        | nil =>
          obtain ⟨rfl, -⟩ := List.cons.inj hsplit
          exact absurd (hlast.symm.trans hopp) hne
        | cons first run =>
          obtain ⟨-, hsplit⟩ := List.cons.inj hsplit
          refine ⟨run, last, rest, hsplit, hlast, (List.forall_mem_cons.1 hall).2, ?_, hpos⟩
          rw [htotal, List.length_cons]
          omega
    -- the run ends here: with an own disc it closes, with an empty square it does not
    · rw [if_neg hopp]
      constructor
      · intro h
        split at h
        · rename_i hown
          obtain rfl := Option.some.inj h
          exact ⟨[], sq, squares, rfl, hown.1, fun x hx => (List.not_mem_nil hx).elim, rfl, hown.2⟩
        · cases h
      · rintro ⟨run, last, rest, hsplit, hlast, hall, htotal, hpos⟩
        cases run with
        | nil =>
          obtain ⟨rfl, -⟩ := List.cons.inj hsplit
          rw [if_pos ⟨hlast, by rw [htotal] at hpos; exact hpos⟩, htotal]
          rfl
        | cons first run =>
          obtain ⟨rfl, -⟩ := List.cons.inj hsplit
          exact absurd (hall sq List.mem_cons_self) hopp

theorem bracketed_isSome_iff {board : Board} {own opp : Int} (hne : own ≠ opp)
    {squares : List Square} :
    (bracketed board own opp squares 0).isSome = true
      ↔ ∃ run, Closes board own opp squares run := by
  rw [Option.isSome_iff_exists]
  constructor
  · rintro ⟨total, htotal⟩
    obtain ⟨run, last, rest, hsplit, hlast, hall, hlen, hpos⟩ :=
      (bracketed_eq_some_iff hne).1 htotal
    refine ⟨run, ⟨last, rest, hsplit, hlast⟩, hall, ?_⟩
    intro hnil
    rw [hnil, List.length_nil] at hlen
    omega
  · rintro ⟨run, ⟨last, rest, hsplit, hlast⟩, hall, hnonempty⟩
    have hpos := List.length_pos_of_ne_nil hnonempty
    exact ⟨run.length,
      (bracketed_eq_some_iff hne).2 ⟨run, last, rest, hsplit, hlast, hall, by omega, hpos⟩⟩

theorem Closes.congr {board board' : Board} {own opp : Int} {squares run : List Square}
    (h : Closes board own opp squares run) (hsame : ∀ x ∈ squares, board' x = board x) :
    Closes board' own opp squares run := by
  obtain ⟨last, rest, hsplit, hlast⟩ := h.split
  subst hsplit
  refine ⟨⟨last, rest, rfl, ?_⟩, ?_, h.nonempty⟩
  · rw [hsame last (List.mem_append_right _ List.mem_cons_self), hlast]
  · intro x hx
    rw [hsame x (List.mem_append_left _ hx), h.opponents x hx]

/-- The rule, by coordinates: opponent discs from next to `sq` up to an own disc, `x` among them. -/
def Bracketed (s : OthelloState) (sq x : Square) : Prop :=
  ∃ d ∈ directions, ∃ n k, 1 ≤ k ∧ k < n ∧ At sq d k x
    ∧ (∀ j, 1 ≤ j → j < n → ∃ y, At sq d j y ∧ s.board y = s.opp)
    ∧ ∃ z, At sq d n z ∧ s.board z = s.own

theorem bracketed_iff {s : OthelloState} {sq x : Square} :
    Bracketed s sq x
      ↔ ∃ d ∈ directions, ∃ run, Closes s.board s.own s.opp (ray sq d) run ∧ x ∈ run := by
  constructor
  -- by coordinates to the ray: the squares up to the closing disc all lie on it
  · rintro ⟨d, hd, n, k, hk, hkn, hx, hrun, z, hz, hown⟩
    have hn := at_lt hd hz
    have hall : ∀ j, 1 ≤ j → j ≤ n → ∃ y, At sq d j y := by
      intro j hj hle
      rcases Nat.lt_or_eq_of_le hle with hlt | rfl
      · obtain ⟨y, hy, -⟩ := hrun j hj hlt
        exact ⟨y, hy⟩
      · exact ⟨z, hz⟩
    have hget : ∀ {j y}, 1 ≤ j → j ≤ n → At sq d j y → (ray sq d)[j - 1]? = some y := by
      intro j y hj hle hy
      refine getElem?_ray.2 ⟨by omega, fun i hi hij => hall i hi (by omega), ?_⟩
      rwa [Nat.sub_add_cancel hj]
    have hlast := hget (by omega) (Nat.le_refl n) hz
    obtain ⟨hlen, hlastEq⟩ := List.getElem?_eq_some_iff.1 hlast
    refine ⟨d, hd, (ray sq d).take (n - 1), ⟨⟨z, (ray sq d).drop n, ?_, hown⟩, ?_, ?_⟩, ?_⟩
    · have hdrop : (ray sq d).drop (n - 1) = z :: (ray sq d).drop n := by
        rw [List.drop_eq_getElem_cons hlen, hlastEq, Nat.sub_add_cancel (by omega)]
      rw [← hdrop, List.take_append_drop]
    · intro y hy
      obtain ⟨i, hi⟩ := List.mem_iff_getElem?.1 hy
      have hin : i < n - 1 := by
        obtain ⟨hlt, -⟩ := List.getElem?_eq_some_iff.1 hi
        rw [List.length_take] at hlt
        omega
      rw [List.getElem?_take_of_lt hin] at hi
      obtain ⟨y', hy', hopp⟩ := hrun (i + 1) (by omega) (by omega)
      have hsame := hget (by omega) (by omega) hy'
      rw [Nat.add_sub_cancel, hi] at hsame
      rw [Option.some.inj hsame]
      exact hopp
    · intro hnil
      have hlenTake := congrArg List.length hnil
      rw [List.length_take, List.length_nil] at hlenTake
      omega
    · refine List.mem_iff_getElem?.2 ⟨k - 1, ?_⟩
      rw [List.getElem?_take_of_lt (by omega)]
      exact hget hk (by omega) hx
  -- and back: places on the ray are places on the line
  · rintro ⟨d, hd, run, hcloses, hx⟩
    obtain ⟨last, rest, hsplit, hlast⟩ := hcloses.split
    obtain ⟨i, hi⟩ := List.mem_iff_getElem?.1 hx
    obtain ⟨hilt, -⟩ := List.getElem?_eq_some_iff.1 hi
    have hrunAt : ∀ j, j < run.length → (ray sq d)[j]? = run[j]? := by
      intro j hj
      rw [hsplit, List.getElem?_append_left hj]
    have hlastAt : (ray sq d)[run.length]? = some last := by
      rw [hsplit, List.getElem?_append_right (Nat.le_refl _), Nat.sub_self, List.getElem?_cons_zero]
    refine ⟨d, hd, run.length + 1, i + 1, by omega, by omega, ?_, ?_, last, ?_, hlast⟩
    · exact (getElem?_ray.1 ((hrunAt i hilt).trans hi)).2.2
    · intro j hj hlt
      have hget := hrunAt (j - 1) (by omega)
      rw [List.getElem?_eq_getElem (by omega : j - 1 < run.length)] at hget
      have hat := (getElem?_ray.1 hget).2.2
      rw [Nat.sub_add_cancel hj] at hat
      exact ⟨_, hat, hcloses.opponents _ (List.getElem_mem _)⟩
    · exact (getElem?_ray.1 hlastAt).2.2

/-! ## What a place does -/

theorem flipRay_eq {board : Board} {own opp : Int} (hne : own ≠ opp) {squares run : List Square}
    (hnodup : squares.Nodup) (h : Closes board own opp squares run) :
    flipRay own squares board = fun x => if x ∈ run then own else board x := by
  obtain ⟨last, rest, rfl, hlast⟩ := h.split
  have key : ∀ (run : List Square) (board : Board), (run ++ last :: rest).Nodup →
      board last = own → (∀ x ∈ run, board x ≠ own) →
      flipRay own (run ++ last :: rest) board = fun x => if x ∈ run then own else board x := by
    intro run
    induction run with
    | nil =>
      intro board _ hlast _
      rw [List.nil_append, flipRay, if_pos hlast]
      funext x
      rw [if_neg List.not_mem_nil]
    | cons first run ih =>
      intro board hnodup hlast hall
      obtain ⟨hfirst, hnodup⟩ := List.nodup_cons.1 hnodup
      obtain ⟨hhead, hall⟩ := List.forall_mem_cons.1 hall
      -- the first square is not met again, so the rest of the walk sees the board as it was
      have hlast' : Function.update board first own last = own := by
        rw [Function.update_apply]
        split
        · rfl
        · exact hlast
      have hall' : ∀ x ∈ run, Function.update board first own x ≠ own := by
        intro x hx
        have hother : x ≠ first := fun heq => hfirst (heq ▸ List.mem_append_left _ hx)
        rw [Function.update_of_ne hother]
        exact hall x hx
      rw [List.cons_append, flipRay, if_neg hhead, ih _ hnodup hlast' hall']
      funext x
      by_cases hx : x = first
      · subst hx
        rw [if_pos List.mem_cons_self, Function.update_self, ite_self]
      · rw [Function.update_of_ne hx]
        have hmem : x ∈ first :: run ↔ x ∈ run := by
          rw [List.mem_cons]
          exact or_iff_right hx
        simp only [hmem]
  exact key run board hnodup hlast fun x hx => by
    rw [h.opponents x hx]
    exact hne.symm

/-- The rays do not meet, so each direction sees the discs as they were before the move. -/
theorem foldl_flipRay {board : Board} {own opp : Int} (hne : own ≠ opp) {sq : Square}
    {dirs : List (Int × Int)} {run : Int × Int → List Square}
    (hnodup : ∀ d ∈ dirs, (ray sq d).Nodup)
    (hdisjoint : dirs.Pairwise fun d d' => (ray sq d).Disjoint (ray sq d'))
    (hcloses : ∀ d ∈ dirs, Closes board own opp (ray sq d) (run d)) (x : Square) :
    dirs.foldl (fun board d => flipRay own (ray sq d) board) board x
      = if ∃ d ∈ dirs, x ∈ run d then own else board x := by
  -- the rays are disjoint, so a flip along one leaves what closes along the others
  induction dirs generalizing board with
  | nil =>
    rw [List.foldl_nil, if_neg]
    rintro ⟨d, hd, -⟩
    exact List.not_mem_nil hd
  | cons d dirs ih =>
    obtain ⟨hd, hrest⟩ := List.forall_mem_cons.1 hcloses
    obtain ⟨hapart, hdisjoint⟩ := List.pairwise_cons.1 hdisjoint
    obtain ⟨hnodupd, hnodup⟩ := List.forall_mem_cons.1 hnodup
    have hflip := flipRay_eq hne hnodupd hd
    have hsub : ∀ y ∈ run d, y ∈ ray sq d := by
      intro y hy
      obtain ⟨last, rest, hsplit, -⟩ := hd.split
      rw [hsplit]
      exact List.mem_append_left _ hy
    have hcloses' : ∀ d' ∈ dirs, Closes (flipRay own (ray sq d) board) own opp (ray sq d')
        (run d') := by
      intro d' hd'
      refine (hrest d' hd').congr fun y hy => ?_
      rw [hflip]
      exact if_neg fun hmem => hapart d' hd' (hsub y hmem) hy
    rw [List.foldl_cons, ih hnodup hdisjoint hcloses', hflip]
    by_cases hlater : ∃ d' ∈ dirs, x ∈ run d'
    · obtain ⟨d', hd', hx⟩ := hlater
      rw [if_pos ⟨d', hd', hx⟩, if_pos ⟨d', List.mem_cons_of_mem _ hd', hx⟩]
    · rw [if_neg hlater]
      have hiff : (∃ d' ∈ d :: dirs, x ∈ run d') ↔ x ∈ run d := by
        constructor
        · rintro ⟨d', hd', hx⟩
          rcases List.mem_cons.1 hd' with rfl | hd'
          · exact hx
          · exact absurd ⟨d', hd', hx⟩ hlater
        · intro hx
          exact ⟨d, List.mem_cons_self, hx⟩
      simp only [hiff]

theorem foldl_addDirection {s : OthelloState} {sq : Square} (dirs : List (Int × Int))
    (found : Nat × List (Int × Int)) :
    dirs.foldl (addDirection s sq) found
    = (found.1 + (dirs.map fun d => (bracketed s.board s.own s.opp (ray sq d) 0).getD 0).sum,
        found.2 ++ dirs.filter fun d => (bracketed s.board s.own s.opp (ray sq d) 0).isSome) := by
  induction dirs generalizing found with
  | nil => simp
  | cons d dirs ih =>
    rw [List.foldl_cons, ih, List.map_cons, List.filter_cons]
    unfold addDirection
    cases hd : bracketed s.board s.own s.opp (ray sq d) 0 with
    | none => simp
    | some count => simp [Nat.add_assoc]

theorem wouldFlip_dirs {s : OthelloState} {sq : Square} (hempty : s.board sq = 0) :
    (wouldFlip s sq).2
      = directions.filter fun d => (bracketed s.board s.own s.opp (ray sq d) 0).isSome := by
  unfold wouldFlip
  rw [if_neg (not_not.2 hempty), foldl_addDirection]
  rfl

theorem wouldFlip_pos_iff {s : OthelloState} {sq : Square} (hne : s.own ≠ s.opp)
    (hempty : s.board sq = 0) : 0 < (wouldFlip s sq).1 ↔ ∃ x, Bracketed s sq x := by
  have hsum : (wouldFlip s sq).1
      = (directions.map fun d => (bracketed s.board s.own s.opp (ray sq d) 0).getD 0).sum := by
    unfold wouldFlip
    rw [if_neg (not_not.2 hempty), foldl_addDirection]
    exact Nat.zero_add _
  rw [hsum, List.sum_pos_iff_exists_pos_nat]
  constructor
  · rintro ⟨total, hmem, hpos⟩
    obtain ⟨d, hd, rfl⟩ := List.mem_map.1 hmem
    cases hfound : bracketed s.board s.own s.opp (ray sq d) 0 with
    | none =>
      rw [hfound] at hpos
      exact absurd hpos (lt_irrefl 0)
    | some total =>
      obtain ⟨run, hcloses⟩ := (bracketed_isSome_iff hne).1 (Option.isSome_iff_exists.2 ⟨_, hfound⟩)
      obtain ⟨x, hx⟩ := List.exists_mem_of_ne_nil run hcloses.nonempty
      exact ⟨x, bracketed_iff.2 ⟨d, hd, run, hcloses, hx⟩⟩
  · rintro ⟨x, hx⟩
    obtain ⟨d, hd, run, hcloses, -⟩ := bracketed_iff.1 hx
    obtain ⟨total, htotal⟩ := Option.isSome_iff_exists.1
        ((bracketed_isSome_iff hne).2 ⟨run, hcloses⟩)
    obtain ⟨-, -, -, -, -, -, -, hpos⟩ := (bracketed_eq_some_iff hne).1 htotal
    exact ⟨total, List.mem_map.2 ⟨d, hd, by rw [htotal]; rfl⟩, hpos⟩

/-! ## Positions of play -/

/-- One of the two players is to move, and the board holds their discs only. -/
structure Playing (s : OthelloState) : Prop where
  side : s.sideToMove = 0 ∨ s.sideToMove = 1
  discs : ∀ x, s.board x = 0 ∨ s.board x = 1 ∨ s.board x = 2

theorem Playing.own_opp {s : OthelloState} (h : Playing s) :
    (s.own = 1 ∧ s.opp = 2) ∨ (s.own = 2 ∧ s.opp = 1) := by
  unfold OthelloState.own OthelloState.opp
  rcases h.side with hside | hside
  · rw [hside]
    exact .inl (by decide)
  · rw [hside]
    exact .inr (by decide)

theorem Playing.own_ne_opp {s : OthelloState} (h : Playing s) : s.own ≠ s.opp := by
  rcases h.own_opp with ⟨hown, hopp⟩ | ⟨hown, hopp⟩
  · omega
  · omega

theorem decode_encode {s : OthelloState} (h : Playing s) : decode (encode s) = s := by
  have hboard : (decode (encode s)).board = s.board := by
    funext x
    have hbyte : (encode s).opaquePayload.byte x = i8Byte (s.board x) := by
      have hx := x.isLt
      unfold Payload.byte opaquePayloadLen
      rw [dif_pos (by omega)]
      exact dif_pos hx
    show ((encode s).opaquePayload.byte x).toInt = s.board x
    rw [hbyte, toInt_i8Byte]
    rcases h.discs x with hx | hx | hx
    · omega
    · omega
    · omega
  show OthelloState.mk (decode (encode s)).board s.sideToMove s.moveNumber = s
  rw [hboard]

/-- The discs on a board. -/
def discs (board : Board) : Nat := (List.finRange 64).countP fun sq => board sq ≠ 0

/-- A place flips the bracketed runs and nothing else. -/
structure Places (s s' : OthelloState) (sq : Square) : Prop where
  empty : s.board sq = 0
  placed : s'.board sq = s.own
  flipped : ∀ x, Bracketed s sq x → s.board x = s.opp ∧ s'.board x = s.own
  kept : ∀ x, x ≠ sq → ¬ Bracketed s sq x → s'.board x = s.board x
  some_flipped : ∃ x, Bracketed s sq x
  side : s'.sideToMove = flipSide s.sideToMove

theorem bracketed_opp {s : OthelloState} {sq x : Square} (h : Bracketed s sq x) :
    s.board x = s.opp := by
  obtain ⟨d, -, run, hcloses, hx⟩ := bracketed_iff.1 h
  exact hcloses.opponents x hx

theorem apply_places {s : OthelloState} (h : Playing s) {sq : Square} (hempty : s.board sq = 0)
    (hsome : ∃ x, Bracketed s sq x) :
    ∃ s', applyOthelloAction s (placeAction sq) = some s' ∧ Places s s' sq := by
  have hne := h.own_ne_opp
  let start : Board := Function.update s.board sq s.own
  -- the directions that the source collects, each with the discs that turn along it
  let dirs := directions.filter fun d => (bracketed s.board s.own s.opp (ray sq d) 0).isSome
  let run : Int × Int → List Square := fun d => (ray sq d).takeWhile fun x => s.board x = s.opp
  have hdirs : ∀ d, d ∈ dirs ↔ d ∈ directions
      ∧ ∃ run, Closes s.board s.own s.opp (ray sq d) run := by
    intro d
    rw [List.mem_filter, bracketed_isSome_iff hne]
  have hrun : ∀ d run', Closes s.board s.own s.opp (ray sq d) run' → run d = run' :=
    fun d run' hcloses => hcloses.takeWhile hne
  -- the placed disc lies on no ray from its own square
  have hcloses : ∀ d ∈ dirs, Closes start s.own s.opp (ray sq d) (run d) := by
    intro d hd
    obtain ⟨hray, run', hcloses⟩ := (hdirs d).1 hd
    rw [hrun d run' hcloses]
    refine hcloses.congr fun x hx => Function.update_of_ne ?_ _ _
    intro heq
    exact not_mem_ray hray (heq ▸ hx)
  have hboard := foldl_flipRay hne (fun d hd => nodup_ray ((hdirs d).1 hd).1)
    ((disjoint_rays sq).sublist List.filter_sublist) hcloses
  have hflips : ∀ x, (∃ d ∈ dirs, x ∈ run d) ↔ Bracketed s sq x := by
    intro x
    rw [bracketed_iff]
    constructor
    · rintro ⟨d, hd, hx⟩
      obtain ⟨hd, run', hcloses⟩ := (hdirs d).1 hd
      exact ⟨d, hd, run', hcloses, hrun d run' hcloses ▸ hx⟩
    · rintro ⟨d, hd, run', hcloses, hx⟩
      exact ⟨d, (hdirs d).2 ⟨hd, run', hcloses⟩, (hrun d run' hcloses).symm ▸ hx⟩
  have hsq : 0 ≤ (placeAction sq).toNode ∧ (placeAction sq).toNode < 64 := by
    have hlt := sq.isLt
    show 0 ≤ (sq.val : Int) ∧ (sq.val : Int) < 64
    omega
  refine ⟨⟨dirs.foldl (fun board d => flipRay s.own (ray sq d) board) start,
    flipSide s.sideToMove, s.moveNumber + 1⟩, ?_, ?_⟩
  · unfold applyOthelloAction
    rw [dif_pos hsq]
    have hindex : (⟨(placeAction sq).toNode.toNat, by omega⟩ : Square) = sq := rfl
    simp only [hindex, wouldFlip_dirs hempty]
    rfl
  · refine ⟨hempty, ?_, ?_, ?_, hsome, rfl⟩
    · show dirs.foldl _ start sq = s.own
      rw [hboard, if_neg]
      · exact Function.update_self ..
      rw [hflips]
      -- the square itself was empty, so no direction brackets it
      intro hself
      have hopp := bracketed_opp hself
      rcases h.own_opp with ⟨-, heq⟩ | ⟨-, heq⟩
      · omega
      · omega
    · intro x hx
      refine ⟨bracketed_opp hx, ?_⟩
      show dirs.foldl _ start x = s.own
      rw [hboard, if_pos ((hflips x).2 hx)]
    · intro x hother hx
      show dirs.foldl _ start x = s.board x
      rw [hboard, if_neg (mt (hflips x).1 hx)]
      exact Function.update_of_ne hother ..

theorem Places.playing {s s' : OthelloState} {sq : Square} (h : Places s s' sq) (hs : Playing s) :
    Playing s' where
  side := by
    rw [h.side]
    rcases hs.side with hside | hside
    · rw [hside]
      exact .inr (by decide)
    · rw [hside]
      exact .inl (by decide)
  discs := by
    intro x
    have hown : s.own = 0 ∨ s.own = 1 ∨ s.own = 2 := by
      rcases hs.own_opp with ⟨hown, -⟩ | ⟨hown, -⟩
      · omega
      · omega
    by_cases hx : x = sq
    · rw [hx, h.placed]
      exact hown
    · by_cases hflip : Bracketed s sq x
      · rw [(h.flipped x hflip).2]
        exact hown
      · rw [h.kept x hx hflip]
        exact hs.discs x

/-- One square more has a disc. -/
theorem Places.discs_succ {s s' : OthelloState} {sq : Square} (h : Places s s' sq)
    (hs : Playing s) :
    discs s'.board = discs s.board + 1 := by
  have hown : s.own ≠ 0 ∧ s.opp ≠ 0 := by
    rcases hs.own_opp with ⟨hown, hopp⟩ | ⟨hown, hopp⟩
    · omega
    · omega
  -- a turned disc stays a disc; only the placed square changes from empty
  have hsame : ∀ x, x ≠ sq → (s'.board x ≠ 0 ↔ s.board x ≠ 0) := by
    intro x hx
    by_cases hflip : Bracketed s sq x
    · obtain ⟨hbefore, hafter⟩ := h.flipped x hflip
      rw [hbefore, hafter]
      exact iff_of_true hown.1 hown.2
    · rw [h.kept x hx hflip]
  have key : ∀ l : List Square, l.Nodup →
      l.countP (fun x => s'.board x ≠ 0)
        = l.countP (fun x => s.board x ≠ 0) + if sq ∈ l then 1 else 0 := by
    intro l hnodup
    induction l with
    | nil => rfl
    | cons x l ih =>
      obtain ⟨hx, hnodup⟩ := List.nodup_cons.1 hnodup
      rw [List.countP_cons, List.countP_cons, ih hnodup]
      by_cases hsq : x = sq
      · subst hsq
        have hbefore : ¬ s.board x ≠ 0 := not_not.2 h.empty
        have hafter : s'.board x ≠ 0 := h.placed.symm ▸ hown.1
        rw [if_neg hx, if_pos List.mem_cons_self, if_pos (decide_eq_true hafter),
          if_neg (mt of_decide_eq_true hbefore)]
      · have hmem : sq ∈ x :: l ↔ sq ∈ l := by
          rw [List.mem_cons]
          exact or_iff_right fun heq => hsq heq.symm
        simp only [hmem, hsame x hsq]
        omega
  have hcount := key (List.finRange 64) (List.nodup_finRange 64)
  rwa [if_pos (List.mem_finRange sq)] at hcount

theorem mem_legalActionsFor_iff {s : OthelloState} (h : Playing s) {action : Action} :
    action ∈ legalActionsFor s
      ↔ ∃ sq, action = placeAction sq ∧ s.board sq = 0 ∧ ∃ x, Bracketed s sq x := by
  unfold legalActionsFor
  rw [List.mem_map]
  constructor
  · rintro ⟨sq, hsq, rfl⟩
    obtain ⟨hempty, hflip⟩ := of_decide_eq_true (List.mem_filter.1 hsq).2
    exact ⟨sq, rfl, hempty, (wouldFlip_pos_iff h.own_ne_opp hempty).1 hflip⟩
  · rintro ⟨sq, rfl, hempty, hsome⟩
    refine ⟨sq, List.mem_filter.2 ⟨List.mem_finRange sq, decide_eq_true ⟨hempty, ?_⟩⟩, rfl⟩
    exact (wouldFlip_pos_iff h.own_ne_opp hempty).2 hsome

/-! ## Play -/

/-- A snapshot and a workbench after `n` legal actions from the initial state. -/
inductive Reach : GameStateSnapshot → OthelloWorkbench → Nat → Prop where
  | start : Reach initialState (.build initialState) 0
  | step {snap snap' : GameStateSnapshot} {wb wb' : OthelloWorkbench} {n : Nat} {action : Action} :
    Reach snap wb n → action ∈ legalActions snap → apply snap action = some snap' →
      wb.doMove action = some wb' → Reach snap' wb' (n + 1)

theorem playing_default : Playing .default where
  side := .inl rfl
  discs := by decide

/-- The rules and the workbench are in one state, and each action has added a disc. -/
structure Follows (snap : GameStateSnapshot) (wb : OthelloWorkbench) (n : Nat) : Prop where
  playing : Playing wb.state
  snapshot : snap = encode wb.state
  discs : discs wb.state.board = 4 + n

theorem Follows.decode_eq {snap : GameStateSnapshot} {wb : OthelloWorkbench} {n : Nat}
    (h : Follows snap wb n) : decode snap = wb.state := by
  rw [h.snapshot, decode_encode h.playing]

theorem Reach.follows {snap : GameStateSnapshot} {wb : OthelloWorkbench} {n : Nat}
    (h : Reach snap wb n) : Follows snap wb n := by
  induction h with
  | start =>
    have hstate : (OthelloWorkbench.build initialState).state = .default :=
      decode_encode playing_default
    refine ⟨hstate ▸ playing_default, ?_, ?_⟩
    · rw [hstate]
      rfl
    · rw [hstate]
      decide
  | @step snap snap' wb wb' n action _ hlegal happly hmove ih =>
    unfold legalActions at hlegal
    rw [ih.decode_eq] at hlegal
    obtain ⟨sq, rfl, hempty, hsome⟩ := (mem_legalActionsFor_iff ih.playing).1 hlegal
    obtain ⟨s', hplace, hplaces⟩ := apply_places ih.playing hempty hsome
    unfold apply at happly
    rw [ih.decode_eq, hplace] at happly
    unfold OthelloWorkbench.doMove at hmove
    rw [hplace] at hmove
    obtain rfl := Option.some.inj happly
    obtain rfl := Option.some.inj hmove
    refine ⟨hplaces.playing ih.playing, rfl, ?_⟩
    show discs s'.board = 4 + (n + 1)
    rw [hplaces.discs_succ ih.playing, ih.discs]
    rfl

/-- A square is empty, and the player to move brackets nothing from any. -/
def Blocked (s : OthelloState) : Prop :=
  (∃ sq, s.board sq = 0) ∧ ∀ sq, s.board sq = 0 → ¬∃ x, Bracketed s sq x

theorem legalActionsFor_eq_nil_iff {s : OthelloState} (h : Playing s) :
    legalActionsFor s = [] ↔ ∀ sq, s.board sq = 0 → ¬∃ x, Bracketed s sq x := by
  rw [List.eq_nil_iff_forall_not_mem]
  constructor
  · intro hnone sq hempty hsome
    exact hnone _ ((mem_legalActionsFor_iff h).2 ⟨sq, rfl, hempty, hsome⟩)
  · intro hnone action hmem
    obtain ⟨sq, -, hempty, hsome⟩ := (mem_legalActionsFor_iff h).1 hmem
    exact hnone sq hempty hsome

theorem outcome_ongoing_iff {snap : GameStateSnapshot} :
    (outcome snap).kind = .ongoing ↔ ∃ sq, (decode snap).board sq = 0 := by
  have hcount : 0 < countOn (decode snap).board 0 ↔ ∃ sq, (decode snap).board sq = 0 := by
    unfold countOn
    rw [List.countP_pos_iff]
    constructor
    · rintro ⟨sq, -, hsq⟩
      exact ⟨sq, of_decide_eq_true hsq⟩
    · rintro ⟨sq, hsq⟩
      exact ⟨sq, List.mem_finRange sq, decide_eq_true hsq⟩
  rw [← hcount]
  unfold outcome
  by_cases hempty : 0 < countOn (decode snap).board 0
  · rw [if_pos hempty]
    exact iff_of_true rfl hempty
  · rw [if_neg hempty]
    refine iff_of_false ?_ hempty
    split
    · intro h
      cases h
    · split
      · intro h
        cases h
      · intro h
        cases h

/-- The rules call a position over exactly where no action is left, unless it is blocked. -/
theorem Follows.over_iff {snap : GameStateSnapshot} {wb : OthelloWorkbench} {n : Nat}
    (h : Follows snap wb n) :
    ((outcome snap).kind ≠ .ongoing ↔ legalActions snap = []) ↔ ¬ Blocked (decode snap) := by
  unfold legalActions
  rw [ne_eq, outcome_ongoing_iff, legalActionsFor_eq_nil_iff (h.decode_eq ▸ h.playing)]
  unfold Blocked
  constructor
  · rintro hover ⟨hempty, hnone⟩
    exact hover.2 hnone hempty
  · intro hblocked
    constructor
    · intro hfull sq hempty
      exact absurd ⟨sq, hempty⟩ hfull
    · intro hnone hempty
      exact hblocked ⟨hempty, hnone⟩

/-- Legal places, one after the other. -/
def playOut (s : OthelloState) : List Square → Option OthelloState
  | [] => some s
  | sq :: rest =>
    if placeAction sq ∈ legalActionsFor s then
      (applyOthelloAction s (placeAction sq)).bind fun s' => playOut s' rest
    else none

theorem reach_playOut {s s' : OthelloState} {wb : OthelloWorkbench} {n : Nat}
    (h : Reach (encode s) wb n) (hstate : wb.state = s) {squares : List Square}
    (hplay : playOut s squares = some s') :
    ∃ wb', Reach (encode s') wb' (n + squares.length) ∧ wb'.state = s' := by
  induction squares generalizing s wb n with
  | nil =>
    obtain rfl := Option.some.inj hplay
    exact ⟨wb, h, hstate⟩
  | cons sq rest ih =>
    unfold playOut at hplay
    split at hplay
    · rename_i hlegal
      obtain ⟨middle, happly, hrest⟩ := Option.bind_eq_some_iff.1 hplay
      have hdecode : decode (encode s) = s := hstate ▸ decode_encode h.follows.playing
      have hstep : Reach (encode middle) ⟨middle, wb.state :: wb.undoStack⟩ (n + 1) := by
        refine @Reach.step _ _ _ _ _ (placeAction sq) h ?_ ?_ ?_
        · unfold legalActions
          rwa [hdecode]
        · unfold apply
          rw [hdecode, happly]
          rfl
        · unfold OthelloWorkbench.doMove
          rw [hstate, happly]
          rfl
      obtain ⟨wb', hreach, hstate'⟩ := ih hstep rfl hrest
      rw [Nat.add_assoc, Nat.add_comm 1] at hreach
      exact ⟨wb', hreach, hstate'⟩
    · cases hplay

/-- Eight actions that leave the first player without any. -/
def blockingPlay : List Square := [19, 18, 17, 9, 37, 16, 0, 2]

/-- What the rules, the search and the board promise of a position. -/
structure Consistent (snap : GameStateSnapshot) (wb : OthelloWorkbench) (n : Nat) : Prop where
  decided : (outcome snap).kind ≠ .ongoing ↔ legalActions snap = []
  search : legalActions snap = [] ↔ wb.isTerminal = true
  rebuilt : legalActions snap = [] ↔ (OthelloWorkbench.build snap).isTerminal = true
  places : ∀ action ∈ legalActions snap, ∃ sq snap' wb',
    action = placeAction sq ∧ apply snap action = some snap' ∧ wb.doMove action = some wb'
      ∧ wb'.snapshot = snap' ∧ wb'.undoMove = wb ∧ Places (decode snap) (decode snap') sq
  discs : discs (decode snap).board = 4 + n

/-- **What is promised of a reachable position holds unless its mover is blocked.** -/
theorem consistent_iff {snap : GameStateSnapshot} {wb : OthelloWorkbench} {n : Nat}
    (h : Reach snap wb n) : Consistent snap wb n ↔ ¬ Blocked (decode snap) := by
  have hfollows := h.follows
  constructor
  · intro hconsistent
    exact hfollows.over_iff.1 hconsistent.decided
  · intro hblocked
    refine ⟨hfollows.over_iff.2 hblocked, ?_, ?_, ?_, ?_⟩
    · unfold legalActions OthelloWorkbench.isTerminal
      rw [hfollows.decode_eq, List.isEmpty_iff]
    · unfold legalActions OthelloWorkbench.isTerminal OthelloWorkbench.build
      rw [List.isEmpty_iff]
    · intro action hmem
      unfold legalActions at hmem
      rw [hfollows.decode_eq] at hmem
      obtain ⟨sq, rfl, hempty, hsome⟩ := (mem_legalActionsFor_iff hfollows.playing).1 hmem
      obtain ⟨s', happly, hplaces⟩ := apply_places hfollows.playing hempty hsome
      refine ⟨sq, encode s', ⟨s', wb.state :: wb.undoStack⟩, rfl, ?_, ?_, rfl, rfl, ?_⟩
      · unfold apply
        rw [hfollows.decode_eq, happly]
        rfl
      · unfold OthelloWorkbench.doMove
        rw [happly]
        rfl
      · rw [hfollows.decode_eq, decode_encode (hplaces.playing hfollows.playing)]
        exact hplaces
    · rw [hfollows.decode_eq]
      exact hfollows.discs

/-- The theorem one place before the block. -/
theorem consistent_sevenPlaced : ∃ s wb,
    playOut .default (blockingPlay.take 7) = some s ∧ Reach (encode s) wb 7
      ∧ Consistent (encode s) wb 7 := by
  have hcheck : (playOut .default (blockingPlay.take 7)).map (fun s =>
      decide (legalActionsFor s ≠ [])) = some true := by decide +kernel
  obtain ⟨s, hplay, hlegal⟩ := Option.map_eq_some_iff.1 hcheck
  have hstart : Reach (encode .default) (.build initialState) 0 := .start
  obtain ⟨wb, hreach, hstate⟩ := reach_playOut hstart (decode_encode playing_default) hplay
  refine ⟨s, wb, hplay, hreach, (consistent_iff hreach).2 fun hblocked => ?_⟩
  have hfollows := hreach.follows
  have hplaying : Playing s := hstate ▸ hfollows.playing
  rw [hfollows.decode_eq, hstate] at hblocked
  exact absurd ((legalActionsFor_eq_nil_iff hplaying).2 hblocked.2) (of_decide_eq_true hlegal)

theorem consistent_blocked :
    ¬∀ (snap : GameStateSnapshot) (wb : OthelloWorkbench) (n : Nat), Reach snap wb n →
      Consistent snap wb n := by
  intro hclaim
  have hcheck : (playOut .default blockingPlay).map (fun s =>
      decide (legalActionsFor s = [] ∧ ∃ sq, s.board sq = 0)) = some true := by decide +kernel
  obtain ⟨s, hplay, hblocked⟩ := Option.map_eq_some_iff.1 hcheck
  obtain ⟨hnone, hempty⟩ := of_decide_eq_true hblocked
  have hstart : Reach (encode .default) (.build initialState) 0 := .start
  obtain ⟨wb, hreach, hstate⟩ := reach_playOut hstart (decode_encode playing_default) hplay
  have hfollows := hreach.follows
  refine hfollows.over_iff.1 (hclaim _ wb _ hreach).decided ?_
  rw [hfollows.decode_eq, hstate]
  exact ⟨hempty, (legalActionsFor_eq_nil_iff (hstate ▸ hfollows.playing)).1 hnone⟩

end Sanmill.Othello
