import Sanmill.Proof.Search.Exactness

/-!
# The MTD(f) driver

MTD(f) closes in on a value from both sides with zero-window probes. Two facts
are about the loop alone, over any probe: every probe after the first narrows the
bounds whatever it answers, so the loop ends; and when each answer is a sound
bound, the bounds can only meet at the value itself.

The move is another matter. It is the move of the last probe that failed high by
searching the root; a probe answered from the table moves the bounds and leaves
the move where it was.
-/

namespace Sanmill

namespace Searcher

variable {W : Type} {g : Game W}

/-! ## Termination -/

/-- From every state in `P` the probe comes back, with a score of type `i32`, to a state in `P`. -/
def Answers (probe : Int → Action → Searcher → W → Run W (Int × Action))
    (P : Searcher → W → Prop) : Prop :=
  ∀ beta action s wb, P s wb → ∃ v action' s' wb',
    probe beta action s wb = some ((v, action'), s', wb') ∧ i32Min ≤ v ∧ v ≤ i32Max ∧ P s' wb'

/-- A probe from one of the two bounds shrinks the gap, or closes it. -/
theorem mtdfLoop_closes {probe : Int → Action → Searcher → W → Run W (Int × Action)}
    {P : Searcher → W → Prop} (hprobe : Answers probe P) {fuel : Nat} (gap : Nat)
    (hfuel : gap < fuel)
    {guess lower upper : Int} {action : Action} {s : Searcher} {wb : W} (hP : P s wb)
    (hguess : guess = lower ∨ guess = upper) (hgap : upper - lower ≤ gap)
    (hlower : i32Min ≤ lower) (hupper : upper ≤ i32Max) :
    (mtdfLoop probe fuel guess lower upper action s wb).isSome := by
  induction gap generalizing fuel guess lower upper action s wb with
  | zero =>
    obtain ⟨fuel, rfl⟩ : ∃ k, fuel = k + 1 := ⟨fuel - 1, by omega⟩
    unfold mtdfLoop
    rw [if_neg (by omega)]
    rfl
  | succ gap ih =>
    obtain ⟨fuel, rfl⟩ : ∃ k, fuel = k + 1 := ⟨fuel - 1, by omega⟩
    unfold mtdfLoop
    by_cases hopen : lower < upper
    · rw [if_pos hopen]
      have hnext : guess = lower → wrapI32 (guess + 1) = lower + 1 := by
        rintro rfl
        exact wrapI32_of_range (by omega) (by omega)
      -- at the lower bound the probe asks for more than it, at the upper bound for all of it
      obtain ⟨beta, hbeta, hwhere⟩ : ∃ beta, (if guess = lower then wrapI32 (guess + 1) else guess)
          = beta ∧ (beta = lower + 1 ∨ beta = upper) := by
        by_cases h : guess = lower
        · exact ⟨_, rfl, .inl (by rw [if_pos h, hnext h])⟩
        · exact ⟨_, rfl, .inr (by rw [if_neg h]; exact hguess.resolve_left h)⟩
      obtain ⟨v, action', t, tb, hrun, hlo, hhi, hPt⟩ := hprobe beta action s wb hP
      simp only [hbeta, hrun]
      split
      · rfl
      · by_cases hlow : v < beta
        · simp only [if_pos hlow]
          exact ih (by omega) hPt (.inr rfl) (by omega) hlower hhi
        · simp only [if_neg hlow]
          exact ih (by omega) hPt (.inl rfl) (by omega) hlo hupper
    · rw [if_neg hopen]
      rfl

/-- **The loop ends**, within as many probes as there are scores, whatever they answer. -/
theorem mtdfLoop_returns {probe : Int → Action → Searcher → W → Run W (Int × Action)}
    {P : Searcher → W → Prop} (hprobe : Answers probe P) (guess : Int) (action : Action)
    {s : Searcher} {wb : W} (hP : P s wb) :
    (mtdfLoop probe (2 ^ 32 + 1) guess (i32Min + 1) (i32Max - 1) action s wb).isSome := by
  rw [mtdfLoop, if_pos floor_lt_ceiling]
  generalize (if guess = i32Min + 1 then wrapI32 (guess + 1) else guess) = beta
  obtain ⟨v, action', t, tb, hrun, hlo, hhi, hPt⟩ := hprobe beta action s wb hP
  have hrange : i32Max - i32Min = 2 ^ 32 - 1 := by decide
  simp only [hrun]
  split
  · rfl
  · by_cases hlow : v < beta
    · simp only [if_pos hlow]
      exact mtdfLoop_closes hprobe (2 ^ 32 - 1) (by omega) hPt (.inr rfl) (by omega)
        (by omega) hhi
    · simp only [if_neg hlow]
      exact mtdfLoop_closes hprobe (2 ^ 32 - 1) (by omega) hPt (.inl rfl) (by omega)
        hlo (by omega)

/-! ## The score -/

/-- The probe's answer is a bound of `m` on the side of `beta` it is on. -/
structure MtdfRow.Sound (m : Int) (row : MtdfRow) : Prop where
  low : row.value < row.beta → m ≤ row.value
  high : row.beta ≤ row.value → row.value ≤ m

/-- Sound bounds meet at the value. -/
theorem mtdfLoop_score {probe : Int → Action → Searcher → W → Run W (Int × Action)}
    {m : Int} {fuel : Nat} {guess lower upper : Int} {action : Action} {s : Searcher} {wb : W}
    {v : Int} {bestAction : Action} {s' : Searcher} {wb' : W}
    (hrun : mtdfLoop probe fuel guess lower upper action s wb = some ((v, bestAction), s', wb'))
    (hquiet : s'.aborted = false)
    (hsound : ∀ row ∈ mtdfRows probe fuel guess lower upper action s wb, row.Sound m)
    (hlower : lower ≤ m) (hupper : m ≤ upper)
    (hguess : lower < upper ∨ guess = lower ∨ guess = upper) : v = m := by
  -- the value lies between the bounds; every probe that is sound moves one of them to it
  induction fuel generalizing guess lower upper action s wb with
  | zero => cases hrun
  | succ fuel ih =>
    unfold mtdfLoop at hrun
    unfold mtdfRows at hsound
    by_cases hopen : lower < upper
    · rw [if_pos hopen] at hrun hsound
      generalize (if guess = lower then wrapI32 (guess + 1) else guess) = beta at hrun hsound
      simp only at hrun hsound
      cases hprobe : probe beta action s wb with
      | none => rw [hprobe] at hrun; cases hrun
      | some answer =>
        obtain ⟨⟨w, action'⟩, t, tb⟩ := answer
        simp only [hprobe] at hrun hsound
        cases hab : t.aborted with
        | true =>
          simp only [hab, if_true] at hrun
          obtain ⟨-, rfl, -⟩ := by simpa using hrun
          exact absurd (hab.symm.trans hquiet) (by simp)
        | false =>
          simp only [hab, Bool.false_eq_true, if_false] at hrun hsound
          have hrow := hsound _ (List.mem_cons_self ..)
          have hrest := fun row hmem => hsound row (List.mem_cons_of_mem _ hmem)
          by_cases hlow : w < beta
          · simp only [if_pos hlow] at hrun hrest
            exact ih hrun hrest hlower (hrow.low hlow) (.inr (.inr rfl))
          · simp only [if_neg hlow] at hrun hrest
            exact ih hrun hrest (hrow.high (by simp only; omega)) hupper (.inr (.inl rfl))
    -- the bounds have met, and the guess is one of them
    · rw [if_neg hopen] at hrun
      obtain ⟨⟨rfl, -⟩, -, -⟩ := by simpa using hrun
      rcases hguess with h | h | h <;> omega

/-! ## The root probe -/

/-- In a zero window the table either answers or leaves the window alone. -/
theorem probeTt_zeroWindow (s : Searcher) (key : BitVec 64) (depth beta : Int)
    (h : ∀ v, (s.probeTt g key depth (beta - 1) beta).probe ≠ .cutoff v) :
    (s.probeTt g key depth (beta - 1) beta).alpha = beta - 1
      ∧ (s.probeTt g key depth (beta - 1) beta).beta = beta := by
  unfold probeTt at h ⊢
  cases hentry : (s.tt.probeEntryAtAge key depth s.ttAge).valueBound with
  | none => simp [hentry]
  | some entry =>
    obtain ⟨value, bound⟩ := entry
    simp only [hentry] at h ⊢
    cases bound with
    | exact => exact absurd rfl (h value)
    | lower =>
      simp only at h ⊢
      by_cases hcut : beta ≤ max (beta - 1) value
      · exact absurd (if_pos hcut) (h value)
      · simp only [and_true]
        omega
    | upper =>
      simp only at h ⊢
      by_cases hcut : min beta value ≤ beta - 1
      · exact absurd (if_pos hcut) (h value)
      · simp only [true_and]
        omega

/-- The move loop of a zero-window probe: failing low it keeps the move, failing high it ends on the
move that raised the score. -/
theorem mtdfRootLoop_cases {child : WindowSearch W} (hrestore : Restores child)
    {rootKey : BitVec 64} {beta : Int} {moves : List Action} {best v : Int}
    {action bestAction : Action} {s s' : Searcher} {wb wb' : W}
    (hundo : ∀ a ∈ moves, g.undoMove (g.doMove wb a) = wb) (hbest : best < beta)
    (hrun : mtdfRootLoop g child rootKey beta moves (beta - 1) best action s wb
      = some ((v, bestAction), s', wb')) :
    Kept s s' ∧ wb' = wb ∧ ((v < beta ∧ bestAction = action)
      ∨ (beta ≤ v ∧ bestAction ∈ moves ∧
        ∃ new cutShort, s'.journal = new ++ s.journal ∧ .chosen bestAction v cutShort ∈ new)) := by
  induction moves generalizing best s with
  | nil =>
    obtain ⟨⟨rfl, rfl⟩, rfl, rfl⟩ := by simpa [mtdfRootLoop] using hrun
    exact ⟨Kept.refl s, rfl, .inl ⟨hbest, rfl⟩⟩
  | cons move rest ih =>
    unfold mtdfRootLoop at hrun
    rcases hcheck : s.checkAbort best action with ⟨stop, t⟩
    obtain ⟨-, hkept⟩ := checkAbort_cases s hcheck
    simp only [hcheck] at hrun
    split at hrun
    · obtain ⟨⟨rfl, rfl⟩, rfl, rfl⟩ := by simpa using hrun
      exact ⟨hkept, rfl, .inl ⟨hbest, rfl⟩⟩
    split at hrun
    · cases hrun
    rename_i score x xb hmove
    obtain ⟨hsub, hxb, -⟩ := searchRootMove_cases (searchAfterMove_restoresChild hrestore _ _)
      (hundo move (List.mem_cons_self ..)) hmove
    subst xb
    have hhead := hkept.trans (hsub.trans
      (Kept.recordRootMove x move score (x.nodes - t.nodes) (decide (beta ≤ score))))
    generalize x.recordRootMove move score (x.nodes - t.nodes) (decide (beta ≤ score)) = y
      at hrun hhead
    split at hrun
    · -- above `beta - 1`: this is the cutoff
      rename_i hraise
      rw [if_pos (by omega)] at hrun
      obtain ⟨⟨rfl, rfl⟩, rfl, rfl⟩ := by simpa using hrun
      obtain ⟨new, hnew⟩ := hhead.journal
      refine ⟨hhead.trans (Kept.note y _), rfl, .inr ⟨by omega, List.mem_cons_self ..,
        .chosen move score y.struck :: new, y.struck, ?_, List.mem_cons_self ..⟩⟩
      rw [List.cons_append, hnew]
      rfl
    · rename_i hno
      obtain ⟨hloop, hwb, hcases⟩ := ih (fun a ha => hundo a (List.mem_cons_of_mem _ ha))
        (by omega) hrun
      refine ⟨hhead.trans hloop, hwb, ?_⟩
      rcases hcases with hlow | ⟨hhigh, hmem, new, cutShort, hnew, hchosen⟩
      · exact .inl hlow
      · obtain ⟨old, hold⟩ := hhead.journal
        refine .inr ⟨hhigh, List.mem_cons_of_mem _ hmem, new ++ old, cutShort, ?_,
          List.mem_append_left _ hchosen⟩
        rw [hnew, ← hold, List.append_assoc]

/-- What a probe of the root does with the move. -/
def ProbeMove (g : Game W) (depth beta v : Int) (action bestAction : Action) (s s' : Searcher)
    (wb : W) : Prop :=
  (v < beta → bestAction = action)
    ∧ (beta ≤ v → (∃ w, (s.probeTt g (g.key wb) depth (beta - 1) beta).probe = .cutoff w)
      ∨ (bestAction ∈ g.generateLegalCtx wb s.options.moveOrderContext
        ∧ ∃ new cutShort, s'.journal = new ++ s.journal ∧ .chosen bestAction v cutShort ∈ new))

/-- A probe the table did not answer, from the generation of the moves on. -/
theorem mtdfRootSearch_cases (law : g.Reversible) {fuel : Nat} {depth beta v : Int}
    {action bestAction : Action} {ttMove : Option Action} {s t s' : Searcher} {wb wb' : W}
    (hlo : i32Min + 1 < beta) (hready : Kept s t)
    (hrun : ((mtdfRootLoop g (alphaBeta g fuel (depth - 1)) (g.key wb) beta
        (promoteRootPvMove (t.orderMovesWithTtMove g wb (g.key wb)
          (g.generateLegalCtx wb t.options.moveOrderContext) ttMove) action)
        (beta - 1) (i32Min + 1) action t wb).map fun ((value, move), x, xb) =>
          ((value, move),
            x.closed.saveTt g (g.key wb) depth value (boundOf value (beta - 1) beta) move, xb))
      = some ((v, bestAction), s', wb')) :
    Kept s s' ∧ wb' = wb ∧ ProbeMove g depth beta v action bestAction s s' wb := by
  have hperm := (promoteRootPvMove_perm (t.orderMovesWithTtMove g wb (g.key wb)
      (g.generateLegalCtx wb t.options.moveOrderContext) ttMove) action).trans
    (orderMovesWithTtMove_perm g t wb (g.key wb)
      (g.generateLegalCtx wb t.options.moveOrderContext) ttMove)
  obtain ⟨⟨⟨w, move⟩, x, xb⟩, hloop, heq⟩ := Option.map_eq_some_iff.1 hrun
  obtain ⟨⟨rfl, rfl⟩, rfl, rfl⟩ := by simpa using heq
  obtain ⟨hkept, hwb, hcases⟩ := mtdfRootLoop_cases (alphaBeta_restores law fuel _)
    (fun a ha => law.legal wb _ a (hperm.mem_iff.1 ha)) hlo hloop
  have hsave := (Kept.closed x).trans
    (Kept.saveTt (g := g) x.closed (g.key wb) depth w (boundOf w (beta - 1) beta) move)
  refine ⟨(hready.trans hkept).trans hsave, hwb, ?_, ?_⟩
  -- below beta the old move stays, from beta on the move was chosen in this probe
  · intro hlow
    exact (hcases.resolve_right (by omega)).2
  · intro hhigh
    obtain ⟨-, hmem, new, cutShort, hnew, hchosen⟩ := hcases.resolve_left (by omega)
    obtain ⟨old, hold⟩ := hready.journal
    obtain ⟨top, htop⟩ := hsave.journal
    rw [← hready.options]
    refine .inr ⟨hperm.mem_iff.1 hmem, top ++ (new ++ old), cutShort, ?_,
      List.mem_append_right _ (List.mem_append_left _ hchosen)⟩
    rw [← htop, hnew, ← hold, List.append_assoc, List.append_assoc]

/-- **One probe of the root.** Failing low it keeps the move; failing high it was answered by the
table, or ends on a legal move whose own report is the score. -/
theorem mtdfRootTraced_cases (law : g.Reversible) {fuel : Nat} {depth beta v : Int}
    {action bestAction : Action} {s s' : Searcher} {wb wb' : W} (hlo : i32Min + 1 < beta)
    (hhi : beta ≤ i32Max)
    (hrun : mtdfRootTraced g fuel depth beta action s wb = some ((v, bestAction), s', wb')) :
    Kept s s' ∧ wb' = wb ∧ ProbeMove g depth beta v action bestAction s s' wb := by
  have hwrap : wrapI32 (beta - 1) = beta - 1 := wrapI32_of_range (by omega) (by omega)
  have hcount := Kept.countNode s
  have hsame : ({ s with nodes := s.nodes + 1 } : Searcher).probeTt g (g.key wb) depth (beta - 1)
      beta = s.probeTt g (g.key wb) depth (beta - 1) beta := rfl
  unfold mtdfRootTraced at hrun
  simp only [hwrap, hsame] at hrun
  cases hprobe : (s.probeTt g (g.key wb) depth (beta - 1) beta).probe with
  | cutoff w =>
    rw [hprobe] at hrun
    obtain ⟨⟨rfl, rfl⟩, rfl, rfl⟩ := by simpa using hrun
    exact ⟨hcount.trans (Kept.countTtHit _), rfl, fun _ => rfl, fun _ => .inl ⟨_, hprobe⟩⟩
  | hitNoCutoff =>
    obtain ⟨halpha, hbeta⟩ := probeTt_zeroWindow (g := g) s (g.key wb) depth beta (by simp [hprobe])
    simp only [hprobe, halpha, hbeta, if_true] at hrun
    exact mtdfRootSearch_cases law hlo
      (((hcount.trans (Kept.countTtHit _)).trans (Kept.clearRootMoves _)).trans
        (Kept.opened _ .probe)) hrun
  | miss =>
    obtain ⟨halpha, hbeta⟩ := probeTt_zeroWindow (g := g) s (g.key wb) depth beta (by simp [hprobe])
    simp only [hprobe, halpha, hbeta, reduceCtorEq, if_false] at hrun
    exact mtdfRootSearch_cases law hlo
      (((hcount.trans (Kept.countTtMiss _ _)).trans (Kept.clearRootMoves _)).trans
        (Kept.opened _ .probe)) hrun

/-! ## The move -/

/-- A failed-high probe that searched the root, instead of answering from the table. -/
def MtdfRow.Searched (g : Game W) (depth : Int) (wb : W) (row : MtdfRow) : Prop :=
  row.beta ≤ row.value →
    ∀ w, (row.start.probeTt g (g.key wb) depth (row.beta - 1) row.beta).probe ≠ .cutoff w

/-- Every root move chosen between two states reported no more than it is worth. -/
def ChoicesSound (value : Action → Int) (s s' : Searcher) : Prop :=
  ∀ new, s'.journal = new ++ s.journal →
    ∀ action score cutShort, .chosen action score cutShort ∈ new → score ≤ value action

theorem ChoicesSound.split {value : Action → Int} {s t u : Searcher} (hst : Kept s t)
    (htu : Kept t u) (h : ChoicesSound value s u) :
    ChoicesSound value s t ∧ ChoicesSound value t u := by
  obtain ⟨old, hold⟩ := hst.journal
  obtain ⟨young, hyoung⟩ := htu.journal
  constructor
  · intro new hnew action score cutShort hmem
    refine h (young ++ new) ?_ action score cutShort (List.mem_append_right _ hmem)
    rw [← hyoung, hnew, List.append_assoc]
  · intro new hnew action score cutShort hmem
    refine h (new ++ old) ?_ action score cutShort (List.mem_append_left _ hmem)
    rw [hnew, ← hold, List.append_assoc]

/-- **The move the loop ends with** is legal and worth the lower bound, from the first probe that
raises it on. -/
theorem mtdfLoop_move (law : g.Reversible) {fuel probes : Nat} {depth m guess lower upper v : Int}
    {action bestAction : Action} {s s' : Searcher} {wb wb' : W} (value : Action → Int)
    (hrun : mtdfLoop (mtdfRootTraced g fuel depth) probes guess lower upper action s wb
      = some ((v, bestAction), s', wb'))
    (hlo : i32Min + 1 ≤ lower) (hhi : upper ≤ i32Max)
    (hguess : lower < upper → guess = lower ∨ (i32Min + 1 < guess ∧ guess ≤ i32Max)) :
    Kept s s' ∧ wb' = wb ∧ (s'.aborted = false →
      (∀ row ∈ mtdfRows (mtdfRootTraced g fuel depth) probes guess lower upper action s wb,
        row.Sound m ∧ row.Searched g depth wb) →
      ChoicesSound value s s' → i32Min + 1 < m → lower ≤ m → m ≤ upper →
      (i32Min + 1 < lower →
        action ∈ g.generateLegalCtx wb s.options.moveOrderContext ∧ lower ≤ value action) →
      bestAction ∈ g.generateLegalCtx wb s.options.moveOrderContext ∧ m ≤ value bestAction) := by
  induction probes generalizing guess lower upper action s with
  | zero => cases hrun
  | succ probes ih =>
    unfold mtdfLoop at hrun
    unfold mtdfRows
    by_cases hopen : lower < upper
    · rw [if_pos hopen] at hrun
      rw [if_pos hopen]
      have hbeta : i32Min + 1 < (if guess = lower then wrapI32 (guess + 1) else guess)
          ∧ (if guess = lower then wrapI32 (guess + 1) else guess) ≤ i32Max := by
        by_cases h : guess = lower
        · rw [if_pos h, wrapI32_of_range (by omega) (by omega)]
          omega
        · rw [if_neg h]
          exact (hguess hopen).resolve_left h
      generalize (if guess = lower then wrapI32 (guess + 1) else guess) = beta at hrun hbeta ⊢
      simp only at hrun ⊢
      cases hprobe : mtdfRootTraced g fuel depth beta action s wb with
      | none => rw [hprobe] at hrun; cases hrun
      | some answer =>
        obtain ⟨⟨w, move⟩, t, tb⟩ := answer
        obtain ⟨hkept, htb, hkeep, hraise⟩ := mtdfRootTraced_cases law hbeta.1 hbeta.2 hprobe
        subst tb
        simp only [hprobe] at hrun ⊢
        cases hab : t.aborted with
        | true =>
          simp only [hab, if_true] at hrun
          obtain ⟨-, rfl, rfl⟩ := by simpa using hrun
          exact ⟨hkept, rfl, fun hquiet => absurd (hab.symm.trans hquiet) (by simp)⟩
        | false =>
          simp only [hab, Bool.false_eq_true, if_false] at hrun ⊢
          by_cases hlow : w < beta
          · -- failing low lowers the upper bound and keeps the move
            simp only [if_pos hlow] at hrun ⊢
            obtain rfl := hkeep hlow
            obtain ⟨hrest, hwb, hmove⟩ := ih hrun hlo (by omega)
                (fun h => .inr ⟨by omega, by omega⟩)
            refine ⟨hkept.trans hrest, hwb, fun hquiet hrows hsound hm hbelow habove hbest => ?_⟩
            have hrow := hrows _ (List.mem_cons_self ..)
            rw [hkept.options] at hmove
            exact hmove hquiet (fun row hmem => hrows row (List.mem_cons_of_mem _ hmem))
              (hsound.split hkept hrest).2 hm hbelow (hrow.1.low hlow) hbest
          · -- failing high raises the lower bound to what the new move reported
            simp only [if_neg hlow] at hrun ⊢
            obtain ⟨hrest, hwb, hmove⟩ := ih hrun (by omega) hhi (fun _ => .inl rfl)
            refine ⟨hkept.trans hrest, hwb, fun hquiet hrows hsound hm hbelow habove hbest => ?_⟩
            have hrow := hrows _ (List.mem_cons_self ..)
            have hhigh : beta ≤ w := by omega
            obtain ⟨hfirst, hlater⟩ := hsound.split hkept hrest
            rw [hkept.options] at hmove
            refine hmove hquiet (fun row hmem => hrows row (List.mem_cons_of_mem _ hmem)) hlater hm
              (hrow.1.high hhigh) habove fun _ => ?_
            rcases hraise hhigh with ⟨cut, hcut⟩ | ⟨hmem, new, cutShort, hnew, hchosen⟩
            · exact absurd hcut (hrow.2 hhigh cut)
            · exact ⟨hmem, hfirst new hnew _ _ _ hchosen⟩
    · rw [if_neg hopen] at hrun
      obtain ⟨⟨rfl, rfl⟩, rfl, rfl⟩ := by simpa using hrun
      refine ⟨Kept.refl s, rfl, fun _ _ _ hm hbelow habove hbest => ?_⟩
      obtain rfl : lower = m := by omega
      exact hbest hm

/-! ## The driver -/

/-- **The MTD(f) contract.** The loop ends whatever its probes answer, in the driver and in the
score-only form. With sound probes and no abort the score is the minimax value, as long as that is
inside the root window; and the move attains it when every probe that failed high had searched the
root and the moves it chose reported no more than they are worth. -/
theorem mtdf_converges :
    (∀ (probe : Int → Action → Searcher → W → Run W (Int × Action)) (P : Searcher → W → Prop),
      Answers probe P → ∀ guess action s wb, P s wb →
        (mtdfLoop probe (2 ^ 32 + 1) guess (i32Min + 1) (i32Max - 1) action s wb).isSome)
    ∧ (∀ fuel probes (s : Searcher) wb guess depth v s' wb',
      i32Min + 1 ≤ minimax g s.options.moveOrderContext depth wb →
      minimax g s.options.moveOrderContext depth wb ≤ i32Max - 1 →
      mtdf g fuel probes s wb guess depth = some (v, s', wb') → s'.aborted = false →
      (∀ row ∈ mtdfRows (mtdfProbe g fuel depth) probes guess (i32Min + 1) (i32Max - 1) .none s wb,
        row.Sound (minimax g s.options.moveOrderContext depth wb)) →
      v = minimax g s.options.moveOrderContext depth wb)
    ∧ ∀ fuel probes (s : Searcher) wb depth guess result s' wb',
      i32Min + 1 ≤ minimax g s.options.moveOrderContext depth wb →
      minimax g s.options.moveOrderContext depth wb ≤ i32Max - 1 →
      g.terminalScore wb (g.sideToMove wb) depth = none →
      2 ≤ (g.generateLegalCtx wb s.options.moveOrderContext).length →
      searchMtdfWithGuess g fuel probes s wb depth guess = some (result, s', wb') →
      s'.aborted = false →
      (∀ row ∈ searchMtdfTrace g fuel probes s wb depth guess,
        row.Sound (minimax g s.options.moveOrderContext depth wb)) →
      result.score = minimax g s.options.moveOrderContext depth wb
      ∧ (g.Reversible → i32Min + 1 < minimax g s.options.moveOrderContext depth wb → 1 ≤ depth →
        i32Min < guess → guess ≤ i32Max →
        (∀ row ∈ searchMtdfTrace g fuel probes s wb depth guess, row.Searched g depth wb) →
        ChoicesSound (moveValue g s.options.moveOrderContext depth wb) s s' →
        wb' = wb
        ∧ result.bestAction ∈ g.generateLegalCtx wb s.options.moveOrderContext
        ∧ moveValue g s.options.moveOrderContext depth wb result.bestAction = result.score) := by
  refine ⟨fun probe P hprobe guess action s wb hP => mtdfLoop_returns hprobe guess action hP,
    ?_, ?_⟩
  · intro fuel probes s wb guess depth v s' wb' hlo hhi hrun hquiet hsound
    unfold mtdf at hrun
    obtain ⟨⟨⟨w, move⟩, x, xb⟩, hloop, heq⟩ := Option.map_eq_some_iff.1 hrun
    obtain ⟨rfl, rfl, rfl⟩ := by simpa using heq
    exact mtdfLoop_score hloop hquiet hsound hlo hhi (.inl floor_lt_ceiling)
  · intro fuel probes s wb depth guess result s' wb' hlo hhi hterm hmoves hrun hquiet hsound
    obtain ⟨rng, hstart, -⟩ := rootStart_moves true hterm hmoves
    have hjournal : ({ s.beginRootSearchAt g wb with rngState := rng } : Searcher).journal
        = s.journal := rfl
    have hoptions : ({ s.beginRootSearchAt g wb with rngState := rng } : Searcher).options
        = s.options := rfl
    unfold searchMtdfWithGuess at hrun
    unfold searchMtdfTrace at hsound ⊢
    generalize ({ s.beginRootSearchAt g wb with rngState := rng } : Searcher) = t
      at hstart hjournal hoptions
    rw [hstart] at hrun hsound ⊢
    simp only at hrun hsound ⊢
    obtain ⟨⟨⟨w, move⟩, x, xb⟩, hloop, heq⟩ := Option.map_eq_some_iff.1 hrun
    obtain ⟨rfl, rfl, rfl⟩ := by simpa using heq
    have hscore := mtdfLoop_score hloop hquiet hsound hlo hhi (.inl floor_lt_ceiling)
    refine ⟨hscore, fun law habove hdepth hmin hmax hsearched hchoices => ?_⟩
    -- the root has a positive depth, so its value is one of the values of its moves
    obtain ⟨n, rfl⟩ : ∃ n : Nat, depth = ((n + 1 : Nat) : Int) :=
      ⟨(depth - 1).toNat, by omega⟩
    obtain ⟨-, hwb, hmove⟩ := mtdfLoop_move (m := minimax g s.options.moveOrderContext _ wb) law
      (moveValue g s.options.moveOrderContext ((n + 1 : Nat) : Int) wb) hloop
      (by omega) (by have := floor_lt_ceiling; omega) (fun _ => by omega)
    have hlegal := hmove hquiet (fun row hmem => ⟨hsound row hmem, hsearched row hmem⟩)
      (by unfold ChoicesSound at hchoices ⊢; rw [hjournal]; exact hchoices) habove (by omega) hhi
      (fun h => absurd h (by omega))
    rw [hoptions] at hlegal
    have hle := moveValue_le_minimax hterm hlegal.1
    exact ⟨hwb, hlegal.1, by simp only; omega⟩

/-- Rows whose `beta` and `value` are known are checked on those. -/
theorem sound_of_rows {m : Int} {rows : List MtdfRow} {pairs : List (Int × Int)}
    (h : rows.map (fun row => (row.beta, row.value)) = pairs)
    (hpairs : ∀ pair ∈ pairs, (pair.2 < pair.1 → m ≤ pair.2) ∧ (pair.1 ≤ pair.2 → pair.2 ≤ m)) :
    ∀ row ∈ rows, row.Sound m := by
  intro row hmem
  have hpair := hpairs (row.beta, row.value) (h ▸ List.mem_map_of_mem hmem)
  exact ⟨hpair.1, hpair.2⟩

/-- The root moves a journal records as chosen, with their scores. -/
def chosenMoves (journal : List SearchEvent) : List (Action × Int) :=
  journal.filterMap fun
    | .chosen action score _ => some (action, score)
    | _ => none

/-- The two-ply game again: from a first guess of 0, MTD(f) makes two probes and finds the second
move. -/
theorem mtdf_converges_twoPly :
    (mtdfLoop (fun _ action s wb => some ((0, action), s, wb)) (2 ^ 32 + 1) 0 (i32Min + 1)
      (i32Max - 1) .none plainSearcher ([] : List Action)).isSome
    ∧ (mtdf twoPly 4 50 plainSearcher [] 0 2).map (fun r => r.1) = some (minimax twoPly {} 2 [])
    ∧ (searchMtdfWithGuess twoPly 4 50 plainSearcher [] 2 0).map
      (fun r => (r.1.score, moveValue twoPly {} 2 [] r.1.bestAction))
      = some (minimax twoPly {} 2 [], minimax twoPly {} 2 []) := by
  have habove : i32Min + 1 < minimax twoPly {} 2 [] := by decide
  have hhi : minimax twoPly {} 2 [] ≤ i32Max - 1 := by decide
  obtain ⟨hends, hscore, hdriver⟩ := mtdf_converges (g := twoPly)
  refine ⟨hends _ (fun _ _ => True) ?_ 0 .none plainSearcher [] trivial, ?_, ?_⟩
  · exact fun beta action s wb _ => ⟨0, action, s, wb, rfl, by decide, by decide, trivial⟩
  -- two probes with their bounds, evaluated once
  · have hsome : (mtdf twoPly 4 50 plainSearcher [] 0 2).isSome := by
      decide +kernel
    have hquiet : (mtdf twoPly 4 50 plainSearcher [] 0 2).map (fun r => r.2.1.aborted)
        = some false := by decide +kernel
    have hrows : (mtdfRows (mtdfProbe twoPly 4 2) 50 0 (i32Min + 1) (i32Max - 1) .none
        plainSearcher []).map (fun row => (row.beta, row.value)) = [(0, 1), (2, 1)] := by
      decide +kernel
    obtain ⟨⟨v, s', wb'⟩, hrun⟩ := Option.isSome_iff_exists.1 hsome
    rw [hrun] at hquiet ⊢
    simp only [Option.map_some, Option.some.injEq] at hquiet ⊢
    exact hscore 4 50 plainSearcher [] 0 2 v s' wb' habove.le hhi hrun hquiet
      (sound_of_rows hrows (by decide))
  · have hsome : (searchMtdfWithGuess twoPly 4 50 plainSearcher [] 2 0).isSome := by
      decide +kernel
    have hend : (searchMtdfWithGuess twoPly 4 50 plainSearcher [] 2 0).map
        (fun r => (r.2.1.aborted, chosenMoves r.2.1.journal))
          = some (false, [(pathMove 1, 1)]) := by
      decide +kernel
    have hrows : (searchMtdfTrace twoPly 4 50 plainSearcher [] 2 0).map
        (fun row => (row.beta, row.value)) = [(0, 1), (2, 1)] := by
      decide +kernel
    have hsearched : (searchMtdfTrace twoPly 4 50 plainSearcher [] 2 0).map
        (fun row => (row.start.probeTt twoPly (twoPly.key []) 2 (row.beta - 1) row.beta).probe)
          = [.miss, .hitNoCutoff] := by decide +kernel
    obtain ⟨⟨result, s', wb'⟩, hrun⟩ := Option.isSome_iff_exists.1 hsome
    rw [hrun] at hend ⊢
    simp only [Option.map_some, Option.some.injEq, Prod.mk.injEq] at hend ⊢
    obtain ⟨hquiet, hchosen⟩ := hend
    obtain ⟨hvalue, hmove⟩ := hdriver 4 50 plainSearcher [] 2 0 result s' wb' habove.le hhi rfl
      (by decide) hrun hquiet (sound_of_rows hrows (by decide))
    obtain ⟨-, -, hattains⟩ := hmove (pathGame_reversible _ _ _) habove (by decide)
        (by decide) (by decide)
      (fun row hmem _ w hcut => by
        have hprobe := List.mem_map_of_mem (f := fun row : MtdfRow =>
          (row.start.probeTt twoPly (twoPly.key []) 2 (row.beta - 1) row.beta).probe) hmem
        rw [hsearched] at hprobe
        simp only [hcut] at hprobe
        simp at hprobe)
      (fun new hnew action score cutShort hmem => by
        have hnew' : s'.journal = new := by rw [hnew]; exact List.append_nil new
        have hpair : (action, score) ∈ chosenMoves s'.journal :=
          List.mem_filterMap.2 ⟨_, hnew' ▸ hmem, rfl⟩
        rw [hchosen, List.mem_singleton] at hpair
        obtain ⟨rfl, rfl⟩ := Prod.mk.inj hpair
        decide)
    exact ⟨hvalue, hattains.trans hvalue⟩

/-! ## The limits -/

/-- Two moves that differ only at the top of the score range. -/
def ceilingScores : Game (List Action) :=
  pathGame (fun path => if path.length < 1 then [pathMove 0, pathMove 1] else [])
    (fun path => if path = [pathMove 0] then -(i32Max - 1) else -i32Max) (fun _ _ _ => none)

/-- One ply; the second move is the better one. -/
def onePly : Game (List Action) :=
  pathGame (fun path => if path.length < 1 then [pathMove 0, pathMove 1] else [])
    (fun path => if path = [pathMove 0] then 4 else -4) (fun _ _ _ => none)

/-- The plain settings with a node limit. -/
def limitedSearcher (limit : Nat) : Searcher :=
  { plainSearcher with
    options := { plainSearcher.options with nodeLimit := some limit } }

/-- All rows sound, as a check. -/
def soundRows (m : Int) (rows : List MtdfRow) : Bool :=
  rows.all fun row => if row.value < row.beta then m ≤ row.value else row.value ≤ m

/-- **Where MTD(f) falls short with sound probes.** After a full-window search has stored the root's
exact value, every probe is answered by the table: the score is right and the move is the first one,
worth 5 less. A forced move scores 100, a finished root has no move, a value above `i32::MAX - 1` is
not reached, an abort ends the loop with the bounds apart, and from a first guess of `i32::MIN` the
window of the first probe wraps around and no move can be chosen. -/
theorem mtdf_limits :
    ((alphaBeta twoPly 4 2 (-10) 10 plainSearcher []).bind fun (_, s, wb) =>
      (searchMtdfWithGuess twoPly 4 50 s wb 2 0).map fun r =>
        (soundRows (minimax twoPly {} 2 []) (searchMtdfTrace twoPly 4 50 s wb 2 0), r.1.score,
          r.1.bestAction, r.2.1.aborted)) = some (true, 1, pathMove 0, false)
    ∧ moveValue twoPly {} 2 [] (pathMove 0) = -4
    ∧ ((searchMtdfWithGuess forcedMove 4 50 plainSearcher [] 1 0).map
        (fun r => (r.1.score, r.2.1.aborted)) = some (100, false)
      ∧ minimax forcedMove {} 1 [] = -7)
    ∧ (searchMtdfWithGuess defaultTerminal 4 50 plainSearcher [pathMove 0] 1 0).map
        (fun r => r.1.bestAction) = some .none
    ∧ ((searchMtdfWithGuess ceilingScores 4 50 plainSearcher [] 1 0).map
        (fun r => (r.1.score, r.2.1.aborted)) = some (i32Max - 1, false)
      ∧ minimax ceilingScores {} 1 [] = i32Max
      ∧ soundRows i32Max (searchMtdfTrace ceilingScores 4 50 plainSearcher [] 1 0))
    ∧ ((searchMtdfWithGuess twoPly 4 50 (limitedSearcher 2) [] 2 0).map (fun r => r.1.score)
        = some 0
      ∧ minimax twoPly {} 2 [] = 1
      ∧ soundRows 1 (searchMtdfTrace twoPly 4 50 (limitedSearcher 2) [] 2 0))
    ∧ ((searchMtdfWithGuess onePly 4 50 plainSearcher [] 1 i32Min).map
        (fun r => (r.1.score, r.1.bestAction, r.2.1.aborted)) = some (4, pathMove 0, false)
      ∧ minimax onePly {} 1 [] = 4
      ∧ soundRows 4 (searchMtdfTrace onePly 4 50 plainSearcher [] 1 i32Min)
      ∧ moveValue onePly {} 1 [] (pathMove 0) = -4) := by
  refine ⟨by decide +kernel, by decide, by decide, by decide, by decide, by decide, by decide⟩

end Searcher

end Sanmill
