import Sanmill.Proof.Search.Mtdf

/-!
# What an abort leaves behind

A search checks for the abort before it enters a node and before each move, and
leaves without storing when it is noticed there. It does not check when a child
comes back. So the value of a search that was cut short goes up through the calls
that are open at that moment: a node with another move to look at leaves its loop
with it, but a node whose last move this was, or whose `beta` the value reaches,
stores it; a root takes the move as its best one if the value is above the best so
far, and a root probe of MTD(f) stores what it has.

All of this is settled at the moment of the abort. `Moment.arrivals` computes, from
the calls open then, what will come back to each of them, and `Outcome` says that
every search does just that: its partial stores and choices, and its answer, are
the ones the moment leads to.
-/

namespace Sanmill

/-! ## Events -/

namespace SearchEvent

/-- A store made after an abort was noticed. -/
def partialStore : SearchEvent → Bool
  | stored _ _ _ _ cutShort => cutShort
  | _ => false

/-- A root move chosen after an abort was noticed. -/
def partialChoice : SearchEvent → Bool
  | chosen _ _ cutShort => cutShort
  | _ => false

end SearchEvent

open SearchEvent

/-- The moments at which an abort was noticed, newest first. -/
def moments (events : List SearchEvent) : List Moment :=
  events.filterMap fun
    | .struck moment => some moment
    | _ => none

theorem moments_append (young old : List SearchEvent) :
    moments (young ++ old) = moments young ++ moments old :=
  List.filterMap_append

/-! ## The way up -/

namespace OpenNode

/-- What a call goes back with after an abort, when a value comes back to it. -/
def handBack : OpenNode → Int × Action → Int × Action
  | negation, (value, action) => (wrapI32 (-value), action)
  | quiescence alpha beta, (value, action) =>
    (if alpha < value then (if beta ≤ value then beta else value) else alpha, action)
  | move alpha beta bestValue last, (score, action) =>
    (if beta ≤ score then score
      else if last then max bestValue score
        else max (max bestValue score) (max alpha score), action)
  | nullWindow alpha beta negated static, (value, action) =>
    let value := if negated then wrapI32 (-value) else value
    -- the second search ends at its first check
    (if alpha < value ∧ value < beta then if negated then wrapI32 (-static) else static else value,
      action)
  | rootMove action bestScore bestAction, (score, _) =>
    if bestScore < score then (score, action) else (bestScore, bestAction)
  | probe, answer => answer

/-- The call stores the value: there is no check left before the store. -/
def storesPartial : OpenNode → Int → Bool
  | move _ beta _ last, score => last || decide (beta ≤ score)
  | probe, _ => true
  | _, _ => false

/-- The call takes its root move as the best one. -/
def choosesPartial : OpenNode → Int → Bool
  | rootMove _ bestScore _, score => decide (bestScore < score)
  | _, _ => false

end OpenNode

/-- What comes back to each open call. -/
def arrivals : List OpenNode → Int × Action → List (OpenNode × Int)
  | [], _ => []
  | node :: rest, back => (node, back.1) :: arrivals rest (node.handBack back)

/-- What the outermost call goes back with. -/
def goesBack (nodes : List OpenNode) (back : Int × Action) : Int × Action :=
  nodes.foldl (fun back node => node.handBack back) back

theorem arrivals_concat (nodes : List OpenNode) (node : OpenNode) (back : Int × Action) :
    arrivals (nodes ++ [node]) back = arrivals nodes back ++ [(node, (goesBack nodes back).1)] := by
  induction nodes generalizing back with
  | nil => rfl
  | cons head rest ih =>
    rw [List.cons_append, arrivals, ih]
    rfl

theorem goesBack_concat (nodes : List OpenNode) (node : OpenNode) (back : Int × Action) :
    goesBack (nodes ++ [node]) back = node.handBack (goesBack nodes back) := by
  unfold goesBack
  rw [List.foldl_append]
  rfl

namespace Moment

/-- What will come back to each call that is open at the moment. -/
def arrivals (m : Moment) : List (OpenNode × Int) :=
  Sanmill.arrivals m.openNodes (m.value, m.action)

/-- A partial value will be stored. -/
def leaksStore (m : Moment) : Bool :=
  m.arrivals.any fun arrival => arrival.1.storesPartial arrival.2

/-- A root move will be chosen for a partial value. -/
def leaksChoice (m : Moment) : Bool :=
  m.arrivals.any fun arrival => arrival.1.choosesPartial arrival.2

/-- The score and the move the search will answer with. -/
def answer (m : Moment) : Int × Action := goesBack m.openNodes (m.value, m.action)

end Moment

/-- In a stretch of the journal the partial stores and choices are those the arrivals lead to. -/
structure Accounts (events : List SearchEvent) (arrivals : List (OpenNode × Int)) : Prop where
  stores : events.any partialStore = arrivals.any fun arrival => arrival.1.storesPartial arrival.2
  choices :
    events.any partialChoice = arrivals.any fun arrival => arrival.1.choosesPartial arrival.2

namespace Accounts

theorem nil : Accounts [] [] := ⟨rfl, rfl⟩

theorem append {young old : List SearchEvent} {first next : List (OpenNode × Int)}
    (h : Accounts young next) (h' : Accounts old first) :
    Accounts (young ++ old) (first ++ next) where
  stores := by rw [List.any_append, List.any_append, h.stores, h'.stores, Bool.or_comm]
  choices := by rw [List.any_append, List.any_append, h.choices, h'.choices, Bool.or_comm]

end Accounts

namespace Searcher

variable {W : Type} {g : Game W}

/-! ## Steps that record nothing -/

/-- The record of `t` is that of `s`. -/
structure SameRecord (s t : Searcher) : Prop where
  journal : t.journal = s.journal
  openNodes : t.openNodes = s.openNodes
  struck : t.struck = s.struck

theorem SameRecord.trans {s t u : Searcher} (h : SameRecord s t) (h' : SameRecord t u) :
    SameRecord s u :=
  ⟨h'.journal.trans h.journal, h'.openNodes.trans h.openNodes, h'.struck.trans h.struck⟩

theorem shouldAbort_record {s t : Searcher} {stop : Bool} (h : s.shouldAbort = (stop, t)) :
    SameRecord s t := by
  unfold shouldAbort at h
  split at h
  · obtain ⟨-, rfl⟩ := Prod.mk.inj h
    exact ⟨rfl, rfl, rfl⟩
  split at h
  · split at h
    · obtain ⟨-, rfl⟩ := Prod.mk.inj h
      exact ⟨rfl, rfl, rfl⟩
    · obtain ⟨-, rfl⟩ := Prod.mk.inj h
      exact ⟨rfl, rfl, rfl⟩
  · obtain ⟨-, rfl⟩ := Prod.mk.inj h
    exact ⟨rfl, rfl, rfl⟩

theorem recordRootMove_record (s : Searcher) (action : Action) (value : Int) (nodes : Nat)
    (cutoff : Bool) : SameRecord s (s.recordRootMove action value nodes cutoff)
      ∧ (s.recordRootMove action value nodes cutoff).aborted = s.aborted := by
  unfold recordRootMove
  split
  · exact ⟨⟨rfl, rfl, rfl⟩, rfl⟩
  · exact ⟨⟨rfl, rfl, rfl⟩, rfl⟩

theorem push_record {s t : Searcher} {key : BitVec 64} {action : Action} {previous : Bool}
    (hpush : s.pushRepetitionAncestor g key action = some (previous, t)) : SameRecord s t := by
  unfold pushRepetitionAncestor at hpush
  simp only at hpush
  split at hpush
  · cases hpush
  · obtain ⟨-, rfl⟩ := Prod.mk.inj (Option.some.inj hpush)
    exact ⟨rfl, rfl, rfl⟩

/-! ## What a search does -/

/-- From `s` to `t` no check noticed an abort, and nothing partial was stored or chosen. -/
structure Quiet (s t : Searcher) : Prop where
  journal : ∃ new, t.journal = new ++ s.journal ∧ moments new = [] ∧ Accounts new []
  openNodes : t.openNodes = s.openNodes
  struck : t.struck = false

/-- From `s` to `t` one check noticed an abort, in calls that were opened since; what was stored and
chosen after it, and what `t` comes back with, is what that moment leads to. -/
structure Cut (s : Searcher) (back : Int × Action) (t : Searcher) : Prop where
  journal : ∃ new inner value action, t.journal = new ++ s.journal
    ∧ moments new = [{ openNodes := inner ++ s.openNodes, value, action }]
    ∧ Accounts new (arrivals inner (value, action)) ∧ goesBack inner (value, action) = back
  openNodes : t.openNodes = s.openNodes
  struck : t.struck = true
  aborted : t.aborted = true

/-- A search that comes back either met no abort or does what the moment leads to. -/
def Outcome (s : Searcher) (back : Int × Action) (t : Searcher) : Prop := Quiet s t ∨ Cut s back t

variable {s t u x y : Searcher} {back : Int × Action}

theorem SameRecord.quiet (h : SameRecord s t) (hs : s.struck = false) : Quiet s t :=
  ⟨⟨[], h.journal, rfl, Accounts.nil⟩, h.openNodes, h.struck.trans hs⟩

theorem Quiet.trans (h : Quiet s t) (h' : Quiet t u) : Quiet s u := by
  obtain ⟨old, hold, hnone, haccounts⟩ := h.journal
  obtain ⟨young, hyoung, hnone', haccounts'⟩ := h'.journal
  refine ⟨⟨young ++ old, ?_, ?_, haccounts'.append haccounts⟩, h'.openNodes.trans h.openNodes,
    h'.struck⟩
  · rw [hyoung, hold, List.append_assoc]
  · rw [moments_append, hnone, hnone', List.append_nil]

theorem Quiet.cut (h : Quiet s t) (h' : Cut t back u) : Cut s back u := by
  obtain ⟨old, hold, hnone, haccounts⟩ := h.journal
  obtain ⟨young, inner, value, action, hyoung, hone, haccounts', hback⟩ := h'.journal
  refine ⟨⟨young ++ old, inner, value, action, ?_, ?_, ?_, hback⟩, h'.openNodes.trans h.openNodes,
    h'.struck, h'.aborted⟩
  · rw [hyoung, hold, List.append_assoc]
  · rw [moments_append, hnone, hone, h.openNodes, List.append_nil]
  · have hall := haccounts'.append haccounts
    rwa [List.nil_append] at hall

theorem Quiet.outcome (h : Quiet s t) (h' : Outcome t back u) : Outcome s back u :=
  h'.imp h.trans h.cut

/-- A store or a choice before any abort. -/
theorem Quiet.wrote (hs : s.struck = false) (event : SearchEvent)
    (hjournal : t.journal = event :: s.journal) (hopen : t.openNodes = s.openNodes)
    (hstruck : t.struck = s.struck) (hmoments : moments [event] = [])
    (hevent : partialStore event = false ∧ partialChoice event = false) : Quiet s t := by
  refine ⟨⟨[event], hjournal, hmoments, ?_, ?_⟩, hopen, hstruck.trans hs⟩
  · rw [List.any_cons, hevent.1]
    rfl
  · rw [List.any_cons, hevent.2]
    rfl

theorem checkAbort_outcome {value : Int} {action : Action} {stop : Bool}
    (h : s.checkAbort value action = (stop, t)) (hs : s.struck = false) :
    (stop = true → Cut s (value, action) t) ∧ (stop = false → Quiet s t) := by
  obtain ⟨haborted, -⟩ := checkAbort_cases s h
  rcases hcheck : s.shouldAbort with ⟨asked, u⟩
  have hrecord := shouldAbort_record hcheck
  unfold checkAbort at h
  rw [hcheck] at h
  obtain ⟨rfl, rfl⟩ := Prod.mk.inj h
  constructor
  · rintro rfl
    have hu : u.struck = false := hrecord.struck.trans hs
    have hstrike : u.strike value action
        = { u.note (.struck { openNodes := u.openNodes, value, action }) with struck := true } := by
      unfold strike
      rw [hu]
      rfl
    rw [if_pos rfl] at haborted ⊢
    rw [hstrike] at haborted ⊢
    refine ⟨⟨[.struck { openNodes := u.openNodes, value, action }], [], value, action, ?_, ?_,
      ⟨rfl, rfl⟩, rfl⟩, hrecord.openNodes, rfl, haborted.symm⟩
    · exact congrArg _ hrecord.journal
    · rw [List.nil_append, ← hrecord.openNodes]
      rfl
  · rintro rfl
    rw [if_neg Bool.false_ne_true]
    exact hrecord.quiet hs

/-- Once noticed, an abort is not recorded again. -/
theorem checkAbort_noticed (s : Searcher) (value : Int) (action : Action)
    (haborted : s.aborted = true) (hstruck : s.struck = true) :
    s.checkAbort value action = (true, s) := by
  unfold checkAbort shouldAbort strike
  rw [if_pos haborted]
  dsimp only
  rw [if_pos rfl, if_pos hstruck]

/-! ## Opening and closing a call -/

/-- `y` has left the call that `x` came back to. -/
structure Left (x y : Searcher) : Prop where
  journal : y.journal = x.journal
  openNodes : y.openNodes = x.openNodes.tail
  struck : y.struck = x.struck
  aborted : y.aborted = x.aborted

theorem left_closed (x : Searcher) : Left x x.closed := ⟨rfl, rfl, rfl, rfl⟩

theorem Quiet.left {node : OpenNode} (h : Quiet (s.opened node) x) (hleft : Left x y) :
    Quiet s y := by
  obtain ⟨new, hnew, hnone, haccounts⟩ := h.journal
  refine ⟨⟨new, hleft.journal.trans hnew, hnone, haccounts⟩, ?_, hleft.struck.trans h.struck⟩
  rw [hleft.openNodes, h.openNodes]
  rfl

/-- **A call that was left after an abort**: `late` is what it has still written. -/
theorem Cut.left {node : OpenNode} (h : Cut (s.opened node) back x) (hleft : Left x y)
    {z : Searcher} (late : List SearchEvent) (hjournal : z.journal = late ++ y.journal)
    (hopen : z.openNodes = y.openNodes) (hstruck : z.struck = y.struck)
    (haborted : z.aborted = y.aborted) (hlate : moments late = [])
    (haccounts : Accounts late [(node, back.1)]) : Cut s (node.handBack back) z := by
  obtain ⟨new, inner, value, action, hnew, hone, hinner, hback⟩ := h.journal
  refine ⟨⟨late ++ new, inner ++ [node], value, action, ?_, ?_, ?_, ?_⟩, ?_, ?_, ?_⟩
  · rw [hjournal, hleft.journal, hnew, List.append_assoc]
    rfl
  · rw [moments_append, hlate, hone, List.append_assoc]
    rfl
  · rw [arrivals_concat, hback]
    exact haccounts.append hinner
  · rw [goesBack_concat, hback]
  · rw [hopen, hleft.openNodes, h.openNodes]
    rfl
  · rw [hstruck, hleft.struck, h.struck]
  · rw [haborted, hleft.aborted, h.aborted]

/-- A call that writes nothing more. -/
theorem Cut.left_silent {node : OpenNode} (h : Cut (s.opened node) back x) (hleft : Left x y)
    (hstores : node.storesPartial back.1 = false) (hchooses : node.choosesPartial back.1 = false) :
    Cut s (node.handBack back) y := by
  refine h.left hleft [] rfl rfl rfl rfl rfl ⟨?_, ?_⟩
  · rw [List.any_cons, hstores]
    rfl
  · rw [List.any_cons, hchooses]
    rfl

/-! ## Below the root -/

/-- A subtree search that does what the moment leads to. -/
def Unwinds (search : WindowSearch W) : Prop :=
  ∀ ⦃alpha beta s wb v s' wb'⦄, search alpha beta s wb = some (v, s', wb') → s.struck = false →
    Outcome s (v, .none) s'

theorem searchAfterMove_unwinds {search : WindowSearch W} (h : Unwinds search)
    {alpha beta before after v : Int} {s s' : Searcher} {wb wb' : W}
    (hrun : searchAfterMove search alpha beta before after s wb = some (v, s', wb'))
    (hs : s.struck = false) : Outcome s (v, .none) s' := by
  unfold searchAfterMove at hrun
  split at hrun
  · obtain ⟨⟨w, t, tb⟩, hsearch, heq⟩ := Option.map_eq_some_iff.1 hrun
    obtain ⟨rfl, rfl, -⟩ := by simpa using heq
    rcases h hsearch hs with hquiet | hcut
    · exact .inl (hquiet.left (left_closed t))
    · exact .inr (hcut.left_silent (left_closed t) rfl rfl)
  · exact h hrun hs

/-- Once an abort is noticed, the quiescence loop ends. -/
theorem qsearchLoop_noticed {child : WindowSearch W} {beta : Int} {moves : List Action}
    {alpha v : Int} {wb wb' : W} (haborted : s.aborted = true) (hstruck : s.struck = true)
    (hrun : qsearchLoop g child beta moves alpha s wb = some (v, t, wb')) : v = alpha ∧ t = s := by
  cases moves with
  | nil =>
    obtain ⟨rfl, rfl, -⟩ := by simpa [qsearchLoop] using hrun
    exact ⟨rfl, rfl⟩
  | cons action rest =>
    unfold qsearchLoop at hrun
    rw [checkAbort_noticed s _ _ haborted hstruck] at hrun
    obtain ⟨rfl, rfl, -⟩ := by simpa using hrun
    exact ⟨rfl, rfl⟩

theorem qsearchLoop_unwinds {child : WindowSearch W} (hchild : Unwinds child) {beta : Int}
    {moves : List Action} {alpha v : Int} {s s' : Searcher} {wb wb' : W}
    (hrun : qsearchLoop g child beta moves alpha s wb = some (v, s', wb'))
    (hs : s.struck = false) : Outcome s (v, .none) s' := by
  induction moves generalizing alpha s wb with
  | nil =>
    obtain ⟨-, rfl, -⟩ := by simpa [qsearchLoop] using hrun
    exact .inl (SameRecord.quiet ⟨rfl, rfl, rfl⟩ hs)
  | cons action rest ih =>
    unfold qsearchLoop at hrun
    rcases hcheck : s.checkAbort alpha .none with ⟨stop, t⟩
    obtain ⟨hstops, hgoes⟩ := checkAbort_outcome hcheck hs
    simp only [hcheck] at hrun
    split at hrun
    · rename_i hyes
      obtain ⟨rfl, rfl, -⟩ := by simpa using hrun
      exact .inr (hstops hyes)
    rename_i hno
    have hst := hgoes (by simpa using hno)
    split at hrun
    · cases hrun
    rename_i value x xb hsearch
    refine hst.outcome ?_
    rcases searchAfterMove_unwinds hchild hsearch hst.struck with hquiet | hcut
    · have htx := hquiet.left (left_closed x)
      split at hrun
      · split at hrun
        · obtain ⟨-, rfl, -⟩ := by simpa using hrun
          exact .inl htx
        · exact htx.outcome (ih hrun htx.struck)
      · exact htx.outcome (ih hrun htx.struck)
    · -- the loop hands the value on, or its window
      have htx := hcut.left_silent (left_closed x) rfl rfl
      dsimp only [OpenNode.handBack] at htx
      split at hrun
      · rename_i hraise
        rw [if_pos hraise] at htx
        split at hrun
        · rename_i hhigh
          rw [if_pos hhigh] at htx
          obtain ⟨rfl, rfl, -⟩ := by simpa using hrun
          exact .inr htx
        · rename_i hlow
          rw [if_neg hlow] at htx
          obtain ⟨rfl, rfl⟩ := qsearchLoop_noticed htx.aborted htx.struck hrun
          exact .inr htx
      · rename_i hkeep
        rw [if_neg hkeep] at htx
        obtain ⟨rfl, rfl⟩ := qsearchLoop_noticed htx.aborted htx.struck hrun
        exact .inr htx

theorem qsearchWithDepth_unwinds (fuel : Nat) (depth : Int) :
    Unwinds (qsearchWithDepth g fuel depth) := by
  induction fuel generalizing depth with
  | zero => intro alpha beta s wb v s' wb' hrun; cases hrun
  | succ fuel ih =>
    intro alpha beta s wb v s' wb' hrun hs
    unfold qsearchWithDepth at hrun
    rcases hcheck : ({ s with nodes := s.nodes + 1 } : Searcher).checkAbort (g.score wb) .none with
      ⟨stop, t⟩
    obtain ⟨hstops, hgoes⟩ := checkAbort_outcome hcheck hs
    have hcounted : Quiet s { s with nodes := s.nodes + 1 } := SameRecord.quiet ⟨rfl, rfl, rfl⟩ hs
    simp only [hcheck] at hrun
    refine hcounted.outcome ?_
    split at hrun
    · rename_i hyes
      obtain ⟨rfl, rfl, -⟩ := by simpa using hrun
      exact .inr (hstops hyes)
    rename_i hno
    have hst := hgoes (by simpa using hno)
    -- every early way out hands back the state after the check
    repeat'
      split at hrun
      · obtain ⟨-, rfl, -⟩ := by simpa using hrun
        exact .inl hst
    exact hst.outcome (qsearchLoop_unwinds (ih _) hrun hst.struck)

theorem Quiet.saved (hs : s.struck = false) (key : BitVec 64) (depth value : Int) (bound : Bound)
    (action : Action) : Quiet s (s.saveTt g key depth value bound action) := by
  refine Quiet.wrote hs (.stored key depth value bound s.struck) rfl rfl rfl rfl ⟨?_, rfl⟩
  exact hs

/-- A call that stores the value an abort has left it with. -/
theorem Cut.left_saved {node : OpenNode} (h : Cut (s.opened node) back x) (hleft : Left x y)
    (key : BitVec 64) (depth value : Int) (bound : Bound) (action : Action)
    (hstores : node.storesPartial back.1 = true) (hchooses : node.choosesPartial back.1 = false) :
    Cut s (node.handBack back) (y.saveTt g key depth value bound action) := by
  refine h.left hleft [.stored key depth value bound y.struck] rfl rfl rfl rfl rfl ⟨?_, ?_⟩
  · rw [List.any_cons, List.any_cons, hstores]
    exact congrArg (· || false) (hleft.struck.trans h.struck)
  · rw [List.any_cons, List.any_cons, hchooses]
    rfl

theorem alphaBetaLoop_noticed {child : WindowSearch W} {key : BitVec 64}
    {depth oldAlpha beta : Int} {action : Action} {rest : List Action} {alpha bestValue v : Int}
    {bestAction : Action} {wb wb' : W} (haborted : s.aborted = true) (hstruck : s.struck = true)
    (hrun : alphaBetaLoop g child key depth oldAlpha beta (action :: rest) alpha
      bestValue bestAction
      s wb = some (v, t, wb')) : v = max bestValue alpha ∧ t = s := by
  unfold alphaBetaLoop at hrun
  rw [checkAbort_noticed s _ _ haborted hstruck] at hrun
  obtain ⟨rfl, rfl, -⟩ := by simpa using hrun
  exact ⟨rfl, rfl⟩

/-- **The move loop of a node.** A child that was cut short is stored if it was the last one or
reached `beta`; otherwise the next check ends the loop. -/
theorem alphaBetaLoop_unwinds {child : WindowSearch W} (hchild : Unwinds child) {key : BitVec 64}
    {depth oldAlpha beta : Int} {moves : List Action} {alpha bestValue v : Int}
    {bestAction : Action} {s s' : Searcher} {wb wb' : W}
    (hrun : alphaBetaLoop g child key depth oldAlpha beta moves alpha bestValue bestAction s wb
      = some (v, s', wb')) (hs : s.struck = false) : Outcome s (v, .none) s' := by
  induction moves generalizing alpha bestValue bestAction s wb with
  | nil =>
    obtain ⟨-, rfl, -⟩ := by simpa [alphaBetaLoop] using hrun
    exact .inl (Quiet.saved hs _ _ _ _ _)
  | cons action rest ih =>
    unfold alphaBetaLoop at hrun
    rcases hcheck : s.checkAbort (max bestValue alpha) .none with ⟨stop, t⟩
    obtain ⟨hstops, hgoes⟩ := checkAbort_outcome hcheck hs
    simp only [hcheck] at hrun
    split at hrun
    · rename_i hyes
      obtain ⟨rfl, rfl, -⟩ := by simpa using hrun
      exact .inr (hstops hyes)
    rename_i hno
    have hst := hgoes (by simpa using hno)
    refine hst.outcome ?_
    split at hrun
    · cases hrun
    rename_i previous u hpush
    have hopen : Quiet (t.opened (.move alpha beta bestValue rest.isEmpty)) u :=
      (push_record hpush).quiet hst.struck
    split at hrun
    · cases hrun
    rename_i score x xb hsearch
    have hleft : Left x (x.popRepetitionAncestor key previous).closed := ⟨rfl, rfl, rfl, rfl⟩
    generalize (x.popRepetitionAncestor key previous).closed = y at hrun hleft
    rcases hopen.outcome (searchAfterMove_unwinds hchild hsearch hopen.struck) with hquiet | hcut
    · have hty := hquiet.left hleft
      split at hrun
      · obtain ⟨-, rfl, -⟩ := by simpa using hrun
        exact .inl (hty.trans (Quiet.saved hty.struck _ _ _ _ _))
      · exact hty.outcome (ih hrun hty.struck)
    split at hrun
    · -- a cutoff stores at once
      rename_i hhigh
      obtain ⟨rfl, rfl, -⟩ := by simpa using hrun
      have hstored := hcut.left_saved (g := g) hleft key depth score .lower action
        (by simp [OpenNode.storesPartial, hhigh]) rfl
      dsimp only [OpenNode.handBack] at hstored
      rw [if_pos hhigh] at hstored
      exact .inr hstored
    rename_i hlow
    cases rest with
    | nil =>
      -- the loop is over and stores
      obtain ⟨rfl, rfl, -⟩ := by simpa [alphaBetaLoop] using hrun
      have hstored := hcut.left_saved (g := g) hleft key depth (max bestValue score)
        (boundOf (max bestValue score) oldAlpha beta)
        (if bestValue < score then action else bestAction)
        rfl rfl
      dsimp only [OpenNode.handBack] at hstored
      rw [if_neg hlow] at hstored
      exact .inr hstored
    | cons next rest =>
      have hty := hcut.left_silent hleft (by simp [OpenNode.storesPartial, hlow]) rfl
      dsimp only [OpenNode.handBack] at hty
      rw [if_neg hlow] at hty
      obtain ⟨rfl, rfl⟩ := alphaBetaLoop_noticed hty.aborted hty.struck hrun
      exact .inr hty

theorem expandNode_unwinds {child : Int → WindowSearch W}
    (hchild : ∀ depth, Unwinds (child depth)) {depth oldAlpha v : Int}
    {probe : TtProbeResult} {s s' : Searcher} {wb wb' : W}
    (hrun : expandNode g child depth oldAlpha probe s wb = some (v, s', wb'))
    (hs : s.struck = false) : Outcome s (v, .none) s' := by
  have hsame : Quiet s s := SameRecord.quiet ⟨rfl, rfl, rfl⟩ hs
  unfold expandNode at hrun
  simp only at hrun
  split at hrun
  · obtain ⟨-, rfl, -⟩ := by simpa using hrun
    exact .inl (SameRecord.quiet ⟨rfl, rfl, rfl⟩ hs)
  split at hrun
  · obtain ⟨-, rfl, -⟩ := by simpa using hrun
    exact .inl hsame
  split at hrun
  · obtain ⟨-, rfl, -⟩ := by simpa using hrun
    exact .inl hsame
  · exact alphaBetaLoop_unwinds (hchild _) hrun hs

theorem searchNode_unwinds {child : Int → WindowSearch W} (hchild : ∀ depth, Unwinds (child depth))
    (depth : Int) : Unwinds (searchNode g child depth) := by
  intro alpha beta s wb v s' wb' hrun hs
  have hhit : Quiet s s.countTtHit := SameRecord.quiet ⟨rfl, rfl, rfl⟩ hs
  have hmiss : Quiet s (s.countTtMiss (g.key wb)) := SameRecord.quiet ⟨rfl, rfl, rfl⟩ hs
  unfold searchNode at hrun
  simp only at hrun
  split at hrun
  · obtain ⟨-, rfl, -⟩ := by simpa using hrun
    exact .inl hhit
  · exact hhit.outcome (expandNode_unwinds hchild hrun hhit.struck)
  · exact hmiss.outcome (expandNode_unwinds hchild hrun hmiss.struck)

/-- **Alpha-beta does what the moment of the abort leads to.** -/
theorem alphaBeta_unwinds (fuel : Nat) (depth : Int) : Unwinds (alphaBeta g fuel depth) := by
  induction fuel generalizing depth with
  | zero => intro alpha beta s wb v s' wb' hrun; cases hrun
  | succ fuel ih =>
    intro alpha beta s wb v s' wb' hrun hs
    unfold alphaBeta at hrun
    rcases hcheck : ({ s with nodes := s.nodes + 1 } : Searcher).checkAbort (g.score wb) .none with
      ⟨stop, t⟩
    obtain ⟨hstops, hgoes⟩ := checkAbort_outcome hcheck hs
    have hcounted : Quiet s { s with nodes := s.nodes + 1 } := SameRecord.quiet ⟨rfl, rfl, rfl⟩ hs
    simp only [hcheck] at hrun
    refine hcounted.outcome ?_
    split at hrun
    · rename_i hyes
      obtain ⟨rfl, rfl, -⟩ := by simpa using hrun
      exact .inr (hstops hyes)
    rename_i hno
    have hst := hgoes (by simpa using hno)
    split at hrun
    · obtain ⟨-, rfl, -⟩ := by simpa using hrun
      exact .inl hst
    split at hrun
    · exact hst.outcome (qsearchWithDepth_unwinds fuel depth hrun hst.struck)
    split at hrun
    · obtain ⟨-, rfl, -⟩ := by simpa using hrun
      exact .inl hst
    · exact hst.outcome (searchNode_unwinds ih depth hrun hst.struck)

/-- A search entered after the abort was noticed answers with the static score. -/
theorem alphaBeta_noticed {fuel : Nat} {depth alpha beta v : Int} {s s' : Searcher} {wb wb' : W}
    (hrun : alphaBeta g fuel depth alpha beta s wb = some (v, s', wb'))
    (haborted : s.aborted = true)
    (hstruck : s.struck = true) : v = g.score wb ∧ SameRecord s s' ∧ s'.aborted = true := by
  cases fuel with
  | zero => cases hrun
  | succ fuel =>
    have hcheck := checkAbort_noticed { s with nodes := s.nodes + 1 } (g.score wb) .none haborted
      hstruck
    unfold alphaBeta at hrun
    simp only [hcheck, if_true] at hrun
    obtain ⟨rfl, rfl, -⟩ := by simpa using hrun
    exact ⟨rfl, ⟨rfl, rfl, rfl⟩, haborted⟩

/-! ## Root moves -/

/-- A search of a root move's child that does what the moment leads to. -/
def UnwindsChild (search : Int → Int → Searcher → W → Run W Int) : Prop :=
  ∀ ⦃before after s wb v s' wb'⦄, search before after s wb = some (v, s', wb') →
    s.struck = false → Outcome s (v, .none) s'

/-- A search that answers with the static score once an abort is noticed. -/
def Halts (g : Game W) (search : WindowSearch W) : Prop :=
  ∀ ⦃alpha beta s wb v s' wb'⦄, search alpha beta s wb = some (v, s', wb') → s.aborted = true →
    s.struck = true → v = g.score wb ∧ SameRecord s s' ∧ s'.aborted = true

theorem searchAfterMove_halts {search : WindowSearch W} (h : Halts g search)
    {alpha beta before after v : Int} {s s' : Searcher} {wb wb' : W}
    (hrun : searchAfterMove search alpha beta before after s wb = some (v, s', wb'))
    (haborted : s.aborted = true) (hstruck : s.struck = true) :
    v = (if after ≠ before then wrapI32 (-g.score wb) else g.score wb) ∧ SameRecord s s'
      ∧ s'.aborted = true := by
  unfold searchAfterMove at hrun
  split at hrun
  · rename_i hside
    obtain ⟨⟨w, t, tb⟩, hsearch, heq⟩ := Option.map_eq_some_iff.1 hrun
    obtain ⟨rfl, rfl, -⟩ := by simpa using heq
    obtain ⟨rfl, hrecord, hab⟩ := h hsearch haborted hstruck
    rw [if_pos hside]
    refine ⟨rfl, ⟨hrecord.journal, ?_, hrecord.struck⟩, hab⟩
    exact congrArg List.tail hrecord.openNodes
  · rename_i hside
    rw [if_neg hside]
    exact h hrun haborted hstruck

theorem Cut.same (h : Cut s back t) (hrecord : SameRecord t u) (haborted : u.aborted = true) :
    Cut s back u := by
  obtain ⟨new, inner, value, action, hnew, hmoments⟩ := h.journal
  exact ⟨⟨new, inner, value, action, hrecord.journal.trans hnew, hmoments⟩,
    hrecord.openNodes.trans h.openNodes, hrecord.struck.trans h.struck, haborted⟩

/-- The null-window search, whose value goes back as it is or starts the second search. -/
theorem nullWindow_unwinds {child : WindowSearch W} (h : Unwinds child)
    {alpha before after v : Int} {s s' : Searcher} {wb wb' : W}
    (hrun : (if after ≠ before then
        (child (wrapI32 (wrapI32 (-alpha) - 1)) (wrapI32 (-alpha)) s wb).map
          fun (value, s, wb) => (wrapI32 (-value), s, wb)
      else child alpha (wrapI32 (alpha + 1)) s wb) = some (v, s', wb')) (hs : s.struck = false) :
    ∃ w, Outcome s (w, .none) s' ∧ v = if after ≠ before then wrapI32 (-w) else w := by
  split at hrun
  · rename_i hside
    obtain ⟨⟨w, u, ub⟩, hsearch, heq⟩ := Option.map_eq_some_iff.1 hrun
    obtain ⟨rfl, rfl, -⟩ := by simpa using heq
    exact ⟨w, h hsearch hs, (if_pos hside).symm⟩
  · rename_i hside
    exact ⟨v, h hrun hs, (if_neg hside).symm⟩

theorem pvsAfterMove_unwinds {child : WindowSearch W} (hchild : Unwinds child)
    (hrestore : Restores child) (hhalts : Halts g child) (depth alpha beta : Int) (i : Nat) :
    UnwindsChild fun before after => pvsAfterMove g child depth alpha beta i before after := by
  intro before after s wb v s' wb' hrun hs
  simp only [pvsAfterMove] at hrun
  split at hrun
  · exact searchAfterMove_unwinds hchild hrun hs
  split at hrun
  · obtain ⟨-, rfl, -⟩ := by simpa using hrun
    exact .inl (SameRecord.quiet ⟨rfl, rfl, rfl⟩ hs)
  split at hrun
  · exact searchAfterMove_unwinds hchild hrun hs
  split at hrun
  · cases hrun
  rename_i value t tb hnull
  obtain ⟨-, rfl⟩ := nullWindow_restores hrestore hnull
  obtain ⟨w, hquiet | hcut, hvalue⟩ := nullWindow_unwinds hchild hnull hs
  · have hst := hquiet.left (left_closed t)
    split at hrun
    · exact hst.outcome (searchAfterMove_unwinds hchild hrun hst.struck)
    · obtain ⟨-, rfl, -⟩ := by simpa using hrun
      exact .inl hst
  · have hst := hcut.left_silent (left_closed t) rfl rfl
    dsimp only [OpenNode.handBack] at hst
    simp only [decide_eq_true_eq, ← hvalue] at hst
    split at hrun
    · -- the second search ends at its first check
      rename_i hinside
      rw [if_pos hinside] at hst
      obtain ⟨rfl, hrecord, hab⟩ := searchAfterMove_halts hhalts hrun hst.aborted hst.struck
      exact .inr (hst.same hrecord hab)
    · rename_i houtside
      rw [if_neg houtside] at hst
      obtain ⟨rfl, rfl, -⟩ := by simpa using hrun
      exact .inr hst

theorem searchRootMove_unwinds {search : Int → Int → Searcher → W → Run W Int}
    (h : UnwindsChild search) {rootKey : BitVec 64} {best : Int} {bestAction action : Action}
    {v : Int} {s s' : Searcher} {wb wb' : W}
    (hrun : searchRootMove g search rootKey best bestAction action s wb = some (v, s', wb'))
    (hs : s.struck = false) :
    ∃ x, Outcome (s.opened (.rootMove action best bestAction)) (v, .none) x ∧ Left x s' := by
  unfold searchRootMove at hrun
  simp only at hrun
  split at hrun
  · cases hrun
  rename_i previous u hpush
  split at hrun
  · cases hrun
  rename_i score x xb hsearch
  obtain ⟨rfl, rfl, -⟩ := by simpa using hrun
  have hopen : Quiet (s.opened (.rootMove action best bestAction)) u :=
    (push_record hpush).quiet hs
  exact ⟨x, hopen.outcome (h hsearch hopen.struck), rfl, rfl, rfl, rfl⟩

theorem Left.recorded (h : Left x y) (action : Action) (value : Int) (nodes : Nat) (cutoff : Bool) :
    Left x (y.recordRootMove action value nodes cutoff) := by
  obtain ⟨hrecord, haborted⟩ := recordRootMove_record y action value nodes cutoff
  exact ⟨hrecord.journal.trans h.journal, hrecord.openNodes.trans h.openNodes,
    hrecord.struck.trans h.struck, haborted.trans h.aborted⟩

section RootMove

variable {action bestAction : Action} {best v : Int}

/-- A root move chosen before any abort. -/
theorem Quiet.chosen (h : Quiet s t) : Quiet s (t.note (.chosen action v t.struck)) :=
  h.trans (Quiet.wrote h.struck (.chosen action v t.struck) rfl rfl rfl rfl ⟨rfl, h.struck⟩)

/-- A root move chosen for the value an abort has left. -/
theorem Cut.left_chosen (h : Cut (s.opened (.rootMove action best bestAction)) (v, .none) x)
    (hleft : Left x y) (hlt : best < v) :
    Cut s (v, action) (y.note (.chosen action v y.struck)) := by
  have hstruck : y.struck = true := hleft.struck.trans h.struck
  have hcut := h.left hleft [.chosen action v y.struck] (z := y.note (.chosen action v y.struck))
    rfl rfl rfl rfl rfl ⟨rfl, by simp [partialChoice, OpenNode.choosesPartial, hlt, hstruck]⟩
  dsimp only [OpenNode.handBack] at hcut
  rwa [if_pos hlt] at hcut

theorem Cut.left_kept (h : Cut (s.opened (.rootMove action best bestAction)) (v, .none) x)
    (hleft : Left x y) (hle : ¬best < v) : Cut s (best, bestAction) y := by
  have hcut := h.left_silent hleft rfl (by simpa [OpenNode.choosesPartial] using hle)
  dsimp only [OpenNode.handBack] at hcut
  rwa [if_neg hle] at hcut

end RootMove

/-! ## The root loops -/

section Loops

variable {child : WindowSearch W} {depth alpha beta : Int} {rootKey : BitVec 64} {i : Nat}
  {moves : List Action} {best score : Int} {act bestAction : Action} {s' : Searcher} {wb wb' : W}

theorem searchLoop_noticed (haborted : s.aborted = true) (hstruck : s.struck = true)
    (hrun : searchLoop g child rootKey moves best act s wb = some ((score, bestAction), s', wb')) :
    (best, act) = (score, bestAction) ∧ s' = s := by
  cases moves with
  | nil =>
    obtain ⟨⟨rfl, rfl⟩, rfl, -⟩ := by simpa [searchLoop] using hrun
    exact ⟨rfl, rfl⟩
  | cons action rest =>
    unfold searchLoop at hrun
    rw [checkAbort_noticed s _ _ haborted hstruck] at hrun
    obtain ⟨⟨rfl, rfl⟩, rfl, -⟩ := by simpa using hrun
    exact ⟨rfl, rfl⟩

theorem searchLoop_unwinds (hchild : Unwinds child)
    (hrun : searchLoop g child rootKey moves best act s wb = some ((score, bestAction), s', wb'))
    (hs : s.struck = false) : Outcome s (score, bestAction) s' := by
  induction moves generalizing best act s wb with
  | nil =>
    obtain ⟨-, rfl, -⟩ := by simpa [searchLoop] using hrun
    exact .inl (SameRecord.quiet ⟨rfl, rfl, rfl⟩ hs)
  | cons action rest ih =>
    unfold searchLoop at hrun
    rcases hcheck : s.checkAbort best act with ⟨stop, t⟩
    obtain ⟨hstops, hgoes⟩ := checkAbort_outcome hcheck hs
    simp only [hcheck] at hrun
    split at hrun
    · rename_i hyes
      obtain ⟨⟨rfl, rfl⟩, rfl, -⟩ := by simpa using hrun
      exact .inr (hstops hyes)
    rename_i hno
    have hst := hgoes (by simpa using hno)
    -- the check let the move go, so the record stands as before; the rest decides the outcome
    refine hst.outcome ?_
    split at hrun
    · cases hrun
    rename_i v y yb hmove
    obtain ⟨x, hx, hleft⟩ := searchRootMove_unwinds
      (fun _ _ _ _ _ _ _ h => searchAfterMove_unwinds hchild h) hmove hst.struck
    replace hleft := hleft.recorded action v (y.nodes - t.nodes) false
    generalize y.recordRootMove action v (y.nodes - t.nodes) false = z at hrun hleft
    -- the child was quiet, or it was cut and its value is or is not taken
    rcases hx with hquiet | hcut
    · have htz := hquiet.left hleft
      split at hrun
      · exact htz.chosen.outcome (ih hrun htz.struck)
      · exact htz.outcome (ih hrun htz.struck)
    · split at hrun
      · rename_i hlt
        have htz := hcut.left_chosen hleft hlt
        obtain ⟨hsame, rfl⟩ := searchLoop_noticed htz.aborted htz.struck hrun
        exact .inr (hsame ▸ htz)
      · rename_i hle
        have htz := hcut.left_kept hleft hle
        obtain ⟨hsame, rfl⟩ := searchLoop_noticed htz.aborted htz.struck hrun
        exact .inr (hsame ▸ htz)

theorem pvsLoop_noticed (haborted : s.aborted = true) (hstruck : s.struck = true)
    (hrun : pvsLoop g child depth beta rootKey i moves best act s wb
      = some ((score, bestAction), s', wb')) : (best, act) = (score, bestAction) ∧ s' = s := by
  cases moves with
  | nil =>
    obtain ⟨⟨rfl, rfl⟩, rfl, -⟩ := by simpa [pvsLoop] using hrun
    exact ⟨rfl, rfl⟩
  | cons action rest =>
    unfold pvsLoop at hrun
    rw [checkAbort_noticed s _ _ haborted hstruck] at hrun
    obtain ⟨⟨rfl, rfl⟩, rfl, -⟩ := by simpa using hrun
    exact ⟨rfl, rfl⟩

theorem pvsLoop_unwinds (hchild : Unwinds child) (hrestore : Restores child)
    (hhalts : Halts g child)
    (hrun : pvsLoop g child depth beta rootKey i moves best act s wb
      = some ((score, bestAction), s', wb'))
    (hs : s.struck = false) : Outcome s (score, bestAction) s' := by
  induction moves generalizing i best act s wb with
  | nil =>
    obtain ⟨-, rfl, -⟩ := by simpa [pvsLoop] using hrun
    exact .inl (SameRecord.quiet ⟨rfl, rfl, rfl⟩ hs)
  | cons action rest ih =>
    unfold pvsLoop at hrun
    rcases hcheck : s.checkAbort best act with ⟨stop, t⟩
    obtain ⟨hstops, hgoes⟩ := checkAbort_outcome hcheck hs
    simp only [hcheck] at hrun
    split at hrun
    · rename_i hyes
      obtain ⟨⟨rfl, rfl⟩, rfl, -⟩ := by simpa using hrun
      exact .inr (hstops hyes)
    rename_i hno
    have hst := hgoes (by simpa using hno)
    -- the same as for the plain loop; the second search of a move is inside `searchRootMove`
    refine hst.outcome ?_
    split at hrun
    · cases hrun
    rename_i v y yb hmove
    obtain ⟨x, hx, hleft⟩ := searchRootMove_unwinds
      (pvsAfterMove_unwinds hchild hrestore hhalts _ _ _ _) hmove hst.struck
    replace hleft := hleft.recorded action v (y.nodes - t.nodes) false
    generalize y.recordRootMove action v (y.nodes - t.nodes) false = z at hrun hleft
    rcases hx with hquiet | hcut
    · have htz := hquiet.left hleft
      split at hrun
      · exact htz.chosen.outcome (ih hrun htz.struck)
      · exact htz.outcome (ih hrun htz.struck)
    · split at hrun
      · rename_i hlt
        have htz := hcut.left_chosen hleft hlt
        obtain ⟨hsame, rfl⟩ := pvsLoop_noticed htz.aborted htz.struck hrun
        exact .inr (hsame ▸ htz)
      · rename_i hle
        have htz := hcut.left_kept hleft hle
        obtain ⟨hsame, rfl⟩ := pvsLoop_noticed htz.aborted htz.struck hrun
        exact .inr (hsame ▸ htz)

theorem pvsWindowedLoop_noticed (haborted : s.aborted = true) (hstruck : s.struck = true)
    (hrun : pvsWindowedLoop g child depth beta rootKey i moves best act s wb
      = some ((score, bestAction), s', wb')) : (best, act) = (score, bestAction) ∧ s' = s := by
  cases moves with
  | nil =>
    obtain ⟨⟨rfl, rfl⟩, rfl, -⟩ := by simpa [pvsWindowedLoop] using hrun
    exact ⟨rfl, rfl⟩
  | cons action rest =>
    unfold pvsWindowedLoop at hrun
    rw [checkAbort_noticed s _ _ haborted hstruck] at hrun
    obtain ⟨⟨rfl, rfl⟩, rfl, -⟩ := by simpa using hrun
    exact ⟨rfl, rfl⟩

theorem pvsWindowedLoop_unwinds (hchild : Unwinds child) (hrestore : Restores child)
    (hhalts : Halts g child)
    (hrun : pvsWindowedLoop g child depth beta rootKey i moves best act s wb
      = some ((score, bestAction), s', wb'))
    (hs : s.struck = false) : Outcome s (score, bestAction) s' := by
  induction moves generalizing i best act s wb with
  | nil =>
    obtain ⟨-, rfl, -⟩ := by simpa [pvsWindowedLoop] using hrun
    exact .inl (SameRecord.quiet ⟨rfl, rfl, rfl⟩ hs)
  | cons action rest ih =>
    unfold pvsWindowedLoop at hrun
    rcases hcheck : s.checkAbort best act with ⟨stop, t⟩
    obtain ⟨hstops, hgoes⟩ := checkAbort_outcome hcheck hs
    simp only [hcheck] at hrun
    split at hrun
    · rename_i hyes
      obtain ⟨⟨rfl, rfl⟩, rfl, -⟩ := by simpa using hrun
      exact .inr (hstops hyes)
    rename_i hno
    have hst := hgoes (by simpa using hno)
    refine hst.outcome ?_
    split at hrun
    · cases hrun
    rename_i v y yb hmove
    obtain ⟨x, hx, hleft⟩ := searchRootMove_unwinds
      (pvsAfterMove_unwinds hchild hrestore hhalts _ _ _ _) hmove hst.struck
    replace hleft := hleft.recorded action v (y.nodes - t.nodes) (decide (beta ≤ v))
    generalize y.recordRootMove action v (y.nodes - t.nodes) (decide (beta ≤ v)) = z at hrun hleft
    -- whether or not the move is taken, the loop goes on with the better of the two
    rcases hx with hquiet | hcut
    · have htz : Quiet t (if best < v then z.note (.chosen action v z.struck) else z) := by
        split
        · exact (hquiet.left hleft).chosen
        · exact hquiet.left hleft
      split at hrun
      · obtain ⟨-, rfl, -⟩ := by simpa using hrun
        exact .inl htz
      · exact htz.outcome (ih hrun htz.struck)
    · have htz : Cut t (max best v, if best < v then action else act)
          (if best < v then z.note (.chosen action v z.struck) else z) := by
        by_cases hlt : best < v
        · rw [if_pos hlt, if_pos hlt, max_eq_right hlt.le]
          exact hcut.left_chosen hleft hlt
        · rw [if_neg hlt, if_neg hlt, max_eq_left (Int.not_lt.1 hlt)]
          exact hcut.left_kept hleft hlt
      split at hrun
      · obtain ⟨⟨rfl, rfl⟩, rfl, -⟩ := by simpa using hrun
        exact .inr htz
      · obtain ⟨hsame, rfl⟩ := pvsWindowedLoop_noticed htz.aborted htz.struck hrun
        exact .inr (hsame ▸ htz)

theorem mtdfRootLoop_noticed (haborted : s.aborted = true) (hstruck : s.struck = true)
    (hrun : mtdfRootLoop g child rootKey beta moves alpha best act s wb
      = some ((score, bestAction), s', wb')) : s' = s := by
  cases moves with
  | nil =>
    obtain ⟨-, rfl, -⟩ := by simpa [mtdfRootLoop] using hrun
    rfl
  | cons action rest =>
    unfold mtdfRootLoop at hrun
    rw [checkAbort_noticed s _ _ haborted hstruck] at hrun
    obtain ⟨-, rfl, -⟩ := by simpa using hrun
    rfl

/-- The loop of a root probe; what it goes back with does not matter, the probe stores it. -/
theorem mtdfRootLoop_unwinds (hchild : Unwinds child)
    (hrun : mtdfRootLoop g child rootKey beta moves alpha best act s wb
      = some ((score, bestAction), s', wb'))
    (hs : s.struck = false) : ∃ back, Outcome s back s' := by
  induction moves generalizing alpha best act s wb with
  | nil =>
    obtain ⟨-, rfl, -⟩ := by simpa [mtdfRootLoop] using hrun
    exact ⟨(0, .none), .inl (SameRecord.quiet ⟨rfl, rfl, rfl⟩ hs)⟩
  | cons action rest ih =>
    unfold mtdfRootLoop at hrun
    rcases hcheck : s.checkAbort best act with ⟨stop, t⟩
    obtain ⟨hstops, hgoes⟩ := checkAbort_outcome hcheck hs
    simp only [hcheck] at hrun
    split at hrun
    · rename_i hyes
      obtain ⟨-, rfl, -⟩ := by simpa using hrun
      exact ⟨_, .inr (hstops hyes)⟩
    rename_i hno
    have hst := hgoes (by simpa using hno)
    split at hrun
    · cases hrun
    rename_i v y yb hmove
    obtain ⟨x, hx, hleft⟩ := searchRootMove_unwinds
      (fun _ _ _ _ _ _ _ h => searchAfterMove_unwinds hchild h) hmove hst.struck
    replace hleft := hleft.recorded action v (y.nodes - t.nodes) (decide (beta ≤ v))
    generalize y.recordRootMove action v (y.nodes - t.nodes) (decide (beta ≤ v)) = z at hrun hleft
    rcases hx with hquiet | hcut
    · have htz := hst.trans (hquiet.left hleft)
      split at hrun
      · split at hrun
        · obtain ⟨-, rfl, -⟩ := by simpa using hrun
          exact ⟨(v, action), .inl htz.chosen⟩
        · obtain ⟨back, hback⟩ := ih hrun htz.struck
          exact ⟨back, htz.chosen.outcome hback⟩
      · obtain ⟨back, hback⟩ := ih hrun htz.struck
        exact ⟨back, htz.outcome hback⟩
    · split at hrun
      -- a cut below the root: whether beta is reached or not, the loop notices it next
      · have htz := hst.cut (hcut.left_chosen hleft (by omega))
        split at hrun
        · obtain ⟨-, rfl, -⟩ := by simpa using hrun
          exact ⟨_, .inr htz⟩
        · obtain rfl := mtdfRootLoop_noticed htz.aborted htz.struck hrun
          exact ⟨_, .inr htz⟩
      · have htz := hst.cut (hcut.left_kept hleft (by omega))
        obtain rfl := mtdfRootLoop_noticed htz.aborted htz.struck hrun
        exact ⟨_, .inr htz⟩

end Loops

/-! ## The entry points -/

/-- The searcher with the record a root search starts from. -/
def fresh (s : Searcher) : Searcher := { s with struck := false, openNodes := [] }

/-- The prologue starts a new record, and hands on legal moves. -/
theorem rootStart_record (shuffles : Bool) (depth : Int) (s : Searcher) (wb : W) :
    match rootStart g shuffles depth s wb with
    | .done _ t => SameRecord s.fresh t
    | .moves moves t => SameRecord s.fresh t
      ∧ ∀ a ∈ moves, a ∈ g.generateLegalCtx wb s.options.moveOrderContext := by
  obtain ⟨hshuffled, rng, hstate⟩ := shuffleRootMoves_spec (s.beginRootSearchAt g wb) shuffles
    (g.generateLegalCtx wb s.options.moveOrderContext)
  have hcontext : (s.beginRootSearchAt g wb).options.moveOrderContext
      = s.options.moveOrderContext := rfl
  unfold rootStart
  simp only [hcontext]
  cases hterm : g.terminalScore wb (g.sideToMove wb) depth with
  | some score => exact ⟨rfl, rfl, rfl⟩
  | none =>
    simp only
    rw [hstate]
    -- no move or one move ends the search before it starts
    split <;> rename_i heq
    · split at heq
      · obtain ⟨-, rfl⟩ := by simpa using heq
        exact ⟨rfl, rfl, rfl⟩
      · obtain ⟨-, rfl⟩ := by simpa using heq
        refine SameRecord.trans ?_ (recordRootMove_record _ _ _ _ _).1
        exact ⟨rfl, rfl, rfl⟩
      · cases heq
    · split at heq
      · cases heq
      · cases heq
      · obtain ⟨rfl, rfl⟩ := by simpa using heq
        refine ⟨⟨rfl, rfl, rfl⟩, fun a ha => ?_⟩
        exact hshuffled.mem_iff.1 ((orderMoves_perm g _ wb (g.key wb) _).mem_iff.1 ha)

section Roots

variable {fuel : Nat} {s' : Searcher} {wb wb' : W} {depth : Int} {result : SearchResult}

theorem search_unwinds (hrun : search g fuel s wb depth = some (result, s', wb')) :
    Outcome s.fresh (result.score, result.bestAction) s' := by
  have hstart := rootStart_record (g := g) true depth s wb
  unfold search at hrun
  split at hrun
  · rename_i hdone
    rw [hdone] at hstart
    obtain ⟨-, rfl, -⟩ := by simpa using hrun
    exact .inl (hstart.quiet rfl)
  · rename_i moves t hmoves
    rw [hmoves] at hstart
    obtain ⟨⟨⟨w, move⟩, x, xb⟩, hloop, heq⟩ := Option.map_eq_some_iff.1 hrun
    obtain ⟨rfl, rfl, -⟩ := by simpa using heq
    have hst := hstart.1.quiet rfl
    exact hst.outcome (searchLoop_unwinds (alphaBeta_unwinds fuel _) hloop hst.struck)

theorem searchPvs_unwinds (law : g.Reversible)
    (hrun : searchPvs g fuel s wb depth = some (result, s', wb')) :
    Outcome s.fresh (result.score, result.bestAction) s' := by
  have hstart := rootStart_record (g := g) true depth s wb
  unfold searchPvs at hrun
  split at hrun
  · rename_i hdone
    rw [hdone] at hstart
    obtain ⟨-, rfl, -⟩ := by simpa using hrun
    exact .inl (hstart.quiet rfl)
  · rename_i moves t hmoves
    rw [hmoves] at hstart
    obtain ⟨⟨⟨w, move⟩, x, xb⟩, hloop, heq⟩ := Option.map_eq_some_iff.1 hrun
    obtain ⟨rfl, rfl, -⟩ := by simpa using heq
    have hst := hstart.1.quiet rfl
    exact hst.outcome (pvsLoop_unwinds (alphaBeta_unwinds fuel _) (alphaBeta_restores law fuel _)
      (fun _ _ _ _ _ _ _ h => alphaBeta_noticed h) hloop hst.struck)

theorem searchPvsWindowed_unwinds (law : g.Reversible) {alpha beta : Int}
    (hrun : searchPvsWindowed g fuel s wb depth alpha beta = some (result, s', wb')) :
    Outcome s.fresh (result.score, result.bestAction) s' := by
  have hstart := rootStart_record (g := g) false depth s wb
  unfold searchPvsWindowed at hrun
  split at hrun
  · rename_i hdone
    rw [hdone] at hstart
    obtain ⟨-, rfl, -⟩ := by simpa using hrun
    exact .inl (hstart.quiet rfl)
  · rename_i moves t hmoves
    rw [hmoves] at hstart
    obtain ⟨⟨⟨w, move⟩, x, xb⟩, hloop, heq⟩ := Option.map_eq_some_iff.1 hrun
    obtain ⟨rfl, rfl, -⟩ := by simpa using heq
    have hst := hstart.1.quiet rfl
    exact hst.outcome (pvsWindowedLoop_unwinds (alphaBeta_unwinds fuel _)
      (alphaBeta_restores law fuel _) (fun _ _ _ _ _ _ _ h => alphaBeta_noticed h) hloop hst.struck)

/-! ## MTD(f) -/

/-- **A root probe** stores what its loop left with, whether or not it was cut short. -/
theorem mtdfRootTraced_unwinds {beta v : Int} {action bestAction : Action}
    (hrun : mtdfRootTraced g fuel depth beta action s wb = some ((v, bestAction), s', wb'))
    (hs : s.struck = false) : ∃ back, Outcome s back s' := by
  unfold mtdfRootTraced at hrun
  simp only at hrun
  split at hrun
  · obtain ⟨-, rfl, -⟩ := by simpa using hrun
    exact ⟨(0, .none), .inl (SameRecord.quiet ⟨rfl, rfl, rfl⟩ hs)⟩
  obtain ⟨⟨⟨w, move⟩, x, xb⟩, hloop, heq⟩ := Option.map_eq_some_iff.1 hrun
  obtain ⟨-, rfl, -⟩ := by simpa using heq
  obtain ⟨back, hback⟩ := mtdfRootLoop_unwinds (alphaBeta_unwinds fuel _) hloop
    (by split <;> exact hs)
  have hopen : Outcome (s.opened .probe) back x := by
    refine Quiet.outcome (SameRecord.quiet ⟨?_, ?_, ?_⟩ hs) hback <;> split <;> rfl
  rcases hopen with hquiet | hcut
  · have hsx := hquiet.left (left_closed x)
    exact ⟨back, .inl (hsx.trans (Quiet.saved hsx.struck _ _ _ _ _))⟩
  · exact ⟨back, .inr (hcut.left_saved (left_closed x) _ _ _ _ _ rfl rfl)⟩

theorem mtdfLoop_unwinds {probe : Int → Action → Searcher → W → Run W (Int × Action)}
    (hprobe : ∀ ⦃beta action s wb answer s' wb'⦄, probe beta action s wb = some (answer, s', wb') →
      s.struck = false → ∃ back, Outcome s back s')
    {probes : Nat} {guess lower upper v : Int} {action bestAction : Action}
    (hrun : mtdfLoop probe probes guess lower upper action s wb = some ((v, bestAction), s', wb'))
    (hs : s.struck = false) : ∃ back, Outcome s back s' := by
  induction probes generalizing guess lower upper action s wb with
  | zero => cases hrun
  | succ probes ih =>
    unfold mtdfLoop at hrun
    split at hrun
    · simp only at hrun
      split at hrun
      · cases hrun
      rename_i w move t tb hone
      obtain ⟨back, hback⟩ := hprobe hone hs
      split at hrun
      · obtain ⟨-, rfl, -⟩ := by simpa using hrun
        exact ⟨back, hback⟩
      · -- the loop goes on, so this probe met no abort
        rename_i hgoes
        have hst := hback.resolve_right fun hcut => hgoes hcut.aborted
        obtain ⟨last, hlast⟩ := ih hrun hst.struck
        exact ⟨last, hst.outcome hlast⟩
    · obtain ⟨-, rfl, -⟩ := by simpa using hrun
      exact ⟨(0, .none), .inl (SameRecord.quiet ⟨rfl, rfl, rfl⟩ hs)⟩

theorem searchMtdfWithGuess_unwinds {probes : Nat} {guess : Int}
    (hrun : searchMtdfWithGuess g fuel probes s wb depth guess = some (result, s', wb')) :
    ∃ back, Outcome s.fresh back s' := by
  have hstart := rootStart_record (g := g) true depth s wb
  unfold searchMtdfWithGuess at hrun
  split at hrun
  · rename_i hdone
    rw [hdone] at hstart
    obtain ⟨-, rfl, -⟩ := by simpa using hrun
    exact ⟨(0, .none), .inl (hstart.quiet rfl)⟩
  · rename_i moves t hmoves
    rw [hmoves] at hstart
    obtain ⟨⟨⟨w, move⟩, x, xb⟩, hloop, heq⟩ := Option.map_eq_some_iff.1 hrun
    obtain ⟨-, rfl, -⟩ := by simpa using heq
    have hst := hstart.1.quiet rfl
    obtain ⟨back, hback⟩ := mtdfLoop_unwinds
      (fun _ _ _ _ _ _ _ h => mtdfRootTraced_unwinds h) hloop hst.struck
    exact ⟨back, hst.outcome hback⟩

end Roots

/-! ## The discipline -/

/-- Between two states of a run: no partial value was stored exactly if no moment of an abort leads
to such a store, and none was chosen exactly if none leads to such a choice. -/
def Disciplined (s s' : Searcher) : Prop :=
  ∃ new, s'.journal = new ++ s.journal
    ∧ ((∀ e ∈ new, partialStore e = false) ↔ ∀ m ∈ moments new, m.leaksStore = false)
    ∧ ((∀ e ∈ new, partialChoice e = false) ↔ ∀ m ∈ moments new, m.leaksChoice = false)

theorem Disciplined.trans (h : Disciplined s t) (h' : Disciplined t u) : Disciplined s u := by
  obtain ⟨old, hold, hstores, hchoices⟩ := h
  obtain ⟨young, hyoung, hstores', hchoices'⟩ := h'
  refine ⟨young ++ old, by rw [hyoung, hold, List.append_assoc], ?_, ?_⟩
  · rw [moments_append, List.forall_mem_append, List.forall_mem_append, hstores, hstores']
  · rw [moments_append, List.forall_mem_append, List.forall_mem_append, hchoices, hchoices']

theorem forall_eq_false_iff {α : Type} (p : α → Bool) (l : List α) :
    (∀ e ∈ l, p e = false) ↔ l.any p = false := by
  rw [List.any_eq_false]
  simp

theorem Outcome.disciplined (h : Outcome s.fresh back t) : Disciplined s t := by
  rcases h with hquiet | hcut
  · obtain ⟨new, hnew, hnone, haccounts⟩ := hquiet.journal
    refine ⟨new, hnew, ?_, ?_⟩
    · rw [hnone, forall_eq_false_iff, haccounts.stores]
      simp
    · rw [hnone, forall_eq_false_iff, haccounts.choices]
      simp
  · obtain ⟨new, inner, value, action, hnew, hone, haccounts, -⟩ := hcut.journal
    have hinner : inner ++ s.fresh.openNodes = inner := List.append_nil inner
    rw [hinner] at hone
    refine ⟨new, hnew, ?_, ?_⟩
    · rw [hone, forall_eq_false_iff, haccounts.stores]
      simp [Moment.leaksStore, Moment.arrivals]
    · rw [hone, forall_eq_false_iff, haccounts.choices]
      simp [Moment.leaksChoice, Moment.arrivals]

/-! ## Iterative deepening -/

/-- The answer of the search that ended in `s'` is the one its moment leads to, if it has one. -/
def AnswersMoment (result : SearchResult) (s' : Searcher) : Prop :=
  s'.struck = true → ∃ m, (moments s'.journal).head? = some m
    ∧ m.answer = (result.score, result.bestAction)

theorem Outcome.answers {result : SearchResult}
    (h : Outcome s.fresh (result.score, result.bestAction) t) : AnswersMoment result t := by
  intro hstruck
  rcases h with hquiet | hcut
  · exact absurd (hquiet.struck.symm.trans hstruck) Bool.false_ne_true
  · obtain ⟨new, inner, value, action, hnew, hone, -, hback⟩ := hcut.journal
    have hinner : inner ++ s.fresh.openNodes = inner := List.append_nil inner
    rw [hinner] at hone
    refine ⟨{ openNodes := inner, value, action }, ?_, hback⟩
    rw [hnew, moments_append, hone]
    rfl

/-- Between depths an abort that was not noticed is not recorded. -/
theorem Outcome.struck_of_aborted (h : Outcome s back t) (hab : t.aborted = false) :
    t.struck = false :=
  (h.resolve_right fun hcut => Bool.false_ne_true (hab.symm.trans hcut.aborted)).struck

section Deepening

variable {fuel : Nat} {s' : Searcher} {wb wb' : W} {depth : Int} {result : SearchResult}

/-- What a depth of iterative deepening leaves. -/
structure Deepened (s : Searcher) (result : SearchResult) (s' : Searcher) : Prop where
  disciplined : Disciplined s s'
  answers : AnswersMoment result s'
  struck : s'.aborted = false → s'.struck = false

theorem Outcome.deepened (h : Outcome s.fresh (result.score, result.bestAction) t) :
    Deepened s result t :=
  ⟨h.disciplined, h.answers, h.struck_of_aborted⟩

theorem Disciplined.deepened (h : Disciplined s t) (h' : Deepened t result u) :
    Deepened s result u :=
  ⟨h.trans h'.disciplined, h'.answers, h'.struck⟩

theorem aspirationLoop_deepened (law : g.Reversible) {searchFuel : Nat} {alpha beta delta : Int}
    (hrun : aspirationLoop g searchFuel depth fuel alpha beta delta s wb
      = some (result, s', wb')) : Deepened s result s' := by
  induction fuel generalizing alpha beta delta s wb with
  | zero => cases hrun
  | succ fuel ih =>
    unfold aspirationLoop at hrun
    split at hrun
    · cases hrun
    rename_i candidate t tb hwindow
    have hst := (searchPvsWindowed_unwinds law hwindow).deepened
    simp only at hrun
    split at hrun
    · split at hrun
      · exact hst.disciplined.deepened (searchPvs_unwinds law hrun).deepened
      · exact hst.disciplined.deepened (ih hrun)
    split at hrun
    · split at hrun
      · exact hst.disciplined.deepened (searchPvs_unwinds law hrun).deepened
      · exact hst.disciplined.deepened (ih hrun)
    · obtain ⟨rfl, rfl, -⟩ := by simpa using hrun
      exact hst

theorem deepen_deepened (law : g.Reversible) {previous : SearchResult}
    (hrun : deepen g fuel depth previous s wb = some (result, s', wb')) :
    Deepened s result s' := by
  unfold deepen at hrun
  split at hrun
  · exact (searchPvs_unwinds law hrun).deepened
  · exact aspirationLoop_deepened law hrun

end Deepening

/-- The result of each further depth, and whether an abort was noticed in its search. -/
def deepenTrace (g : Game W) (fuel : Nat) :
    Nat → Int → SearchResult → Searcher → W → List (SearchResult × Bool)
  | 0, _, _, _, _ => []
  | count + 1, depth, result, s, wb =>
    match deepen g fuel depth result s wb with
    | none => []
    | some (result, s, wb) =>
      (result, s.struck) ::
        if s.aborted then [] else deepenTrace g fuel count (depth + 1) result s wb

/-- The result of each depth `iterative_deepening` starts, and whether an abort was noticed
there. -/
def deepeningTrace (g : Game W) (fuel : Nat) (s : Searcher) (wb : W) (maxDepth : Int) :
    List (SearchResult × Bool) :=
  match searchPvs g fuel s wb 1 with
  | none => []
  | some (result, s, wb) =>
    (result, s.struck) :: deepenTrace g fuel (max maxDepth 1 - 1).toNat 2 result s wb

/-- The result of the last depth that was not cut short. -/
def lastCompleted (trace : List (SearchResult × Bool)) : Option SearchResult :=
  ((trace.filter fun entry => !entry.2).getLast?).map Prod.fst

/-- `other` is there, with this score and move. -/
def SameAnswer (answer : Int × Action) (other : Option SearchResult) : Prop :=
  ∃ r, other = some r ∧ (r.score, r.bestAction) = answer

/-- The loop ends with the last depth it started. -/
theorem deepenFrom_deepened (law : g.Reversible) {fuel count : Nat} {depth : Int}
    {previous result : SearchResult} {s₀ s s' : Searcher} {wb wb' : W}
    (hprevious : Deepened s₀ previous s)
    (hrun : deepenFrom g fuel count depth previous s wb = some (result, s', wb')) :
    Deepened s₀ result s' ∧ ∃ earlier,
      (previous, s.struck) :: deepenTrace g fuel count depth previous s wb
        = earlier ++ [(result, s'.struck)] := by
  induction count generalizing depth previous s wb with
  | zero =>
    obtain ⟨rfl, rfl, -⟩ := by simpa [deepenFrom] using hrun
    exact ⟨hprevious, [], rfl⟩
  | succ count ih =>
    rw [deepenFrom] at hrun
    rw [deepenTrace]
    cases hdeepen : deepen g fuel depth previous s wb with
    | none => rw [hdeepen] at hrun; cases hrun
    | some answer =>
      obtain ⟨next, t, tb⟩ := answer
      have hst := hprevious.disciplined.deepened (deepen_deepened law hdeepen)
      rw [hdeepen] at hrun
      simp only at hrun ⊢
      by_cases hab : t.aborted = true
      · rw [if_pos hab] at hrun ⊢
        obtain ⟨rfl, rfl, -⟩ := by simpa using hrun
        exact ⟨hst, [(previous, s.struck)], rfl⟩
      · rw [if_neg hab] at hrun ⊢
        obtain ⟨htu, earlier, hearlier⟩ := ih hst hrun
        refine ⟨htu, (previous, s.struck) :: earlier, ?_⟩
        rw [hearlier, List.cons_append]

/-- **Iterative deepening** returns the last depth it started: the answer of the last completed
depth, unless an abort was noticed in that depth and leads to another answer. -/
theorem iterativeDeepening_deepened (law : g.Reversible) {fuel : Nat} {s s' : Searcher} {wb wb' : W}
    {maxDepth : Int} {result : SearchResult} (hlive : g.rootShortCircuitDraw wb = none)
    (hrun : iterativeDeepening g fuel s wb maxDepth = some (result, s', wb')) :
    Disciplined s s'
      ∧ (SameAnswer (result.score, result.bestAction)
          (lastCompleted (deepeningTrace g fuel s wb maxDepth))
        ↔ (s'.struck = true → ∃ m, (moments s'.journal).head? = some m
          ∧ SameAnswer m.answer (lastCompleted (deepeningTrace g fuel s wb maxDepth)))) := by
  rw [iterativeDeepening, hlive] at hrun
  rw [deepeningTrace]
  cases hfirst : searchPvs g fuel s wb 1 with
  | none => rw [hfirst] at hrun; cases hrun
  | some answer =>
    obtain ⟨first, t, tb⟩ := answer
    rw [hfirst] at hrun
    simp only at hrun ⊢
    obtain ⟨hdeepened, earlier, htrace⟩ :=
      deepenFrom_deepened law (searchPvs_unwinds law hfirst).deepened hrun
    rw [htrace]
    refine ⟨hdeepened.disciplined, ?_⟩
    -- without an abort the last depth is the last completed one
    cases hstruck : s'.struck with
    | false => simp [lastCompleted, List.filter_append, SameAnswer]
    | true =>
      obtain ⟨m, hm, hanswer⟩ := hdeepened.answers hstruck
      constructor
      · exact fun hsame _ => ⟨m, hm, hanswer ▸ hsame⟩
      · intro hsame
        obtain ⟨m', hm', hlast⟩ := hsame rfl
        obtain rfl : m = m' := Option.some.inj (hm.symm.trans hm')
        exact hanswer ▸ hlast

/-- **What an abort leaves behind**, in every run of every search, wherever the abort comes. A
partial value is stored exactly if a moment at which an abort is noticed leads to it: if one of
the calls that are open then is on its last move when the value on the way up comes back to it,
or has a `beta` that the value reaches, or is a root probe of MTD(f). A root move is chosen for
a partial value exactly if the value on the way up is above the best so far. And iterative
deepening answers with the last completed depth exactly if no abort was noticed in the last
depth, or the moment it was leads to the same answer. -/
theorem abort_discipline :
    (∀ fuel s wb depth result s' wb',
      search g fuel s wb depth = some (result, s', wb') → Disciplined s s')
    ∧ (∀ fuel probes s wb depth guess result s' wb',
      searchMtdfWithGuess g fuel probes s wb depth guess = some (result, s', wb') →
      Disciplined s s')
    ∧ (g.Reversible → ∀ fuel s wb depth result s' wb',
      searchPvs g fuel s wb depth = some (result, s', wb') → Disciplined s s')
    ∧ (g.Reversible → ∀ fuel s wb maxDepth result s' wb', g.rootShortCircuitDraw wb = none →
      iterativeDeepening g fuel s wb maxDepth = some (result, s', wb') →
      Disciplined s s'
        ∧ (SameAnswer (result.score, result.bestAction)
            (lastCompleted (deepeningTrace g fuel s wb maxDepth))
          ↔ (s'.struck = true → ∃ m, (moments s'.journal).head? = some m
            ∧ SameAnswer m.answer (lastCompleted (deepeningTrace g fuel s wb maxDepth))))) := by
  refine ⟨?_, ?_, ?_, ?_⟩
  · intro fuel s wb depth result s' wb' hrun
    exact (search_unwinds hrun).disciplined
  · intro fuel probes s wb depth guess result s' wb' hrun
    obtain ⟨back, hback⟩ := searchMtdfWithGuess_unwinds hrun
    exact hback.disciplined
  · intro law fuel s wb depth result s' wb' hrun
    exact (searchPvs_unwinds law hrun).disciplined
  · intro law fuel s wb maxDepth result s' wb' hlive hrun
    exact iterativeDeepening_deepened law hlive hrun

/-! ## The leaks -/

/-- Three plies of two moves each; a leaf is worth 3 to the side to move there. -/
def threePly : Game (List Action) :=
  pathGame (fun path => if path.length < 3 then [pathMove 0, pathMove 1] else [])
    (fun path => path.length) (fun _ _ _ => none)

/-- A stop requested before the given look. -/
def stoppedSearcher (look : Nat) : Searcher :=
  { plainSearcher with
    options := { plainSearcher.options with nodeLimit := some 1000 }
    abortFlag := fun n => decide (look ≤ n) }

/-- The moment an abort was noticed, and what it leads to. -/
def momentFacts (s : Searcher) : Bool × List (Bool × Bool × (Int × Action)) :=
  (s.struck, (moments s.journal).map fun m => (m.leaksStore, m.leaksChoice, m.answer))

/-- Iterative deepening of the three-ply game, stopped in its second depth, in the null-window
search of the second root move. Nothing partial is stored or chosen, but the answer is that of
the second depth, 2, and not that of the first, -1. -/
theorem abort_discipline_threePly :
    (iterativeDeepening threePly 5 (stoppedSearcher 17) [] 3).isSome
    ∧ ∀ r ∈ iterativeDeepening threePly 5 (stoppedSearcher 17) [] 3,
      (∀ e ∈ r.2.1.journal, partialStore e = false)
      ∧ (∀ e ∈ r.2.1.journal, partialChoice e = false)
      ∧ ¬SameAnswer (r.1.score, r.1.bestAction)
        (lastCompleted (deepeningTrace threePly 5 (stoppedSearcher 17) [] 3)) := by
  have hfacts : (iterativeDeepening threePly 5 (stoppedSearcher 17) [] 3).map
      (fun r => momentFacts r.2.1) = some (true, [(false, false, (2, pathMove 0))]) := by
    decide +kernel
  have hlast : (lastCompleted (deepeningTrace threePly 5 (stoppedSearcher 17) [] 3)).map
      (fun r => r.score) = some (-1) := by decide +kernel
  -- one event of the run is a moment of abort; its facts are evaluated, the theorem gives the rest
  refine ⟨by decide +kernel, fun ⟨result, s', wb'⟩ hrun => ?_⟩
  rw [hrun] at hfacts
  obtain ⟨hstruck, hmoments⟩ := Prod.mk.inj (Option.some.inj hfacts)
  obtain ⟨⟨new, hnew, hstores, hchoices⟩, hanswer⟩ := (abort_discipline (g := threePly)).2.2.2
    (pathGame_reversible _ _ _) 5 (stoppedSearcher 17) [] 3 result s' wb' rfl hrun
  obtain rfl : s'.journal = new := hnew.trans (List.append_nil new)
  obtain ⟨m, hm, hleaks⟩ := List.map_eq_singleton_iff.1 hmoments
  obtain ⟨hstore, hrest⟩ := Prod.mk.inj hleaks
  obtain ⟨hchoice, hback⟩ := Prod.mk.inj hrest
  refine ⟨hstores.2 ?_, hchoices.2 ?_, fun hsame => ?_⟩
  · rw [hm]
    exact List.forall_mem_singleton.2 hstore
  · rw [hm]
    exact List.forall_mem_singleton.2 hchoice
  · obtain ⟨m', hm', r, hr, hanswers⟩ := hanswer.1 hsame hstruck
    rw [hm] at hm'
    obtain rfl : m = m' := Option.some.inj hm'
    rw [hr] at hlast
    rw [hback] at hanswers
    have htwo : r.score = 2 := (Prod.mk.inj hanswers).1
    have hone : r.score = -1 := Option.some.inj hlast
    omega

/-- **All three promises break.** Stopped at its sixth look, a three-ply search stores a lower
bound of `i32::MAX` for a position worth 3. With a node limit of 1 the root chooses its first
move for the score of a search that did not begin. And iterative deepening reports the second
depth, stopped on the way, instead of the first. -/
theorem abort_leaks :
    ((search threePly 5 (stoppedSearcher 5) [] 3).map (fun r => r.2.1.journal.filter partialStore)
        = some [.stored 5 2 2147483647 .lower true]
      ∧ threePly.key [pathMove 0] = 5 ∧ minimax threePly {} 2 [pathMove 0] = 3)
    ∧ (search twoPly 4 (limitedSearcher 1) [] 2).map
        (fun r => (r.1.bestAction, r.2.1.journal.filter partialChoice))
        = some (pathMove 0, [.chosen (pathMove 0) 0 true])
    ∧ ((iterativeDeepening threePly 5 (stoppedSearcher 10) [] 3).map (fun r => r.1.score)
        = some 2147483646
      ∧ (lastCompleted (deepeningTrace threePly 5 (stoppedSearcher 10) [] 3)).map
        (fun r => r.score) = some (-1)) := by
  refine ⟨by decide +kernel, by decide +kernel, by decide +kernel⟩

end Searcher

end Sanmill
