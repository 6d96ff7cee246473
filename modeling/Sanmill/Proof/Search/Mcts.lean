import Sanmill.Search.Mcts
import Sanmill.Proof.Search.Abort

/-!
# What the tree counts

Every iteration walks down a path of distinct nodes, takes its moves back, and
credits the nodes of the path once each. So the workbench ends where it began and
`visits` counts the playouts through a node.

`wins` is another matter. A node is credited with the result turned over once for
each ply between it and the leaf, whoever moves there. The player who moved into
the node won exactly if the result, read as the leaf's side to move, is his. The
two agree when he is the leaf's side and the distance even, or neither: in a game
whose sides alternate, never.
-/

namespace Sanmill

/-! ## What a playout says about a node -/

namespace Playout

def goesThrough (p : Playout) (i : Nat) : Bool := p.path.any fun step => step.node = i

/-- The simulation was won by the player who moved into node `i`. -/
def wonByMover (p : Playout) (i : Nat) : Bool :=
  match p.path.find? fun step => step.node = i with
  | some step => decide (step.mover = p.leafSide) == p.win
  | none => false

/-- The result that reaches node `i` when the leaf gets `win` and every step up turns it over. -/
def creditedFrom (i : Nat) : List MctsStep → Bool → Bool
  | [], _ => false
  | step :: rest, win => if step.node = i then win else creditedFrom i rest (!win)

/-- The node is credited with a win. -/
def credited (p : Playout) (i : Nat) : Bool := creditedFrom i p.path p.win

/-- The mover is the leaf's side to move exactly if the leaf is an even number of plies below. -/
def Aligned (p : Playout) (i : Nat) : Prop :=
  ∀ d step, p.path[d]? = some step → step.node = i → (step.mover = p.leafSide ↔ d % 2 = 0)

/-- No node twice. -/
def Simple (p : Playout) : Prop := (p.path.map MctsStep.node).Nodup

theorem goesThrough_iff {p : Playout} {i : Nat} :
    p.goesThrough i = true ↔ i ∈ p.path.map MctsStep.node := by
  simp [goesThrough]

/-- The node sits at one place of the path. -/
theorem exists_place {p : Playout} {i : Nat} (hp : p.Simple) (h : p.goesThrough i = true) :
    ∃ (d : Nat) (step : MctsStep), p.path[d]? = some step ∧ step.node = i
      ∧ ∀ (d' : Nat) (step' : MctsStep), p.path[d']? = some step' → step'.node = i → d' = d := by
  obtain ⟨step, hmem, rfl⟩ := List.mem_map.1 (goesThrough_iff.1 h)
  obtain ⟨d, hd⟩ := List.mem_iff_getElem?.1 hmem
  refine ⟨d, step, hd, rfl, fun d' step' hd' hnode => ?_⟩
  have hmap : (p.path.map MctsStep.node)[d']? = (p.path.map MctsStep.node)[d]? := by
    rw [List.getElem?_map, List.getElem?_map, hd, hd']
    simp [hnode]
  have hlt : d' < (p.path.map MctsStep.node).length := by
    rw [List.length_map]
    exact (List.getElem?_eq_some_iff.1 hd').1
  exact (List.getElem?_inj hlt hp).1 hmap

/-- The result has been turned over once for each ply below the node. -/
theorem creditedFrom_eq {i d : Nat} {path : List MctsStep} {step : MctsStep} {win : Bool}
    (hnodup : (path.map MctsStep.node).Nodup) (hd : path[d]? = some step) (hnode : step.node = i) :
    creditedFrom i path win = (win == decide (d % 2 = 0)) := by
  induction path generalizing d win with
  | nil => simp at hd
  | cons first rest ih =>
    rw [List.map_cons, List.nodup_cons] at hnodup
    cases d with
    | zero =>
      obtain rfl : first = step := by simpa using hd
      simp [creditedFrom, hnode]
    | succ d =>
      have hrest : rest[d]? = some step := by simpa using hd
      have hne : first.node ≠ i := by
        rintro rfl
        exact hnodup.1 (List.mem_map.2 ⟨step, List.mem_of_getElem? hrest, hnode⟩)
      rw [creditedFrom, if_neg hne, ih hnodup.2 hrest]
      rcases Nat.mod_two_eq_zero_or_one d with h | h
      · have hodd : (d + 1) % 2 = 1 := by omega
        cases win <;> simp [h, hodd]
      · have heven : (d + 1) % 2 = 0 := by omega
        cases win <;> simp [h, heven]

/-- **The credit is right** on exactly the aligned playouts. -/
theorem credited_eq_iff {p : Playout} {i : Nat} (hp : p.Simple) (h : p.goesThrough i = true) :
    p.credited i = p.wonByMover i ↔ p.Aligned i := by
  obtain ⟨d, step, hd, hnode, hunique⟩ := exists_place hp h
  have hfind : p.path.find? (fun step => step.node = i) = some step := by
    have hsome : (p.path.find? fun step => step.node = i).isSome :=
      List.find?_isSome.2 ⟨step, List.mem_of_getElem? hd, by simpa using hnode⟩
    obtain ⟨other, hother⟩ := Option.isSome_iff_exists.1 hsome
    obtain ⟨d', hd'⟩ := List.mem_iff_getElem?.1 (List.mem_of_find?_eq_some hother)
    have hnode' : other.node = i := by simpa using List.find?_some hother
    obtain rfl := hunique d' other hd' hnode'
    rw [hother, ← hd', hd]
  have hwon : p.wonByMover i = (decide (step.mover = p.leafSide) == p.win) := by
    rw [wonByMover, hfind]
  have haligned : p.Aligned i ↔ (step.mover = p.leafSide ↔ d % 2 = 0) := by
    constructor
    · exact fun hal => hal d step hd hnode
    · intro hstep d' step' hd' hnode'
      obtain rfl := hunique d' step' hd' hnode'
      obtain rfl : step = step' := by simpa using hd.symm.trans hd'
      exact hstep
  rw [haligned, hwon, credited, creditedFrom_eq hp hd hnode]
  by_cases hmover : step.mover = p.leafSide <;> by_cases heven : d % 2 = 0 <;>
    cases p.win <;> simp [hmover, heven]

end Playout

namespace Searcher

variable {W : Type} {g : Game W}

/-! ## Root searches hand the workbench back -/

theorem searchLoop_restores {child : WindowSearch W} (hchild : Restores child)
    {rootKey : BitVec 64} {moves : List Action} {best score : Int} {act bestAction : Action}
    {s s' : Searcher} {wb wb' : W} (hundo : ∀ a ∈ moves, g.undoMove (g.doMove wb a) = wb)
    (hrun : searchLoop g child rootKey moves best act s wb
      = some ((score, bestAction), s', wb')) : wb' = wb := by
  induction moves generalizing best act s with
  | nil =>
    obtain ⟨-, -, rfl⟩ := by simpa [searchLoop] using hrun
    rfl
  | cons action rest ih =>
    unfold searchLoop at hrun
    simp only at hrun
    split at hrun
    · obtain ⟨-, -, rfl⟩ := by simpa using hrun
      rfl
    split at hrun
    · cases hrun
    rename_i v x xb hmove
    obtain ⟨-, hxb, -⟩ := searchRootMove_cases
      (searchAfterMove_restoresChild hchild _ _) (hundo action (List.mem_cons_self ..))
      hmove
    subst xb
    have hrest : ∀ a ∈ rest, g.undoMove (g.doMove wb a) = wb := fun a ha =>
      hundo a (List.mem_cons_of_mem _ ha)
    split at hrun
    · exact ih hrest hrun
    · exact ih hrest hrun

/-- A root search hands back the workbench. -/
theorem search_restores (law : g.Reversible) {fuel : Nat} {s s' : Searcher} {wb wb' : W}
    {depth : Int} {result : SearchResult}
    (hrun : search g fuel s wb depth = some (result, s', wb')) : wb' = wb := by
  unfold search at hrun
  split at hrun
  · obtain ⟨-, -, rfl⟩ := by simpa using hrun
    rfl
  · rename_i moves t hstart
    obtain ⟨⟨⟨w, move⟩, x, xb⟩, hloop, heq⟩ := Option.map_eq_some_iff.1 hrun
    obtain ⟨-, -, rfl⟩ := by simpa using heq
    have hspec := rootStart_record (g := g) true depth s wb
    rw [hstart] at hspec
    exact searchLoop_restores (alphaBeta_restores law fuel _)
      (fun a ha => law.legal wb _ a (hspec.2 a ha)) hloop

end Searcher

namespace MctsSearcher

variable {W : Type} {g : Game W} {options : MctsOptions}

/-! ## The tree -/

/-- The arena is a tree over positions: `pos` says where each node is, and its moves are legal
there. -/
structure TreeInv (g : Game W) (options : MctsOptions) (root : W) (arena : MctsArena)
    (pos : Nat → W) : Prop where
  nonempty : 0 < arena.size
  root : pos 0 = root
  untried : ∀ i < arena.size, ∀ a ∈ (arena.node i).untried,
    a ∈ g.generateLegalCtx (pos i) options.moveOrderContext
  child : ∀ i < arena.size, ∀ c ∈ (arena.node i).children, i < c ∧ c < arena.size
    ∧ (arena.node c).action ∈ g.generateLegalCtx (pos i) options.moveOrderContext
    ∧ pos c = g.doMove (pos i) (arena.node c).action

/-- A way down from the root: ever later nodes, by legal moves. -/
inductive Descent (g : Game W) (options : MctsOptions) (root : W) :
    Nat → List MctsStep → W → Prop
  | root (mover : Int) : Descent g options root 0 [{ node := 0, mover }] root
  | step {i c : Nat} {path : List MctsStep} {wb : W} {action : Action}
      (hpath : Descent g options root i path wb) (hlater : i < c)
      (hlegal : action ∈ g.generateLegalCtx wb options.moveOrderContext) :
      Descent g options root c ({ node := c, mover := g.sideToMove wb } :: path)
        (g.doMove wb action)

namespace Descent

variable {root wb : W} {i : Nat} {path : List MctsStep}

theorem length_pos (h : Descent g options root i path wb) : 0 < path.length := by
  cases h with
  | root mover => exact Nat.succ_pos _
  | step hpath hlater hlegal => exact Nat.succ_pos _

theorem le (h : Descent g options root i path wb) : ∀ step ∈ path, step.node ≤ i := by
  induction h with
  | root mover => simp
  | step hpath hlater hlegal ih =>
    intro step hmem
    rcases List.mem_cons.1 hmem with rfl | hmem
    · exact Nat.le_refl _
    · exact Nat.le_of_lt (Nat.lt_of_le_of_lt (ih step hmem) hlater)

theorem nodup (h : Descent g options root i path wb) : (path.map MctsStep.node).Nodup := by
  induction h with
  | root mover => simp
  | step hpath hlater hlegal ih =>
    rw [List.map_cons, List.nodup_cons]
    refine ⟨fun hmem => ?_, ih⟩
    obtain ⟨step, hstep, hnode⟩ := List.mem_map.1 hmem
    have hle := hpath.le step hstep
    rw [hnode] at hle
    exact absurd hlater (Nat.not_lt.2 hle)

/-- Taking all the moves back leads to the root. -/
theorem restores (law : g.Reversible) (h : Descent g options root i path wb) :
    undoMoves g (path.length - 1) wb = root := by
  induction h with
  | root mover => rfl
  | @step i c path wb action hpath hlater hlegal ih =>
    have hlength : (({ node := c, mover := g.sideToMove wb } : MctsStep) :: path).length - 1
        = path.length - 1 + 1 := by
      have := hpath.length_pos
      rw [List.length_cons]
      omega
    rw [hlength, undoMoves, law.legal wb _ action hlegal, ih]

end Descent

theorem mem_mctsMoves {wb : W} {a : Action} :
    a ∈ mctsMoves g options wb ↔ a ∈ g.generateLegalCtx wb options.moveOrderContext := by
  unfold mctsMoves orderMctsMoves
  exact (Searcher.sortMoves_perm _ _).mem_iff

theorem bestUctChild_mem (rank : MctsArena → Nat → Nat) {arena : MctsArena} {i : Nat}
    (h : (arena.node i).children ≠ []) :
    bestUctChild rank arena i ∈ (arena.node i).children := by
  have hpos := List.length_pos_iff.2 h
  have hlt := Nat.mod_lt (rank arena i) hpos
  unfold bestUctChild
  rw [List.getD_eq_getElem?_getD, List.getElem?_eq_getElem hlt, Option.getD_some]
  exact List.getElem_mem hlt

/-- **Selection** goes down the tree. -/
theorem select_descends {rank : MctsArena → Nat → Nat} {arena : MctsArena} {pos : Nat → W}
    {root : W} (htree : TreeInv g options root arena pos) {room i : Nat} {path : List MctsStep}
    (hi : i < arena.size) (hpath : Descent g options root i path (pos i)) {i' : Nat}
    {path' : List MctsStep} {wb' : W}
    (hrun : select g rank arena room i path (pos i) = some (i', path', wb')) :
    i' < arena.size ∧ Descent g options root i' path' (pos i') ∧ wb' = pos i' := by
  induction room generalizing i path with
  | zero =>
    unfold select at hrun
    split at hrun
    · cases hrun
    · obtain ⟨rfl, rfl, rfl⟩ := by simpa using hrun
      exact ⟨hi, hpath, rfl⟩
  | succ room ih =>
    unfold select at hrun
    split at hrun
    · rename_i hinner
      obtain ⟨hlater, hlt, hlegal, hpos⟩ := htree.child i hi _ (bestUctChild_mem rank hinner.2)
      simp only [← hpos] at hrun
      refine ih hlt ?_ hrun
      rw [hpos]
      exact Descent.step hpath hlater hlegal
    · obtain ⟨rfl, rfl, rfl⟩ := by simpa using hrun
      exact ⟨hi, hpath, rfl⟩

/-! ## Expansion -/

/-- The arena has grown: old nodes keep their action and their counts, new ones have none. -/
structure Grown (arena arena' : MctsArena) : Prop where
  size : arena.size ≤ arena'.size
  action : ∀ j < arena.size, (arena'.node j).action = (arena.node j).action
  visits : ∀ j < arena.size, (arena'.node j).visits = (arena.node j).visits
  wins : ∀ j < arena.size, (arena'.node j).wins = (arena.node j).wins
  fresh : ∀ j, arena.size ≤ j → j < arena'.size →
    (arena'.node j).visits = 0 ∧ (arena'.node j).wins = 0

theorem Grown.refl (arena : MctsArena) : Grown arena arena :=
  ⟨Nat.le_refl _, fun _ _ => rfl, fun _ _ => rfl, fun _ _ => rfl, fun _ h h' => by omega⟩

theorem Grown.trans {a b c : MctsArena} (h : Grown a b) (h' : Grown b c) : Grown a c where
  size := Nat.le_trans h.size h'.size
  action j hj := by
    have := h.size
    rw [h'.action j (by omega), h.action j hj]
  visits j hj := by
    have := h.size
    rw [h'.visits j (by omega), h.visits j hj]
  wins j hj := by
    have := h.size
    rw [h'.wins j (by omega), h.wins j hj]
  fresh j hlo hhi := by
    by_cases hb : j < b.size
    · rw [h'.visits j hb, h'.wins j hb]
      exact h.fresh j hlo hb
    · exact h'.fresh j (by omega) hhi

/-- Adding one child. -/
def addChild (arena : MctsArena) (i : Nat) (node : MctsNode) : MctsArena :=
  (arena.push node).modify i fun parent =>
    { parent with children := parent.children ++ [arena.size] }

theorem addChild_old {arena : MctsArena} {i j : Nat} {node : MctsNode} (hj : j < arena.size)
    (hne : j ≠ i) : (addChild arena i node).node j = arena.node j := by
  unfold addChild MctsArena.modify MctsArena.push
  simp only
  rw [Function.update_of_ne hne, Function.update_of_ne (by omega)]

theorem addChild_parent {arena : MctsArena} {i : Nat} {node : MctsNode} (hi : i < arena.size) :
    (addChild arena i node).node i
      = { arena.node i with children := (arena.node i).children ++ [arena.size] } := by
  have hne : i ≠ arena.size := by omega
  unfold addChild MctsArena.modify MctsArena.push
  simp only [Function.update_self, Function.update_of_ne hne]

theorem addChild_new {arena : MctsArena} {i : Nat} {node : MctsNode} (hi : i < arena.size) :
    (addChild arena i node).node arena.size = node := by
  unfold addChild MctsArena.modify MctsArena.push
  simp only
  rw [Function.update_of_ne (by omega), Function.update_self]

theorem addChild_grown {arena : MctsArena} {i : Nat} {node : MctsNode} (hi : i < arena.size)
    (hnode : node.visits = 0 ∧ node.wins = 0) : Grown arena (addChild arena i node) := by
  have hsame : ∀ j < arena.size, ((addChild arena i node).node j).action = (arena.node j).action
      ∧ ((addChild arena i node).node j).visits = (arena.node j).visits
      ∧ ((addChild arena i node).node j).wins = (arena.node j).wins := by
    intro j hj
    by_cases hji : j = i
    · subst hji
      rw [addChild_parent hj]
      exact ⟨rfl, rfl, rfl⟩
    · rw [addChild_old hj hji]
      exact ⟨rfl, rfl, rfl⟩
  refine ⟨Nat.le_succ _, fun j hj => (hsame j hj).1, fun j hj => (hsame j hj).2.1,
    fun j hj => (hsame j hj).2.2, fun j hlo hhi => ?_⟩
  obtain rfl : j = arena.size := by
    have : (addChild arena i node).size = arena.size + 1 := rfl
    omega
  rw [addChild_new hi]
  exact hnode

/-- The new child is where its action leads. -/
theorem addChild_tree {arena : MctsArena} {pos : Nat → W} {root : W} {i : Nat} {action : Action}
    (htree : TreeInv g options root arena pos) (hi : i < arena.size)
    (hlegal : action ∈ g.generateLegalCtx (pos i) options.moveOrderContext) (moveIndex : Nat) :
    TreeInv g options root
      (addChild arena i (.child action (mctsMoves g options (g.doMove (pos i) action)) moveIndex))
      (Function.update pos arena.size (g.doMove (pos i) action)) := by
  have hold : ∀ j < arena.size,
      Function.update pos arena.size (g.doMove (pos i) action) j = pos j := fun j hj =>
    Function.update_of_ne (by omega) _ _
  have hsize : ∀ node, (addChild arena i node).size = arena.size + 1 := fun _ => rfl
  refine ⟨Nat.succ_pos _, ?_, fun j hj a ha => ?_, fun j hj c hc => ?_⟩
  · rw [hold 0 htree.nonempty, htree.root]
  · rw [hsize] at hj
    by_cases hnew : j = arena.size
    · subst hnew
      rw [addChild_new hi] at ha
      rw [Function.update_self]
      exact mem_mctsMoves.1 ha
    · have hj' : j < arena.size := by omega
      rw [hold j hj']
      by_cases hji : j = i
      · subst hji
        rw [addChild_parent hi] at ha
        exact htree.untried j hj' a ha
      · rw [addChild_old hj' hji] at ha
        exact htree.untried j hj' a ha
  · rw [hsize] at hj ⊢
    by_cases hnew : j = arena.size
    · subst hnew
      rw [addChild_new hi] at hc
      simp [MctsNode.child] at hc
    · have hj' : j < arena.size := by omega
      rw [hold j hj']
      -- an old child of an old node
      have hchild : ∀ c ∈ (arena.node j).children, j < c ∧ c < arena.size + 1
          ∧ ((addChild arena i (.child action (mctsMoves g options (g.doMove (pos i) action))
              moveIndex)).node c).action ∈ g.generateLegalCtx (pos j) options.moveOrderContext
          ∧ Function.update pos arena.size (g.doMove (pos i) action) c
            = g.doMove (pos j) ((addChild arena i (.child action
                (mctsMoves g options (g.doMove (pos i) action)) moveIndex)).node c).action := by
        intro c hc
        obtain ⟨hlater, hlt, hmem, hpos⟩ := htree.child j hj' c hc
        have hgrown : Grown arena (addChild arena i (.child action
            (mctsMoves g options (g.doMove (pos i) action)) moveIndex)) :=
          addChild_grown hi ⟨rfl, rfl⟩
        rw [hgrown.action c hlt, hold c hlt]
        exact ⟨hlater, by omega, hmem, hpos⟩
      by_cases hji : j = i
      · subst hji
        rw [addChild_parent hi] at hc
        rcases List.mem_append.1 hc with hc | hc
        · exact hchild c hc
        · obtain rfl := List.mem_singleton.1 hc
          rw [addChild_new hi, Function.update_self]
          exact ⟨hj', Nat.lt_succ_self _, hlegal, rfl⟩
      · rw [addChild_old hj' hji] at hc
        exact hchild c hc

/-- **The expansion loop** adds one child for each action and leaves the workbench as it was. -/
theorem expandLoop_spec (law : g.Reversible) {arena : MctsArena} {pos : Nat → W} {root : W}
    {i : Nat} {actions : List Action} (htree : TreeInv g options root arena pos)
    (hi : i < arena.size)
    (hlegal : ∀ a ∈ actions, a ∈ g.generateLegalCtx (pos i) options.moveOrderContext) :
    ∃ arena' pos', expandLoop g options i actions arena (pos i) = (arena', pos i)
      ∧ TreeInv g options root arena' pos' ∧ Grown arena arena'
      ∧ (∀ j < arena.size, pos' j = pos j)
      ∧ ∀ action ∈ actions.head?, arena.size < arena'.size
        ∧ (arena'.node arena.size).action = action
        ∧ pos' arena.size = g.doMove (pos i) action := by
  induction actions generalizing arena pos with
  | nil =>
    exact ⟨arena, pos, rfl, htree, Grown.refl arena, fun _ _ => rfl, by simp⟩
  -- the child is added behind the tree, so the positions of the older nodes stay
  | cons action rest ih =>
    have hmem := hlegal action (List.mem_cons_self ..)
    have hadd := addChild_tree htree hi hmem (arena.node i).children.length
    have hgrown : Grown arena (addChild arena i (.child action
        (mctsMoves g options (g.doMove (pos i) action)) (arena.node i).children.length)) :=
      addChild_grown hi ⟨rfl, rfl⟩
    have hi' : Function.update pos arena.size (g.doMove (pos i) action) i = pos i :=
      Function.update_of_ne (by omega) _ _
    have hsize : (addChild arena i (.child action (mctsMoves g options (g.doMove (pos i) action))
        (arena.node i).children.length)).size = arena.size + 1 := rfl
    obtain ⟨arena', pos', hrun, htree', hgrown', hpos', -⟩ := ih hadd (by omega)
      (by rw [hi']; exact fun a ha => hlegal a (List.mem_cons_of_mem _ ha))
    rw [hi'] at hrun
    refine ⟨arena', pos', ?_, htree', hgrown.trans hgrown', fun j hj => ?_, ?_⟩
    · unfold expandLoop
      simp only [law.legal _ _ action hmem]
      exact hrun
    -- the first action made the first new node, and later ones do not touch it
    · rw [hpos' j (by omega), Function.update_of_ne (by omega)]
    · intro first hfirst
      obtain rfl : action = first := by simpa using hfirst
      have hlt := hgrown'.size
      refine ⟨by omega, ?_, ?_⟩
      · rw [hgrown'.action _ (by omega), addChild_new hi]
        rfl
      · rw [hpos' _ (by omega), Function.update_self]

/-- Emptying `untried` keeps the tree. -/
theorem TreeInv.take {arena : MctsArena} {pos : Nat → W} {root : W} {i : Nat}
    (htree : TreeInv g options root arena pos) :
    TreeInv g options root (arena.modify i fun node => { node with untried := [] }) pos
      ∧ Grown arena (arena.modify i fun node => { node with untried := [] }) := by
  -- of the node only the untried moves change
  have hnode : ∀ j, ((arena.modify i fun node => { node with untried := [] }).node j = arena.node j)
      ∨ ((arena.modify i fun node => { node with untried := [] }).node j
        = { arena.node j with untried := [] }) := by
    intro j
    unfold MctsArena.modify
    by_cases hji : j = i
    · subst hji
      exact .inr (Function.update_self ..)
    · exact .inl (Function.update_of_ne hji _ _)
  have hchildren : ∀ j, ((arena.modify i fun node => { node with untried := [] }).node j).children
        = (arena.node j).children
      ∧ ((arena.modify i fun node => { node with untried := [] }).node j).action
        = (arena.node j).action
      ∧ ((arena.modify i fun node => { node with untried := [] }).node j).visits
        = (arena.node j).visits
      ∧ ((arena.modify i fun node => { node with untried := [] }).node j).wins
        = (arena.node j).wins := by
    intro j
    rcases hnode j with h | h <;> rw [h] <;> exact ⟨rfl, rfl, rfl, rfl⟩
  constructor
  · refine ⟨htree.nonempty, htree.root, fun j hj a ha => ?_, fun j hj c hc => ?_⟩
    · rcases hnode j with h | h
      · rw [h] at ha
        exact htree.untried j hj a ha
      · rw [h] at ha
        cases ha
    · rw [(hchildren j).1] at hc
      rw [(hchildren c).2.1]
      exact htree.child j hj c hc
  · exact ⟨Nat.le_refl _, fun j _ => (hchildren j).2.1, fun j _ => (hchildren j).2.2.1,
      fun j _ => (hchildren j).2.2.2, fun j hlo hhi => absurd hhi (Nat.not_lt.2 hlo)⟩

/-- **Expansion** goes one node further down a larger tree. -/
theorem expand_descends (law : g.Reversible) {arena : MctsArena} {pos : Nat → W} {root : W}
    {i : Nat} {path : List MctsStep} (htree : TreeInv g options root arena pos)
    (hi : i < arena.size) (hpath : Descent g options root i path (pos i))
    {arena' : MctsArena} {path' : List MctsStep} {wb' : W}
    (hrun : expand g options arena i path (pos i) = some (arena', path', wb')) :
    ∃ pos' i', TreeInv g options root arena' pos' ∧ Grown arena arena' ∧ i' < arena'.size
      ∧ Descent g options root i' path' wb' ∧ wb' = pos' i' := by
  unfold expand at hrun
  simp only at hrun
  split at hrun
  · obtain ⟨rfl, rfl, rfl⟩ := by simpa using hrun
    exact ⟨pos, i, htree, Grown.refl _, hi, hpath, rfl⟩
  -- the untried moves are taken off the node first, then each becomes a child
  · rename_i hactions
    obtain ⟨htaken, hgrown⟩ := htree.take (i := i)
    obtain ⟨arena₂, pos', hloop, htree', hgrown', -, hfirst⟩ := expandLoop_spec law htaken hi
      (htree.untried i hi)
    rw [hloop] at hrun
    simp only at hrun
    split at hrun
    · obtain ⟨rfl, rfl, rfl⟩ := by simpa using hrun
      obtain ⟨action, rest, hlist⟩ := List.exists_cons_of_ne_nil hactions
      obtain ⟨hlt, haction, hpos⟩ := hfirst action (by rw [hlist]; rfl)
      have hlegal := htree.untried i hi action (by rw [hlist]; exact List.mem_cons_self ..)
      have hsize : (arena.modify i fun node => { node with untried := [] }).size = arena.size := rfl
      rw [hsize] at hlt haction hpos
      refine ⟨pos', arena.size, htree', hgrown.trans hgrown', hlt, ?_, ?_⟩
      · rw [haction]
        exact Descent.step hpath hi hlegal
      · rw [haction, hpos]
    · cases hrun

/-! ## Back-propagation -/

/-- **Back-propagation** credits each node of the path once, and touches nothing else. -/
theorem backpropagate_node {path : List MctsStep} {win : Bool} {arena : MctsArena}
    (hnodup : (path.map MctsStep.node).Nodup) (j : Nat) :
    (backpropagate path win arena).node j
      = if j ∈ path.map MctsStep.node then
          (arena.node j).recordSimulation (Playout.creditedFrom j path win)
        else arena.node j := by
  induction path generalizing win arena with
  | nil => rfl
  | cons step rest ih =>
    rw [List.map_cons, List.nodup_cons] at hnodup
    rw [backpropagate, ih hnodup.2, List.map_cons]
    by_cases hj : j = step.node
    · subst hj
      rw [if_neg hnodup.1, if_pos (List.mem_cons_self ..)]
      unfold MctsArena.modify Playout.creditedFrom
      rw [if_pos rfl]
      exact Function.update_self ..
    · have hother : (arena.modify step.node (·.recordSimulation win)).node j = arena.node j :=
        Function.update_of_ne hj _ _
      have hcredit : Playout.creditedFrom j (step :: rest) win
          = Playout.creditedFrom j rest (!win) := by
        rw [Playout.creditedFrom, if_neg (Ne.symm hj)]
      rw [hother, hcredit]
      simp only [List.mem_cons, hj, false_or]

theorem backpropagate_size (path : List MctsStep) (win : Bool) (arena : MctsArena) :
    (backpropagate path win arena).size = arena.size := by
  induction path generalizing win arena with
  | nil => rfl
  | cons step rest ih => exact ih _ _

theorem TreeInv.backpropagate {arena : MctsArena} {pos : Nat → W} {root : W}
    {path : List MctsStep} {win : Bool} (htree : TreeInv g options root arena pos)
    (hnodup : (path.map MctsStep.node).Nodup) :
    TreeInv g options root (backpropagate path win arena) pos := by
  have hnode : ∀ j, ((MctsSearcher.backpropagate path win arena).node j).children
        = (arena.node j).children
      ∧ ((MctsSearcher.backpropagate path win arena).node j).action = (arena.node j).action
      ∧ ((MctsSearcher.backpropagate path win arena).node j).untried = (arena.node j).untried := by
    intro j
    rw [backpropagate_node hnodup]
    split <;> exact ⟨rfl, rfl, rfl⟩
  refine ⟨?_, htree.root, fun j hj a ha => ?_, fun j hj c hc => ?_⟩
  · rw [backpropagate_size]
    exact htree.nonempty
  · rw [backpropagate_size] at hj
    rw [(hnode j).2.2] at ha
    exact htree.untried j hj a ha
  · rw [backpropagate_size] at hj ⊢
    rw [(hnode j).1] at hc
    rw [(hnode c).2.1]
    exact htree.child j hj c hc

/-! ## Simulation -/

/-- **A simulation** hands back the workbench. -/
theorem simulate_restores (law : g.Reversible) {fuel : Nat} {policy : SearchPolicy} {depth : Nat}
    {rng rng' : BitVec 64} {wb wb' : W} {win : Bool}
    (hrun : simulate g fuel policy options depth rng wb = some (win, rng', wb')) : wb' = wb := by
  induction depth generalizing rng wb win rng' wb' with
  | zero =>
    unfold simulate at hrun
    split at hrun
    · obtain ⟨⟨result, x, xb⟩, hsearch, heq⟩ := Option.map_eq_some_iff.1 hrun
      obtain ⟨-, -, rfl⟩ := by simpa using heq
      exact Searcher.search_restores law hsearch
    · obtain ⟨-, -, rfl⟩ := by simpa using hrun
      rfl
  | succ depth ih =>
    unfold simulate at hrun
    split at hrun
    · obtain ⟨⟨result, x, xb⟩, hsearch, heq⟩ := Option.map_eq_some_iff.1 hrun
      obtain ⟨-, -, rfl⟩ := by simpa using heq
      exact Searcher.search_restores law hsearch
    simp only at hrun
    split at hrun
    · obtain ⟨-, -, rfl⟩ := by simpa using hrun
      rfl
    split at hrun
    · obtain ⟨-, -, rfl⟩ := by simpa using hrun
      rfl
    rename_i hmoves
    split at hrun
    · cases hrun
    rename_i won next x hchild
    obtain ⟨-, -, rfl⟩ := by simpa using hrun
    rw [ih hchild]
    -- the random index picks one of the moves
    refine law.legal wb options.moveOrderContext _ (mem_mctsMoves.1 ?_)
    have hlt : (nextRandomIndex rng (mctsMoves g options wb).length).1
        < (mctsMoves g options wb).length :=
      Nat.mod_lt _ (List.length_pos_iff.2 hmoves)
    rw [List.getD_eq_getElem?_getD, List.getElem?_eq_getElem hlt, Option.getD_some]
    exact List.getElem_mem hlt

/-! ## The run -/

/-- The counts of the arena are those of the playouts. -/
structure Tallied (arena : MctsArena) (playouts : List Playout) : Prop where
  simple : ∀ p ∈ playouts, p.Simple
  inside : ∀ p ∈ playouts, ∀ i, p.goesThrough i = true → i < arena.size
  visits : ∀ i < arena.size, (arena.node i).visits = playouts.countP fun p => p.goesThrough i
  wins : ∀ i < arena.size, (arena.node i).wins = playouts.countP fun p => p.credited i

/-- Only a node of the path is credited. -/
theorem goesThrough_of_credited {p : Playout} {i : Nat} (h : p.credited i = true) :
    p.goesThrough i = true := by
  have hfrom : ∀ path win, Playout.creditedFrom i path win = true →
      (path.any fun step => step.node = i) = true := by
    intro path
    induction path with
    | nil => intro win h; cases h
    | cons step rest ih =>
      intro win h
      rw [List.any_cons]
      by_cases hstep : step.node = i
      · simp [hstep]
      · rw [Playout.creditedFrom, if_neg hstep] at h
        simp [ih _ h]
  exact hfrom p.path p.win h

/-- Growing the arena adds nodes nobody went through. -/
theorem Tallied.grown {arena arena' : MctsArena} {playouts : List Playout}
    (h : Tallied arena playouts) (hgrown : Grown arena arena') : Tallied arena' playouts := by
  have hsize := hgrown.size
  -- no playout went through a new node
  have hnew : ∀ i, arena.size ≤ i → ∀ p ∈ playouts, ¬p.goesThrough i = true := by
    intro i hi p hp hthrough
    have := h.inside p hp i hthrough
    omega
  refine ⟨h.simple, fun p hp i hthrough => ?_, fun i hi => ?_, fun i hi => ?_⟩
  · have := h.inside p hp i hthrough
    omega
  · by_cases hold : i < arena.size
    · rw [hgrown.visits i hold, h.visits i hold]
    · rw [(hgrown.fresh i (by omega) hi).1, eq_comm, List.countP_eq_zero]
      exact hnew i (by omega)
  · by_cases hold : i < arena.size
    · rw [hgrown.wins i hold, h.wins i hold]
    · rw [(hgrown.fresh i (by omega) hi).2, eq_comm, List.countP_eq_zero]
      exact fun p hp hcredit => hnew i (by omega) p hp (goesThrough_of_credited hcredit)

/-- One more playout, credited. -/
theorem Tallied.backpropagate {arena : MctsArena} {playouts : List Playout} {p : Playout}
    (h : Tallied arena playouts) (hsimple : p.Simple)
    (hinside : ∀ i, p.goesThrough i = true → i < arena.size) :
    Tallied (backpropagate p.path p.win arena) (p :: playouts) := by
  refine ⟨fun q hq => ?_, fun q hq i hthrough => ?_, fun i hi => ?_, fun i hi => ?_⟩
  · rcases List.mem_cons.1 hq with rfl | hq
    · exact hsimple
    · exact h.simple q hq
  · rw [backpropagate_size]
    rcases List.mem_cons.1 hq with rfl | hq
    · exact hinside i hthrough
    · exact h.inside q hq i hthrough
  -- a node is visited once more exactly if the path goes through it
  · rw [backpropagate_size] at hi
    rw [backpropagate_node hsimple, List.countP_cons, ← h.visits i hi]
    by_cases hmem : i ∈ p.path.map MctsStep.node
    · rw [if_pos hmem, if_pos (Playout.goesThrough_iff.2 hmem)]
      rfl
    · rw [if_neg hmem, if_neg fun hthrough => hmem (Playout.goesThrough_iff.1 hthrough)]
      rfl
  · rw [backpropagate_size] at hi
    rw [backpropagate_node hsimple, List.countP_cons, ← h.wins i hi]
    by_cases hmem : i ∈ p.path.map MctsStep.node
    · rw [if_pos hmem]
      show (if Playout.creditedFrom i p.path p.win then _ else _) = _
      cases hcredit : Playout.creditedFrom i p.path p.win with
      | true => simp [Playout.credited, hcredit]
      | false => simp [Playout.credited, hcredit]
    -- off the path nothing is credited
    · have hcredit : ¬p.credited i = true := fun hcredit =>
        hmem (Playout.goesThrough_iff.1 (goesThrough_of_credited hcredit))
      rw [if_neg hmem, if_neg hcredit]
      rfl

/-- What holds between two iterations. -/
structure TreeState (g : Game W) (options : MctsOptions) (root : W) (state : MctsState W) :
    Prop where
  wb : state.wb = root
  tree : ∃ pos, TreeInv g options root state.arena pos
  ways : ∀ p ∈ state.playouts, ∃ i wb, Descent g options root i p.path wb
    ∧ p.leafSide = g.sideToMove wb
  tally : Tallied state.arena state.playouts

/-- **One iteration.** -/
theorem iterate_preserves (law : g.Reversible) {fuel : Nat} {policy : SearchPolicy}
    {rank : MctsArena → Nat → Nat} {root : W} {state state' : MctsState W}
    (h : TreeState g options root state)
    (hrun : iterate g fuel policy options rank state = some state') :
    TreeState g options root state' := by
  obtain ⟨pos, htree⟩ := h.tree
  unfold iterate at hrun
  simp only at hrun
  have hstart : state.wb = pos 0 := by rw [h.wb, htree.root]
  rw [hstart] at hrun
  -- the three phases of an iteration: selection, expansion, simulation
  split at hrun
  · cases hrun
  rename_i i path wb hselect
  obtain ⟨hi, hpath, rfl⟩ := select_descends htree htree.nonempty
    (by rw [htree.root]; exact Descent.root 0) hselect
  split at hrun
  · cases hrun
  rename_i arena path' wb' hexpand
  obtain ⟨pos', i', htree', hgrown, hi', hpath', hwb'⟩ := expand_descends law htree hi hpath hexpand
  split at hrun
  · cases hrun
  rename_i win rng wb'' hsimulate
  obtain rfl := simulate_restores law hsimulate
  obtain rfl := Option.some.inj hrun
  -- the path runs over nodes that were there before the leaf was expanded
  have hinside : ∀ j, Playout.goesThrough { path := path', leafSide := g.sideToMove wb'', win } j
      = true → j < arena.size := by
    intro j hthrough
    obtain ⟨step, hstep, rfl⟩ := List.mem_map.1 (Playout.goesThrough_iff.1 hthrough)
    have := hpath'.le step hstep
    omega
  refine ⟨hpath'.restores law, ⟨pos', htree'.backpropagate hpath'.nodup⟩, fun p hp => ?_,
    (h.tally.grown hgrown).backpropagate (p := ⟨path', g.sideToMove wb'', win⟩) hpath'.nodup
      hinside⟩
  rcases List.mem_cons.1 hp with rfl | hp
  · exact ⟨i', wb'', hpath', rfl⟩
  · exact h.ways p hp

theorem iterateFrom_preserves (law : g.Reversible) {fuel : Nat} {policy : SearchPolicy}
    {rank : MctsArena → Nat → Nat} {elapsedMs : Nat → Nat} {count i : Nat} {root : W}
    {state state' : MctsState W} (h : TreeState g options root state)
    (hrun : iterateFrom g fuel policy options rank elapsedMs count i state = some state') :
    TreeState g options root state' := by
  induction count generalizing i state with
  | zero =>
    obtain rfl := Option.some.inj hrun
    exact h
  | succ count ih =>
    unfold iterateFrom at hrun
    split at hrun
    · obtain rfl := Option.some.inj hrun
      exact h
    split at hrun
    · cases hrun
    · rename_i next hnext
      exact ih (iterate_preserves law h hnext) hrun

theorem buildTree_state (law : g.Reversible) {fuel : Nat} {policy : SearchPolicy}
    {rank : MctsArena → Nat → Nat} {elapsedMs : Nat → Nat} {rng : BitVec 64} {wb : W}
    {state : MctsState W}
    (hrun : buildTree g fuel policy options rank elapsedMs rng wb = some state) :
    TreeState g options wb state := by
  refine iterateFrom_preserves law
    ⟨rfl, ⟨fun _ => wb, Nat.succ_pos _, rfl, ?_, ?_⟩, by simp, ?_⟩ hrun
  · exact fun i _ a ha => mem_mctsMoves.1 ha
  · intro i _ c hc
    cases hc
  · exact ⟨by simp, by simp, fun _ _ => rfl, fun _ _ => rfl⟩

/-! ## Alternating sides -/

/-- Two sides, and every legal move hands over. -/
structure Alternating (g : Game W) (context : MoveOrderContext) : Prop where
  two : ∃ x y, ∀ wb, g.sideToMove wb = x ∨ g.sideToMove wb = y
  flips : ∀ wb, ∀ a ∈ g.generateLegalCtx wb context,
    g.sideToMove (g.doMove wb a) ≠ g.sideToMove wb

theorem Descent.mover_side {root wb : W} {i : Nat} {path : List MctsStep}
    (h : Descent g options root i path wb) :
    ∀ step ∈ path, step.node ≠ 0 → ∃ at', step.mover = g.sideToMove at' := by
  induction h with
  | root mover =>
    intro step hmem hnode
    obtain rfl := List.mem_singleton.1 hmem
    exact absurd rfl hnode
  | @step i c path wb action hpath hlater hlegal ih =>
    intro step hmem hnode
    rcases List.mem_cons.1 hmem with rfl | hmem
    · exact ⟨wb, rfl⟩
    · exact ih step hmem hnode

/-- There the mover is the leaf's side exactly when the leaf is an odd number of plies below. -/
theorem Descent.mover_alternates (halt : Alternating g options.moveOrderContext) {root wb : W}
    {i : Nat} {path : List MctsStep} (h : Descent g options root i path wb) {d : Nat}
    {step : MctsStep} (hd : path[d]? = some step) (hnode : step.node ≠ 0) :
    step.mover = g.sideToMove wb ↔ d % 2 = 1 := by
  induction h generalizing d with
  | root mover =>
    have hmem := List.mem_of_getElem? hd
    obtain rfl := List.mem_singleton.1 hmem
    exact absurd rfl hnode
  | @step i c path wb action hpath hlater hlegal ih =>
    have hflip := halt.flips wb action hlegal
    cases d with
    | zero =>
      obtain rfl : ({ node := c, mover := g.sideToMove wb } : MctsStep) = step := by simpa using hd
      simp [hflip.symm]
    | succ d =>
      have hrest : path[d]? = some step := by simpa using hd
      have hmover := ih hrest
      -- with two sides, not the one before the move is the one after it
      have hother : step.mover = g.sideToMove (g.doMove wb action)
          ↔ ¬step.mover = g.sideToMove wb := by
        obtain ⟨x, y, htwo⟩ := halt.two
        obtain ⟨at', hside⟩ := hpath.mover_side step (List.mem_of_getElem? hrest) hnode
        have h1 := htwo at'
        have h2 := htwo wb
        have h3 := htwo (g.doMove wb action)
        omega
      rw [hother, hmover]
      omega

/-! ## The counts -/

/-- Two tests that divide a third between them. -/
theorem countP_add_countP {α : Type} {p q r : α → Bool} {l : List α}
    (hsplit : ∀ a ∈ l, r a = true → p a = !q a)
    (hnone : ∀ a ∈ l, r a = false → p a = false ∧ q a = false) :
    l.countP p + l.countP q = l.countP r := by
  induction l with
  | nil => rfl
  | cons a rest ih =>
    have hrest := ih (fun b hb => hsplit b (List.mem_cons_of_mem _ hb))
      (fun b hb => hnone b (List.mem_cons_of_mem _ hb))
    rw [List.countP_cons, List.countP_cons, List.countP_cons]
    cases hr : r a with
    | true =>
      rw [hsplit a (List.mem_cons_self ..) hr]
      cases q a <;> simp <;> omega
    | false =>
      obtain ⟨hp, hq⟩ := hnone a (List.mem_cons_self ..) hr
      simp [hp, hq, hrest]

theorem not_wonByMover {p : Playout} {i : Nat} (h : p.goesThrough i = false) :
    p.wonByMover i = false := by
  have hnone : (p.path.find? fun step => step.node = i) = none := by
    rw [List.find?_eq_none]
    intro step hmem hstep
    have hthrough : p.goesThrough i = true := Playout.goesThrough_iff.2
      (List.mem_map.2 ⟨step, hmem, by simpa using hstep⟩)
    rw [h] at hthrough
    cases hthrough
  rw [Playout.wonByMover, hnone]

/-- **What the tree counts.** After any number of iterations, whichever children were selected: the
workbench is back at the root, `visits` is the number of playouts through a node, and `wins` is the
number of playouts that credited it. A playout credits its mover's win exactly if it is aligned
there, so `wins` counts the wins of the player who moved into the node when every playout through
it is aligned. Where the sides alternate it counts his losses. -/
theorem mcts_counts (law : g.Reversible) {fuel : Nat} {policy : SearchPolicy}
    {options : MctsOptions} {rank : MctsArena → Nat → Nat} {elapsedMs : Nat → Nat}
    {rng : BitVec 64} {wb : W} :
    (∀ result rng' wb',
      searchWithOptions g fuel policy options rank elapsedMs rng wb = some (result, rng', wb') →
      wb' = wb)
    ∧ ∀ state, buildTree g fuel policy options rank elapsedMs rng wb = some state →
      state.wb = wb ∧ ∀ i < state.arena.size,
        (state.arena.node i).visits = state.playouts.countP (fun p => p.goesThrough i)
        ∧ (state.arena.node i).wins = state.playouts.countP (fun p => p.credited i)
        ∧ (∀ p ∈ state.playouts, p.goesThrough i = true →
          (p.credited i = p.wonByMover i ↔ p.Aligned i))
        ∧ ((∀ p ∈ state.playouts, p.goesThrough i = true → p.Aligned i) →
          (state.arena.node i).wins = state.playouts.countP fun p => p.wonByMover i)
        ∧ (Alternating g options.moveOrderContext → i ≠ 0 →
          (state.arena.node i).wins + state.playouts.countP (fun p => p.wonByMover i)
            = (state.arena.node i).visits) := by
  refine ⟨fun result rng' wb' hrun => ?_, fun state hrun => ?_⟩
  · unfold searchWithOptions at hrun
    split at hrun
    · obtain ⟨-, -, rfl⟩ := by simpa using hrun
      rfl
    · obtain ⟨state, hbuild, heq⟩ := Option.map_eq_some_iff.1 hrun
      have hback := (buildTree_state law hbuild).wb
      split at heq
      · obtain ⟨-, -, rfl⟩ := by simpa using heq
        exact hback
      · obtain ⟨-, -, rfl⟩ := by simpa using heq
        exact hback
  · have hstate := buildTree_state law hrun
    refine ⟨hstate.wb, fun i hi => ?_⟩
    have hcredit : ∀ p ∈ state.playouts, p.goesThrough i = true →
        (p.credited i = p.wonByMover i ↔ p.Aligned i) := fun p hp hthrough =>
      Playout.credited_eq_iff (hstate.tally.simple p hp) hthrough
    have hwins := hstate.tally.wins i hi
    -- a playout that does not go through the node counts nowhere
    have hoff : ∀ p : Playout, p.goesThrough i = false →
        p.credited i = false ∧ p.wonByMover i = false := by
      intro p hoff
      refine ⟨?_, not_wonByMover hoff⟩
      cases hc : p.credited i with
      | false => rfl
      | true => exact absurd (goesThrough_of_credited hc) (by simp [hoff])
    refine ⟨hstate.tally.visits i hi, hwins, hcredit, fun haligned => ?_, fun halt hroot => ?_⟩
    · rw [hwins]
      refine List.countP_congr fun p hp => ?_
      cases hthrough : p.goesThrough i with
      | false => simp [hoff p hthrough]
      | true => rw [(hcredit p hp hthrough).2 (haligned p hp hthrough)]
    · rw [hwins, hstate.tally.visits i hi]
      refine countP_add_countP (fun p hp hthrough => ?_) fun p _ hthrough => hoff p hthrough
      obtain ⟨j, leaf, hpath, hside⟩ := hstate.ways p hp
      have hnot : ¬p.Aligned i := by
        intro haligned
        obtain ⟨d, step, hd, hnode, -⟩ :=
          Playout.exists_place (hstate.tally.simple p hp) hthrough
        have hstep := haligned d step hd hnode
        have hmover := hpath.mover_alternates halt hd (by rw [hnode]; exact hroot)
        rw [hside] at hstep
        omega
      have hne := fun heq => hnot ((hcredit p hp hthrough).1 heq)
      cases hc : p.credited i <;> cases hw : p.wonByMover i <;> simp_all

/-- One iteration, without playouts and without assistance. -/
def oneIteration : MctsOptions := { iterations := 1, playoutDepth := 0, abAssistDepth := 0 }

theorem onePly_alternating : Alternating Searcher.onePly oneIteration.moveOrderContext where
  two := by
    refine ⟨0, 1, fun path => ?_⟩
    show ((path.length % 2 : Nat) : Int) = 0 ∨ ((path.length % 2 : Nat) : Int) = 1
    omega
  flips path a _ := by
    show (((path.length + 1) % 2 : Nat) : Int) ≠ ((path.length % 2 : Nat) : Int)
    omega

/-- The one-ply game, played by one side alone. -/
def soloPly : Game (List Action) := { Searcher.onePly with sideToMove := fun _ => 0 }

/-- One iteration of both: where the sides alternate, wins and the mover's wins add up to the
visits; where one side moves alone, the path is aligned and they agree. -/
theorem mcts_counts_onePly :
    (∀ state ∈ buildTree Searcher.onePly 0 {} oneIteration (fun _ _ => 0) (fun _ => 0) 1 [],
      (state.arena.node 1).wins + state.playouts.countP (fun p => p.wonByMover 1)
        = (state.arena.node 1).visits)
    ∧ (∀ state ∈ buildTree soloPly 0 {} oneIteration (fun _ _ => 0) (fun _ => 0) 1 [],
      (state.arena.node 1).wins = state.playouts.countP fun p => p.wonByMover 1)
    ∧ (buildTree soloPly 0 {} oneIteration (fun _ _ => 0) (fun _ => 0) 1 []).map
      (fun state => (state.arena.node 1).wins) = some 1 := by
  refine ⟨fun state hrun => ?_, fun state hrun => ?_, by decide⟩
  · have hsize : (buildTree Searcher.onePly 0 {} oneIteration (fun _ _ => 0) (fun _ => 0) 1 []).map
        (fun state => state.arena.size) = some 3 := by decide
    rw [hrun] at hsize
    have hlt : 1 < state.arena.size := by
      have hthree : state.arena.size = 3 := Option.some.inj hsize
      omega
    exact (((mcts_counts (Searcher.pathGame_reversible _ _ _)).2 state hrun).2 1 hlt).2.2.2.2
      onePly_alternating (by decide)
  · have hlook : (buildTree soloPly 0 {} oneIteration (fun _ _ => 0) (fun _ => 0) 1 []).map
        (fun state => (state.arena.size, state.playouts))
        = some (3, [⟨[⟨1, 0⟩, ⟨0, 0⟩], 0, true⟩]) := by decide
    rw [hrun] at hlook
    obtain ⟨hsize, hplayouts⟩ := Prod.mk.inj (Option.some.inj hlook)
    have law : soloPly.Reversible := ⟨fun _ _ _ _ => rfl, fun _ _ _ _ _ => rfl⟩
    refine (((mcts_counts law).2 state hrun).2 1 (by rw [hsize]; decide)).2.2.2.1 ?_
    intro p hp _ d step hd hnode
    rw [hplayouts, List.mem_singleton] at hp
    subst hp
    match d with
    | 0 =>
      obtain rfl : ({ node := 1, mover := 0 } : MctsStep) = step := by simpa using hd
      decide
    | 1 =>
      obtain rfl : ({ node := 0, mover := 0 } : MctsStep) = step := by simpa using hd
      cases hnode
    | d + 2 => simp at hd

/-- **The wrong side wins.** The simulation from the first root move is won by the opponent, who is
to move there; the node is credited with a win, though the player who moved into it lost. -/
theorem mcts_credits_opponent :
    (buildTree Searcher.onePly 0 {} oneIteration (fun _ _ => 0) (fun _ => 0) 1 []).map
      (fun state => ((state.arena.node 1).action, (state.arena.node 1).visits,
        (state.arena.node 1).wins, state.playouts.countP fun p => p.wonByMover 1))
    = some (Searcher.pathMove 0, 1, 1, 0) := by
  decide

end MctsSearcher

end Sanmill
