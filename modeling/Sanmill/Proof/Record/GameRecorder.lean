import Sanmill.Proof.Record.Transform
import Sanmill.Record.GameRecorder

/-!
# The recorder keeps a tree

What callers rely on is `Sound`: links match lists, the active node is in the tree, siblings
have different moves. Three operations break it: a move inserted without a look at the
children, a switch to a node that has been cut off, and a promotion among such nodes. A run
without these steps stays sound, and only `deleteBranch` and `reset` take nodes out.
-/

namespace Sanmill.Recorder

open Forest

namespace GameRecorder

/-- The node is the root or can be reached from it. -/
def InTree (s : GameRecorder) (n : Nat) : Prop := Below s.heap pgnRoot n

/-- What a recorder promises of its tree. -/
structure Sound (s : GameRecorder) : Prop where
  parents : ∀ p, ∀ c ∈ (s.node p).children, (s.node c).parent = some p
  active : ∃ n, s.activeNode = some n ∧ s.InTree n
  siblings : ∀ p, (s.node p).children.Pairwise fun a b => s.moveAt a ≠ s.moveAt b

/-- No child of the node has the move. -/
def NewAt (s : GameRecorder) (n : Nat) (move : ExtMove) : Prop :=
  ∀ c ∈ (s.node n).children, s.moveAt c ≠ some move.move

/-- A step whose insertion is of a new move, and which stays in the tree. -/
def Allowed (s : GameRecorder) : Op → Prop
  | .appendMove move createVariation =>
    createVariation = true ∨ s.NewAt (s.activeNode.getD pgnRoot) move
  | .branchNewMove fromIndex newMove =>
    s.NewAt (s.mainlineNode fromIndex.toNat pgnRoot) newMove
  -- the node handed in is one the recorder has made
  | .addVariationLine parent _ => parent < s.heap.fresh
  | .switchToVariation variationNode => s.InTree variationNode
  | .promoteVariationToMainline variationNode =>
    (s.promotable variationNode).isSome → s.InTree variationNode
  -- no layout in the tree makes the transformation throw half way
  | .transformCoordinates type => ∀ n, s.InTree n → ∀ move, (s.node n).data = some move →
    (transformFenOrNull move.boardLayout type).isSome
  | _ => True

/-- The operations that take nodes out of the tree. -/
def Op.removes : Op → Bool
  | .deleteBranch _ => true
  | .reset => true
  | _ => false

/-- What the steps keep. -/
structure Invariant (s : GameRecorder) : Prop where
  linked : Linked s.heap
  distinct : Distinct ExtMove.move s.heap
  root : pgnRoot < s.heap.fresh
  active : ∃ n, s.activeNode = some n ∧ s.InTree n

/-- The tree only grows. -/
def Keeps (s s' : GameRecorder) : Prop := ∀ n, s.InTree n → s'.InTree n

variable {s : GameRecorder}

theorem Invariant.sound (hi : Invariant s) : Sound s where
  parents := fun _ _ hc => hi.linked.parent_of_mem hc
  active := hi.active
  siblings := hi.distinct

theorem invariant_new (setupPosition lastPositionWithRemove : Option Text) :
    Invariant (new setupPosition lastPositionWithRemove) where
  linked := Linked.single
  distinct := Distinct.single
  root := Nat.one_pos
  active := ⟨pgnRoot, rfl, Below.refl⟩

theorem Invariant.lt_fresh (hi : Invariant s) {n : Nat} (hn : s.InTree n) : n < s.heap.fresh :=
  Below.lt_fresh hi.linked hi.root hn

/-- The node that moves are appended to. -/
theorem Invariant.inTree_head (hi : Invariant s) : s.InTree (s.activeNode.getD pgnRoot) := by
  obtain ⟨n, hactive, hn⟩ := hi.active
  rwa [hactive]

/-- Making another node of the tree active. -/
theorem Invariant.follow (hi : Invariant s) {n : Nat} (hn : s.InTree n) :
    Invariant { s with activeNode := some n } where
  linked := hi.linked
  distinct := hi.distinct
  root := hi.root
  active := ⟨n, rfl, hn⟩

theorem mem_of_childWith {n c : Nat} {move : ExtMove} (h : s.childWith n move = some c) :
    c ∈ (s.node n).children := List.mem_of_find?_eq_some h

theorem newAt_of_childWith {n : Nat} {move : ExtMove} (h : s.childWith n move = none) :
    s.NewAt n move := by
  intro c hc heq
  have := List.find?_eq_none.1 h c hc
  simp [heq] at this

/-! ## Insertions -/

theorem Invariant.insertFirst (hi : Invariant s) {n : Nat} {move : ExtMove} (hn : s.InTree n)
    (hnew : s.NewAt n move) : Invariant (s.insertFirst n move) where
  linked := hi.linked.addFirst (hi.lt_fresh hn) move
  distinct := hi.distinct.addFirst hi.linked (hi.lt_fresh hn) hnew
  root := Nat.lt_succ_of_lt hi.root
  active := ⟨s.heap.fresh, rfl,
    Below.child (hn.addFirst hi.linked n move) (mem_children_addFirst s.heap n move)⟩

theorem Invariant.insertLast (hi : Invariant s) {n : Nat} {move : ExtMove} (hn : s.InTree n)
    (hnew : s.NewAt n move) : Invariant (s.insertLast n move) where
  linked := hi.linked.addLast (hi.lt_fresh hn) move
  distinct := hi.distinct.addLast hi.linked (hi.lt_fresh hn) hnew
  root := Nat.lt_succ_of_lt hi.root
  active := ⟨s.heap.fresh, rfl,
    Below.child (hn.addLast hi.linked n move) (mem_children_addLast s.heap n move)⟩

theorem keeps_insertFirst (hi : Invariant s) (n : Nat) (move : ExtMove) :
    Keeps s (s.insertFirst n move) := fun _ hm => hm.addFirst hi.linked n move

theorem keeps_insertLast (hi : Invariant s) (n : Nat) (move : ExtMove) :
    Keeps s (s.insertLast n move) := fun _ hm => hm.addLast hi.linked n move

theorem appendMove_spec (hi : Invariant s) {move : ExtMove} {createVariation : Bool}
    (hallowed : createVariation = true ∨ s.NewAt (s.activeNode.getD pgnRoot) move) :
    Invariant (s.appendMove move createVariation)
      ∧ Keeps s (s.appendMove move createVariation) := by
  have hhead := hi.inTree_head
  unfold appendMove
  by_cases hlook : (!(s.node (s.activeNode.getD pgnRoot)).children.isEmpty && createVariation)
      = true
  · simp only [hlook, if_true]
    cases hchild : s.childWith (s.activeNode.getD pgnRoot) move with
    | some c =>
      have hc : s.InTree c := Below.child hhead (mem_of_childWith hchild)
      exact ⟨hi.follow hc, fun _ hm => hm⟩
    | none =>
      have hnew := newAt_of_childWith hchild
      exact ⟨hi.insertLast hhead hnew, keeps_insertLast hi _ move⟩
  · have hnew : s.NewAt (s.activeNode.getD pgnRoot) move := by
      rcases hallowed with hcreate | hnew
      · -- the children were not looked at because there are none
        intro c hc
        rw [hcreate, Bool.and_true, Bool.not_eq_true', Bool.not_eq_false,
          List.isEmpty_iff] at hlook
        rw [hlook] at hc
        cases hc
      · exact hnew
    simp only [hlook, Bool.false_eq_true, if_false]
    exact ⟨hi.insertFirst hhead hnew, keeps_insertFirst hi _ move⟩

theorem appendMoveIfDifferent_spec (hi : Invariant s) (newMove : ExtMove) :
    Invariant (s.appendMoveIfDifferent newMove)
      ∧ Keeps s (s.appendMoveIfDifferent newMove) := by
  obtain ⟨n, hactive, hn⟩ := hi.active
  simp only [appendMoveIfDifferent, hactive]
  by_cases hsame : s.moveAt n = some newMove.move
  · rw [if_pos hsame]
    exact ⟨hi, fun _ hm => hm⟩
  rw [if_neg hsame]
  cases hchild : s.childWith n newMove with
  | some c =>
    have hc : s.InTree c := Below.child hn (mem_of_childWith hchild)
    exact ⟨hi.follow hc, fun _ hm => hm⟩
  | none => exact appendMove_spec hi (Or.inl rfl)

theorem inTree_mainlineNode (steps : Nat) {n : Nat} (hn : s.InTree n) :
    s.InTree (s.mainlineNode steps n) := by
  induction steps generalizing n with
  | zero => exact hn
  | succ steps ih =>
    unfold mainlineNode
    split
    · exact hn
    · rename_i first rest hchildren
      have hfirst : first ∈ (s.node n).children := hchildren ▸ List.mem_cons_self
      exact ih (Below.child hn hfirst)

theorem branchNewMove_spec (hi : Invariant s) {fromIndex : Int} {newMove : ExtMove}
    (hnew : s.NewAt (s.mainlineNode fromIndex.toNat pgnRoot) newMove) :
    Invariant (s.branchNewMove fromIndex newMove)
      ∧ Keeps s (s.branchNewMove fromIndex newMove) :=
  ⟨hi.insertFirst (inTree_mainlineNode _ Below.refl) hnew, keeps_insertFirst hi _ newMove⟩

theorem branchNewMoveFromActiveNode_spec (hi : Invariant s) (newMove : ExtMove) :
    Invariant (s.branchNewMoveFromActiveNode newMove)
      ∧ Keeps s (s.branchNewMoveFromActiveNode newMove) := by
  have hhead := hi.inTree_head
  unfold branchNewMoveFromActiveNode
  cases hchild : s.childWith (s.activeNode.getD pgnRoot) newMove with
  | some c =>
    have hc : s.InTree c := Below.child hhead (mem_of_childWith hchild)
    simp only [hchild]
    exact ⟨hi.follow hc, fun _ hm => hm⟩
  | none =>
    simp only [hchild]
    exact ⟨hi.insertLast hhead (newAt_of_childWith hchild), keeps_insertLast hi _ newMove⟩

/-- A line may also be added below a node that has been cut off. -/
theorem addLine_spec (hi : Invariant s) {current : Nat} (hcurrent : current < s.heap.fresh)
    (moves : List ExtMove) : Invariant (s.addLine current moves)
      ∧ Keeps s (s.addLine current moves) := by
  induction moves generalizing s current with
  | nil => exact ⟨hi, fun _ hm => hm⟩
  | cons move moves ih =>
    unfold addLine
    cases hchild : s.childWith current move with
    | some next => exact ih hi (hi.linked.mem_lt_fresh (mem_of_childWith hchild))
    | none =>
      obtain ⟨n, hactive, hn⟩ := hi.active
      have hadd : Invariant { s with heap := s.heap.addLast current move } :=
        { linked := hi.linked.addLast hcurrent move
          distinct := hi.distinct.addLast hi.linked hcurrent (newAt_of_childWith hchild)
          root := Nat.lt_succ_of_lt hi.root
          active := ⟨n, hactive, hn.addLast hi.linked current move⟩ }
      obtain ⟨hinv, hkeeps⟩ := ih hadd (Nat.lt_succ_self s.heap.fresh)
      exact ⟨hinv, fun m hm => hkeeps m (Below.addLast hi.linked hm current move)⟩

/-! ## Moving the active node and reordering -/

theorem switchToVariation_spec (hi : Invariant s) {n : Nat} (hn : s.InTree n) :
    Invariant (s.switchToVariation n) ∧ Keeps s (s.switchToVariation n) := by
  unfold switchToVariation
  split
  · exact ⟨hi.follow hn, fun _ hm => hm⟩
  · exact ⟨hi, fun _ hm => hm⟩

theorem promotable_eq_some {n p : Nat} (h : s.promotable n = some p) :
    (s.node n).parent = some p ∧ n ∈ (s.node p).children := by
  unfold promotable at h
  cases hp : (s.node n).parent with
  | none => simp [hp] at h
  | some q =>
    simp only [hp, Option.bind_eq_bind, Option.bind_some] at h
    split at h
    · cases h
    · rename_i hguard
      cases h
      simp only [Bool.or_eq_true, Bool.not_eq_true', not_or, Bool.not_eq_false,
        List.contains_iff_mem] at hguard
      exact ⟨rfl, hguard.1⟩

theorem promote_spec (hi : Invariant s) {n : Nat}
    (hallowed : (s.promotable n).isSome → s.InTree n) :
    Invariant (s.promoteVariationToMainline n) ∧ Keeps s (s.promoteVariationToMainline n) := by
  unfold promoteVariationToMainline
  cases hprom : s.promotable n with
  | none => exact ⟨hi, fun _ hm => hm⟩
  | some p =>
    have hn : s.InTree n := hallowed (by rw [hprom]; rfl)
    obtain ⟨-, hmem⟩ := promotable_eq_some hprom
    have hperm : (n :: (s.node p).children.erase n).Perm (s.node p).children :=
      (List.perm_cons_erase hmem).symm
    have hkeeps : ∀ m, s.InTree m →
        Below (s.heap.setChildren p (n :: (s.node p).children.erase n)) pgnRoot m := by
      intro m hm
      refine hm.mono fun q c hc => ?_
      rw [Heap.children_setChildren]
      by_cases hq : q = p
      · rw [if_pos hq]
        exact hperm.mem_iff.2 (hq ▸ hc)
      · rwa [if_neg hq]
    refine ⟨?_, hkeeps⟩
    exact
      { linked := hi.linked.setChildren fun c hc => hperm.mem_iff.1 hc
        distinct := hi.distinct.setChildren
          ((hperm.pairwise_iff fun hne => hne.symm).2 (hi.distinct p))
        root := hi.root
        active := ⟨n, rfl, hkeeps n hn⟩ }

/-! ## Removals -/

/-- The walk up ends before its fuel does. -/
theorem climbsTo_iff (hl : Linked s.heap) {n m : Nat} {fuel : Nat} (hfuel : m < fuel) :
    s.climbsTo n fuel (some m) = true ↔ Climbs s.heap n m := by
  -- parents are older than their children, so a climb is shorter than the fuel
  induction fuel generalizing m with
  | zero => omega
  | succ fuel ih =>
    unfold climbsTo
    by_cases hm : m = n
    · rw [if_pos hm, hm]
      exact iff_of_true rfl Climbs.refl
    rw [if_neg hm]
    cases hp : (s.node m).parent with
    | none =>
      constructor
      · intro h
        cases fuel <;> simp [climbsTo] at h
      · intro h
        cases h with
        | refl => exact absurd rfl hm
        | step hq _ =>
          rw [node] at hp
          rw [hp] at hq
          cases hq
    | some p =>
      have hlt := hl.parent_lt hp
      rw [ih (by omega)]
      constructor
      · intro h
        exact Climbs.step hp h
      · intro h
        cases h with
        | refl => exact absurd rfl hm
        | step hq h =>
          rw [node] at hp
          rw [hp] at hq
          cases hq
          exact h

theorem invariant_deleteBranch (hi : Invariant s) (n : Nat) : Invariant (s.deleteBranch n) := by
  unfold deleteBranch
  cases hp : (s.node n).parent with
  | none => exact hi
  | some p =>
    simp only
    split
    · exact hi
    obtain ⟨m, hactive, hm⟩ := hi.active
    have hlt : p < n := hi.linked.parent_lt hp
    have hclimbs : s.isNodeOrDescendant n s.activeNode = true ↔ Climbs s.heap n m := by
      rw [isNodeOrDescendant, hactive]
      exact climbsTo_iff hi.linked (Nat.lt_succ_of_lt (hi.lt_fresh hm))
    refine
      { linked := hi.linked.setChildren fun c hc => List.mem_of_mem_erase hc
        distinct := hi.distinct.setChildren ((hi.distinct p).sublist List.erase_sublist)
        root := hi.root
        active := ?_ }
    by_cases hbelow : s.isNodeOrDescendant n s.activeNode = true
    · -- the parent is in the tree, and too old to hang below the branch
      have hpm : Climbs s.heap p m := (hclimbs.1 hbelow).parent hp
      refine ⟨p, if_pos hbelow, ?_⟩
      refine Below.setChildren_erase hi.linked (hpm.below_root hi.linked hm) fun hnp => ?_
      have := hnp.le hi.linked
      omega
    · refine ⟨m, (if_neg hbelow).trans hactive, ?_⟩
      exact Below.setChildren_erase hi.linked hm fun h => hbelow (hclimbs.2 h)

theorem invariant_reset (hi : Invariant s) : Invariant s.reset where
  linked := hi.linked.setChildren fun _ hc => absurd hc List.not_mem_nil
  distinct := hi.distinct.setChildren List.Pairwise.nil
  root := hi.root
  active := ⟨pgnRoot, rfl, Below.refl⟩

/-! ## Symmetries -/

variable {h h' : Heap ExtMove} {type : TransformationType}

/-- The walk over the tree as one pass over its nodes. -/
def transformNext (type : TransformationType) (progress : Heap ExtMove × Bool) (n : Nat) :
    Heap ExtMove × Bool :=
  if progress.2 then transformNode type progress.1 n else progress

theorem foldl_transformNext_thrown (ns : List Nat) :
    ns.foldl (transformNext type) (h, false) = (h, false) := by
  induction ns with
  | nil => rfl
  | cons n ns ih => exact ih

theorem sameShape_transformNext (type : TransformationType) (n : Nat)
    {progress : Heap ExtMove × Bool}
    (hs : SameShape h progress.1) : SameShape h (transformNext type progress n).1 := by
  unfold transformNext
  split
  · unfold transformNode
    split
    · exact hs
    · split
      · exact hs
      · exact hs.setData n _
  · exact hs

theorem sameShape_foldl (type : TransformationType) (ns : List Nat)
    {progress : Heap ExtMove × Bool}
    (hs : SameShape h progress.1) : SameShape h (ns.foldl (transformNext type) progress).1 := by
  induction ns generalizing progress with
  | nil => exact hs
  | cons n ns ih => exact ih (sameShape_transformNext type n hs)

theorem transformNodeCoordinates_eq (fuel n : Nat) {progress : Heap ExtMove × Bool}
    (hs : SameShape h progress.1) :
    transformNodeCoordinates type fuel progress n
      = (preorder h fuel n).foldl (transformNext type) progress := by
  induction fuel generalizing n progress with
  | zero => rfl
  | succ fuel ih =>
    -- the children are visited one after the other, each with its own subtree
    have hchildren : ∀ (cs : List Nat) {progress : Heap ExtMove × Bool},
        SameShape h progress.1 → cs.foldl (transformNodeCoordinates type fuel) progress
          = (cs.flatMap (preorder h fuel)).foldl (transformNext type) progress := by
      intro cs
      induction cs with
      | nil => intro progress _; rfl
      | cons c cs ihc =>
        intro progress hs
        rw [List.foldl_cons, List.flatMap_cons, List.foldl_append, ← ih c hs]
        refine ihc ?_
        rw [ih c hs]
        exact sameShape_foldl type _ hs
    obtain ⟨g, ok⟩ := progress
    cases ok with
    | false => rw [foldl_transformNext_thrown]; rfl
    | true =>
      have hnext := sameShape_transformNext type n hs
      show (g.cell n).children.foldl (transformNodeCoordinates type fuel) (transformNode type g n)
        = _
      rw [hs.children n]
      exact hchildren _ hnext

/-- The data of each node passed, where no transformation throws. -/
theorem data_foldl_transformNext (type : TransformationType) {ns : List Nat} (hnodup : ns.Nodup)
    (hok : ∀ n ∈ ns, ∀ move, (h.cell n).data = some move → (transformMove move type).isSome)
    (m : Nat) :
    ((ns.foldl (transformNext type) (h, true)).1.cell m).data
      = if m ∈ ns then (h.cell m).data.bind (transformMove · type) else (h.cell m).data := by
  induction ns generalizing h with
  | nil => rfl
  | cons n ns ih =>
    obtain ⟨hn, hrest⟩ := List.nodup_cons.1 hnodup
    rw [List.foldl_cons]
    -- what the first node leaves to the others
    have hfirst : ∃ g, transformNext type (h, true) n = (g, true) ∧ ∀ k, (g.cell k).data
        = if k = n then (h.cell n).data.bind (transformMove · type) else (h.cell k).data := by
      show ∃ g, transformNode type h n = (g, true) ∧ _
      unfold transformNode
      cases hdata : (h.cell n).data with
      | none =>
        refine ⟨h, rfl, fun k => ?_⟩
        by_cases hk : k = n
        · rw [if_pos hk, hk, hdata]
          rfl
        · rw [if_neg hk]
      | some move =>
        obtain ⟨transformed, htransformed⟩ :=
          Option.isSome_iff_exists.1 (hok n List.mem_cons_self move hdata)
        refine ⟨h.setData n transformed, by simp only [htransformed], fun k => ?_⟩
        rw [Heap.data_setData, Option.bind_some, htransformed]
    obtain ⟨g, hg, hdata⟩ := hfirst
    rw [hg]
    have hother : ∀ k ∈ ns, (g.cell k).data = (h.cell k).data := by
      intro k hk
      rw [hdata, if_neg]
      rintro rfl
      exact hn hk
    have hok' : ∀ k ∈ ns, ∀ move, (g.cell k).data = some move →
        (transformMove move type).isSome := by
      intro k hk move hmove
      rw [hother k hk] at hmove
      exact hok k (List.mem_cons_of_mem _ hk) move hmove
    rw [ih hrest hok']
    by_cases hm : m ∈ ns
    · rw [if_pos hm, if_pos (List.mem_cons_of_mem _ hm), hother m hm]
    · rw [if_neg hm, hdata]
      by_cases hmn : m = n
      · rw [if_pos hmn, if_pos (List.mem_cons.2 (Or.inl hmn)), hmn]
      · rw [if_neg hmn, if_neg (fun hmem => (List.mem_cons.1 hmem).elim hmn hm)]

/-- Data with different moves keep different moves. -/
theorem map_bind_transformMove_ne {a b : Option ExtMove}
    (ha : ∀ move, a = some move → (transformMove move type).isSome)
    (hb : ∀ move, b = some move → (transformMove move type).isSome)
    (hne : a.map ExtMove.move ≠ b.map ExtMove.move) :
    (a.bind (transformMove · type)).map ExtMove.move
      ≠ (b.bind (transformMove · type)).map ExtMove.move := by
  cases a with
  | none =>
    cases b with
    | none => exact absurd rfl hne
    | some move =>
      obtain ⟨transformed, hmove⟩ := Option.isSome_iff_exists.1 (hb move rfl)
      simp [hmove]
  | some move =>
    obtain ⟨transformed, hmove⟩ := Option.isSome_iff_exists.1 (ha move rfl)
    cases b with
    | none => simp [hmove]
    | some other =>
      obtain ⟨transformed', hother⟩ := Option.isSome_iff_exists.1 (hb other rfl)
      simp only [Option.bind_some, hmove, hother, Option.map_some, ne_eq, Option.some.injEq]
      rw [move_of_transformMove hmove, move_of_transformMove hother]
      intro heq
      exact hne (congrArg some (transformMoveNotation_inj move.accepted other.accepted heq))

/-- The nodes of the tree are transformed, all others are left alone. -/
theorem distinct_transformNodeCoordinates (hl : Linked h) (hd : Distinct ExtMove.move h)
    (hroot : pgnRoot < h.fresh)
    (hok : ∀ n, Below h pgnRoot n → ∀ move, (h.cell n).data = some move →
      (transformMove move type).isSome) :
    Distinct ExtMove.move (transformNodeCoordinates type h.fresh (h, true) pgnRoot).1 := by
  have hmem : ∀ n, n ∈ preorder h h.fresh pgnRoot ↔ Below h pgnRoot n := fun n =>
    mem_preorder hl hroot (by simp [pgnRoot])
  have hdata := data_foldl_transformNext type (nodup_preorder hl hd.nodup h.fresh pgnRoot)
    fun n hn => hok n ((hmem n).1 hn)
  have hs : SameShape h
      ((preorder h h.fresh pgnRoot).foldl (transformNext type) (h, true)).1 :=
    sameShape_foldl type _ (SameShape.refl h)
  rw [transformNodeCoordinates_eq _ _ (SameShape.refl h)]
  intro p
  rw [hs.children]
  refine (hd p).imp_of_mem fun {a b} ha hb hne => ?_
  unfold keyOf
  rw [hdata a, hdata b]
  by_cases hp : Below h pgnRoot p
  · have hba : Below h pgnRoot a := Below.child hp ha
    have hbb : Below h pgnRoot b := Below.child hp hb
    rw [if_pos ((hmem a).2 hba), if_pos ((hmem b).2 hbb)]
    exact map_bind_transformMove_ne (hok a hba) (hok b hbb) hne
  · -- a child in the tree would have its parent there
    have hout : ∀ c ∈ (h.cell p).children, c ∉ preorder h h.fresh pgnRoot := by
      intro c hc hcmem
      have hlt := hl.lt_of_mem hc
      rcases ((hmem c).1 hcmem).parent hl with hroot' | ⟨q, hq, hbelow⟩
      · rw [hroot'] at hlt
        exact absurd hlt (Nat.not_lt_zero p)
      · rw [hl.parent_of_mem hc] at hq
        cases hq
        exact hp hbelow
    rw [if_neg (hout a ha), if_neg (hout b hb)]
    exact hne

theorem transformCoordinates_spec (hi : Invariant s)
    (hok : ∀ n, s.InTree n → ∀ move, (s.node n).data = some move →
      (transformFenOrNull move.boardLayout type).isSome) :
    Invariant (s.transformCoordinates type) ∧ Keeps s (s.transformCoordinates type) := by
  obtain ⟨m, hactive, hm⟩ := hi.active
  unfold transformCoordinates
  split
  · exact ⟨hi, fun _ hm => hm⟩
  simp only
  split
  · exact ⟨⟨hi.linked, hi.distinct, hi.root, m, hactive, hm⟩, fun _ hm => hm⟩
  have hs : SameShape s.heap
      (transformNodeCoordinates type s.heap.fresh (s.heap, true) pgnRoot).1 := by
    rw [transformNodeCoordinates_eq _ _ (SameShape.refl s.heap)]
    exact sameShape_foldl type _ (SameShape.refl s.heap)
  refine ⟨?_, fun _ hm => Below.sameShape hs hm⟩
  exact
    { linked := hi.linked.sameShape hs
      distinct := distinct_transformNodeCoordinates hi.linked hi.distinct hi.root
        fun n hn move hmove => transformMove_isSome_iff.2 (hok n hn move hmove)
      root := hs.fresh.symm ▸ hi.root
      active := ⟨m, hactive, Below.sameShape hs hm⟩ }

/-! ## Runs -/

theorem step_spec (hi : Invariant s) {op : Op} (hallowed : Allowed s op) :
    Invariant (s.step op) ∧ (op.removes = false → Keeps s (s.step op)) := by
  cases op with
  | appendMove move createVariation =>
    exact (appendMove_spec hi hallowed).imp_right fun h _ => h
  | appendMoveIfDifferent newMove =>
    exact (appendMoveIfDifferent_spec hi newMove).imp_right fun h _ => h
  | branchNewMove fromIndex newMove => exact (branchNewMove_spec hi hallowed).imp_right fun h _ => h
  | branchNewMoveFromActiveNode newMove =>
    exact (branchNewMoveFromActiveNode_spec hi newMove).imp_right fun h _ => h
  | addVariationLine parent moves => exact (addLine_spec hi hallowed moves).imp_right fun h _ => h
  | switchToVariation n => exact (switchToVariation_spec hi hallowed).imp_right fun h _ => h
  | promoteVariationToMainline n => exact (promote_spec hi hallowed).imp_right fun h _ => h
  | deleteBranch n =>
    exact ⟨invariant_deleteBranch hi n, fun h => absurd h Bool.noConfusion⟩
  | transformCoordinates type =>
    exact (transformCoordinates_spec hi hallowed).imp_right fun h _ => h
  | reset => exact ⟨invariant_reset hi, fun h => absurd h Bool.noConfusion⟩

/-- **A run of allowed steps is sound in every state, and keeps what it is not told to
remove.** -/
theorem recorder_sound (setupPosition lastPositionWithRemove : Option Text) (ops : List Op)
    (hallowed : Run.Every step Allowed (new setupPosition lastPositionWithRemove) ops) :
    (∀ before, before <+: ops →
        Sound (Run.last step (new setupPosition lastPositionWithRemove) before))
      ∧ Run.Every step (fun s op => op.removes = false → Keeps s (s.step op))
          (new setupPosition lastPositionWithRemove) ops := by
  have hinit := invariant_new setupPosition lastPositionWithRemove
  have hstep : ∀ s op, Invariant s → Allowed s op → Invariant (step s op) :=
    fun s op hi ha => (step_spec hi ha).1
  constructor
  · rintro before ⟨after, rfl⟩
    exact (Run.invariant hstep hinit (Run.every_append.1 hallowed).1).sound
  · exact (Run.Every.withInvariant hstep hinit hallowed).mono
      fun s op h => (step_spec h.1 h.2).2

/-- A placement without a board layout. -/
def placing (move : Text) (accepted : acceptsMove move = true) : ExtMove :=
  { move, boardLayout := none, preferredRemoveTarget := none, accepted }

def placeA7 : ExtMove := placing "a7".toList (by decide)

def placeD7 : ExtMove := placing "d7".toList (by decide)

theorem recorder_sound_variation :
    Sound (Run.last step (new none none)
      [.branchNewMove 0 placeA7, .appendMove placeD7 true, .switchToVariation 1,
        .appendMove placeA7 false, .promoteVariationToMainline 2, .deleteBranch 1]) := by
  have hallowed : Run.Every step Allowed (new none none)
      [.branchNewMove 0 placeA7, .appendMove placeD7 true, .switchToVariation 1,
        .appendMove placeA7 false, .promoteVariationToMainline 2, .deleteBranch 1] := by
    have hchild : ∀ {s : GameRecorder} {p c : Nat}, s.InTree p → c ∈ (s.node p).children →
        s.InTree c := Below.child
    refine ⟨?_, Or.inl rfl, ?_, Or.inr ?_, fun _ => ?_, trivial, trivial⟩
    · intro c hc
      exact absurd hc List.not_mem_nil
    · exact hchild Below.refl (by decide)
    · show ∀ c ∈ [2], _
      decide
    · exact hchild (hchild Below.refl (show 1 ∈ _ by decide)) (by decide)
  exact (recorder_sound none none _ hallowed).1 _ List.prefix_rfl

/-- The same move branched twice stands twice below the root. -/
theorem branchNewMove_repeats :
    ¬ Sound (Run.last step (new none none)
      [.branchNewMove 0 placeA7, .branchNewMove 0 placeA7]) := by
  intro h
  have hpair := h.siblings pgnRoot
  revert hpair
  decide

end GameRecorder

end Sanmill.Recorder
