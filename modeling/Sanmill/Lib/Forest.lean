import Mathlib.Data.List.Flatten
import Mathlib.Data.List.Nodup
import Mathlib.Logic.Function.Basic

/-!
# Linked trees in a heap

Cells with a list of children and a link back to the parent, named by the order in which
they were made. A cell that is cut off keeps its link and its children, so a heap holds the
tree below its first cell and whatever was cut off before. Links lead to older cells; this
makes every climb and every walk end.
-/

namespace Sanmill.Forest

/-- One cell: what it carries, the cell it hangs below, the cells it lists. -/
structure Cell (α : Type*) where
  data : Option α
  parent : Option Nat
  children : List Nat

/-- The cells made so far are those below `fresh`. -/
structure Heap (α : Type*) where
  cell : Nat → Cell α
  fresh : Nat

namespace Heap

variable {α : Type*}

/-- The heap with one cell, which carries nothing. -/
def single : Heap α where
  cell := fun _ => { data := none, parent := none, children := [] }
  fresh := 1

/-- The cell at `p` gets other children. -/
def setChildren (h : Heap α) (p : Nat) (cs : List Nat) : Heap α :=
  { h with cell := Function.update h.cell p { h.cell p with children := cs } }

/-- The cell at `n` gets data. -/
def setData (h : Heap α) (n : Nat) (d : α) : Heap α :=
  { h with cell := Function.update h.cell n { h.cell n with data := some d } }

/-- A new cell linked to `p`, which does not list it yet. -/
def alloc (h : Heap α) (d : α) (p : Nat) : Heap α where
  cell := Function.update h.cell h.fresh { data := some d, parent := some p, children := [] }
  fresh := h.fresh + 1

/-- A new cell in front of the children of `p`. -/
def addFirst (h : Heap α) (p : Nat) (d : α) : Heap α :=
  (h.alloc d p).setChildren p (h.fresh :: (h.cell p).children)

/-- A new cell behind the children of `p`. -/
def addLast (h : Heap α) (p : Nat) (d : α) : Heap α :=
  (h.alloc d p).setChildren p ((h.cell p).children ++ [h.fresh])

@[simp] theorem fresh_setChildren (h : Heap α) (p : Nat) (cs : List Nat) :
    (h.setChildren p cs).fresh = h.fresh := rfl

@[simp] theorem fresh_setData (h : Heap α) (n : Nat) (d : α) :
    (h.setData n d).fresh = h.fresh := rfl

@[simp] theorem fresh_alloc (h : Heap α) (d : α) (p : Nat) :
    (h.alloc d p).fresh = h.fresh + 1 := rfl

theorem children_setChildren (h : Heap α) (p n : Nat) (cs : List Nat) :
    ((h.setChildren p cs).cell n).children = if n = p then cs else (h.cell n).children := by
  by_cases hn : n = p
  · subst hn
    simp [setChildren]
  · simp [setChildren, hn]

@[simp] theorem parent_setChildren (h : Heap α) (p n : Nat) (cs : List Nat) :
    ((h.setChildren p cs).cell n).parent = (h.cell n).parent := by
  by_cases hn : n = p
  · subst hn
    simp [setChildren]
  · simp [setChildren, hn]

@[simp] theorem data_setChildren (h : Heap α) (p n : Nat) (cs : List Nat) :
    ((h.setChildren p cs).cell n).data = (h.cell n).data := by
  by_cases hn : n = p
  · subst hn
    simp [setChildren]
  · simp [setChildren, hn]

@[simp] theorem children_setData (h : Heap α) (n m : Nat) (d : α) :
    ((h.setData n d).cell m).children = (h.cell m).children := by
  by_cases hm : m = n
  · subst hm
    simp [setData]
  · simp [setData, hm]

@[simp] theorem parent_setData (h : Heap α) (n m : Nat) (d : α) :
    ((h.setData n d).cell m).parent = (h.cell m).parent := by
  by_cases hm : m = n
  · subst hm
    simp [setData]
  · simp [setData, hm]

theorem data_setData (h : Heap α) (n m : Nat) (d : α) :
    ((h.setData n d).cell m).data = if m = n then some d else (h.cell m).data := by
  by_cases hm : m = n
  · subst hm
    simp [setData]
  · simp [setData, hm]

theorem cell_alloc_of_ne (h : Heap α) (d : α) (p : Nat) {n : Nat} (hn : n ≠ h.fresh) :
    (h.alloc d p).cell n = h.cell n := by
  simp [alloc, hn]

@[simp] theorem cell_alloc_fresh (h : Heap α) (d : α) (p : Nat) :
    (h.alloc d p).cell h.fresh = { data := some d, parent := some p, children := [] } := by
  simp [alloc]

end Heap

open Heap

variable {α β : Type*} {h h' : Heap α}

/-- The heaps differ in the data of their cells only. -/
structure SameShape (h h' : Heap α) : Prop where
  children : ∀ n, (h'.cell n).children = (h.cell n).children
  parent : ∀ n, (h'.cell n).parent = (h.cell n).parent
  fresh : h'.fresh = h.fresh

theorem SameShape.refl (h : Heap α) : SameShape h h where
  children := fun _ => rfl
  parent := fun _ => rfl
  fresh := rfl

theorem SameShape.setData (hs : SameShape h h') (n : Nat) (d : α) :
    SameShape h (h'.setData n d) where
  children := fun m => (children_setData h' n m d).trans (hs.children m)
  parent := fun m => (parent_setData h' n m d).trans (hs.parent m)
  fresh := hs.fresh

/-! ## Links -/

/-- Every list of children is matched by links back, and links lead to older cells. -/
structure Linked (h : Heap α) : Prop where
  parent_of_mem : ∀ {p c : Nat}, c ∈ (h.cell p).children → (h.cell c).parent = some p
  parent_lt : ∀ {n p : Nat}, (h.cell n).parent = some p → p < n
  lt_fresh : ∀ {n p : Nat}, (h.cell n).parent = some p → n < h.fresh

namespace Linked

theorem lt_of_mem (hl : Linked h) {p c : Nat} (hc : c ∈ (h.cell p).children) : p < c :=
  hl.parent_lt (hl.parent_of_mem hc)

theorem mem_lt_fresh (hl : Linked h) {p c : Nat} (hc : c ∈ (h.cell p).children) : c < h.fresh :=
  hl.lt_fresh (hl.parent_of_mem hc)

theorem parent_zero (hl : Linked h) : (h.cell 0).parent = none := by
  cases hp : (h.cell 0).parent with
  | none => rfl
  | some p =>
    have := hl.parent_lt hp
    omega

theorem single : Linked (single : Heap α) where
  parent_of_mem := by
    intro p c hc
    simp [Heap.single] at hc
  parent_lt := by
    intro n p hp
    simp [Heap.single] at hp
  lt_fresh := by
    intro n p hp
    simp [Heap.single] at hp

/-- Rewriting one list of children to part of itself keeps the links. -/
theorem setChildren (hl : Linked h) {p : Nat} {cs : List Nat}
    (hcs : ∀ c ∈ cs, c ∈ (h.cell p).children) : Linked (h.setChildren p cs) where
  parent_of_mem := by
    intro q c hc
    rw [children_setChildren] at hc
    rw [parent_setChildren]
    by_cases hq : q = p
    · rw [if_pos hq] at hc
      rw [hq]
      exact hl.parent_of_mem (hcs c hc)
    · rw [if_neg hq] at hc
      exact hl.parent_of_mem hc
  parent_lt := by
    intro n q hq
    rw [parent_setChildren] at hq
    exact hl.parent_lt hq
  lt_fresh := by
    intro n q hq
    rw [parent_setChildren] at hq
    exact hl.lt_fresh hq

/-- So does a new cell among the children of an old one. -/
theorem attach (hl : Linked h) {p : Nat} (hp : p < h.fresh) {d : α} {cs : List Nat}
    (hcs : ∀ c ∈ cs, c = h.fresh ∨ c ∈ (h.cell p).children) :
    Linked ((h.alloc d p).setChildren p cs) where
  parent_of_mem := by
    intro q c hc
    rw [children_setChildren] at hc
    rw [parent_setChildren]
    by_cases hq : q = p
    · rw [if_pos hq] at hc
      rcases hcs c hc with rfl | hold
      · rw [cell_alloc_fresh, hq]
      · have hlt := hl.mem_lt_fresh hold
        -- an older child of `p` keeps its cell: the fresh one lies above every linked address
        rw [cell_alloc_of_ne _ _ _ (by omega), hq]
        exact hl.parent_of_mem hold
    · rw [if_neg hq] at hc
      by_cases hqf : q = h.fresh
      · rw [hqf, cell_alloc_fresh] at hc
        simp at hc
      · rw [cell_alloc_of_ne _ _ _ hqf] at hc
        have hlt := hl.mem_lt_fresh hc
        rw [cell_alloc_of_ne _ _ _ (by omega)]
        exact hl.parent_of_mem hc
  parent_lt := by
    intro n q hq
    rw [parent_setChildren] at hq
    by_cases hn : n = h.fresh
    -- the fresh node hangs below `p`, which is older
    · rw [hn, cell_alloc_fresh] at hq
      have : p = q := Option.some.inj hq
      omega
    · rw [cell_alloc_of_ne _ _ _ hn] at hq
      exact hl.parent_lt hq
  lt_fresh := by
    intro n q hq
    rw [parent_setChildren] at hq
    rw [fresh_setChildren, fresh_alloc]
    by_cases hn : n = h.fresh
    · omega
    · rw [cell_alloc_of_ne _ _ _ hn] at hq
      have := hl.lt_fresh hq
      omega

theorem addFirst (hl : Linked h) {p : Nat} (hp : p < h.fresh) (d : α) :
    Linked (h.addFirst p d) :=
  hl.attach hp fun _ hc => List.mem_cons.1 hc

theorem addLast (hl : Linked h) {p : Nat} (hp : p < h.fresh) (d : α) :
    Linked (h.addLast p d) :=
  hl.attach hp fun _ hc => (List.mem_append.1 hc).symm.imp_left List.mem_singleton.1

theorem sameShape (hl : Linked h) (hs : SameShape h h') : Linked h' where
  parent_of_mem := by
    intro p c hc
    rw [hs.children] at hc
    rw [hs.parent]
    exact hl.parent_of_mem hc
  parent_lt := by
    intro n p hp
    rw [hs.parent] at hp
    exact hl.parent_lt hp
  lt_fresh := by
    intro n p hp
    rw [hs.parent] at hp
    rw [hs.fresh]
    exact hl.lt_fresh hp

end Linked

/-! ## What lies below a cell -/

/-- Reached from `r` through lists of children. -/
inductive Below (h : Heap α) (r : Nat) : Nat → Prop where
  | refl : Below h r r
  | child {p c : Nat} : Below h r p → c ∈ (h.cell p).children → Below h r c

namespace Below

theorem mono {r n : Nat} (hsub : ∀ p c, c ∈ (h.cell p).children → c ∈ (h'.cell p).children)
    (hn : Below h r n) : Below h' r n := by
  induction hn with
  | refl => exact refl
  | child _ hc ih => exact child ih (hsub _ _ hc)

theorem sameShape (hs : SameShape h h') {r n : Nat} (hn : Below h r n) : Below h' r n :=
  hn.mono fun p _ hc => (hs.children p).symm ▸ hc

theorem trans {a b c : Nat} (hab : Below h a b) (hbc : Below h b c) : Below h a c := by
  induction hbc with
  | refl => exact hab
  | child _ hc ih => exact child ih hc

/-- By the first step of the way. -/
theorem iff_first {r n : Nat} :
    Below h r n ↔ n = r ∨ ∃ c ∈ (h.cell r).children, Below h c n := by
  constructor
  · intro hn
    induction hn with
    | refl => exact Or.inl rfl
    | @child p c hp hc ih =>
      rcases ih with rfl | ⟨d, hd, hdp⟩
      · exact Or.inr ⟨c, hc, refl⟩
      · exact Or.inr ⟨d, hd, child hdp hc⟩
  · rintro (rfl | ⟨c, hc, hcn⟩)
    · exact refl
    · exact (child refl hc).trans hcn

theorem parent (hl : Linked h) {r n : Nat} (hn : Below h r n) :
    n = r ∨ ∃ p, (h.cell n).parent = some p ∧ Below h r p := by
  cases hn with
  | refl => exact Or.inl rfl
  | child hp hc => exact Or.inr ⟨_, hl.parent_of_mem hc, hp⟩

theorem le (hl : Linked h) {r n : Nat} (hn : Below h r n) : r ≤ n := by
  induction hn with
  | refl => exact Nat.le_refl _
  | child _ hc ih =>
    have := hl.lt_of_mem hc
    omega

theorem lt_fresh (hl : Linked h) {r n : Nat} (hr : r < h.fresh) (hn : Below h r n) :
    n < h.fresh := by
  cases hn with
  | refl => exact hr
  | child _ hc => exact hl.mem_lt_fresh hc

end Below

/-- `a` is met on the way up from `n`. -/
inductive Climbs (h : Heap α) (a : Nat) : Nat → Prop where
  | refl : Climbs h a a
  | step {n p : Nat} : (h.cell n).parent = some p → Climbs h a p → Climbs h a n

namespace Climbs

theorem le (hl : Linked h) {a n : Nat} (hn : Climbs h a n) : a ≤ n := by
  induction hn with
  | refl => exact Nat.le_refl _
  | step hp _ ih =>
    have := hl.parent_lt hp
    omega

theorem of_below (hl : Linked h) {a n : Nat} (hn : Below h a n) : Climbs h a n := by
  induction hn with
  | refl => exact refl
  | child _ hc ih => exact step (hl.parent_of_mem hc) ih

theorem parent {a p n : Nat} (hn : Climbs h a n) (hp : (h.cell a).parent = some p) :
    Climbs h p n := by
  induction hn with
  | refl => exact step hp refl
  | step hq _ ih => exact step hq ih

/-- The way up is one line. -/
theorem total {a b n : Nat} (ha : Climbs h a n) (hb : Climbs h b n) :
    Climbs h a b ∨ Climbs h b a := by
  induction ha with
  | refl => exact Or.inr hb
  | @step n p hp ha ih =>
    cases hb with
    | refl => exact Or.inl (step hp ha)
    | step hq hb =>
      rw [hp] at hq
      cases hq
      exact ih hb

/-- What is met on the way up from a cell of the tree belongs to the tree. -/
theorem below_root (hl : Linked h) {a n : Nat} (ha : Climbs h a n) (hn : Below h 0 n) :
    Below h 0 a := by
  induction ha with
  | refl => exact hn
  | step hp _ ih =>
    rcases hn.parent hl with rfl | ⟨q, hq, hbelow⟩
    · rw [hl.parent_zero] at hp
      cases hp
    · rw [hp] at hq
      cases hq
      exact ih hbelow

end Climbs

/-- Two siblings have nothing below both. -/
theorem Linked.eq_of_below (hl : Linked h) {p a b n : Nat} (ha : a ∈ (h.cell p).children)
    (hb : b ∈ (h.cell p).children) (han : Below h a n) (hbn : Below h b n) : a = b := by
  -- the one met later on the way up would be the parent of both or above it
  have key : ∀ {x y : Nat}, x ∈ (h.cell p).children → y ∈ (h.cell p).children →
      Climbs h x y → x = y := by
    intro x y hx hy hxy
    cases hxy with
    | refl => rfl
    | step hq hxq =>
      rw [hl.parent_of_mem hy] at hq
      cases hq
      have hle := hxq.le hl
      have hlt := hl.lt_of_mem hx
      omega
  rcases (Climbs.of_below hl han).total (Climbs.of_below hl hbn) with hab | hba
  · exact key ha hb hab
  · exact (key hb ha hba).symm

/-- A child that is taken off its parent leaves in the tree what does not climb to it. -/
theorem Below.setChildren_erase (hl : Linked h) {p n m : Nat} (hm : Below h 0 m)
    (hnot : ¬ Climbs h n m) : Below (h.setChildren p ((h.cell p).children.erase n)) 0 m := by
  induction hm with
  | refl => exact refl
  | @child q c hq hc ih =>
    have hcn : c ≠ n := by
      rintro rfl
      exact hnot Climbs.refl
    refine child (ih fun hclimb => hnot (Climbs.step (hl.parent_of_mem hc) hclimb)) ?_
    rw [children_setChildren]
    by_cases hqp : q = p
    · rw [if_pos hqp]
      exact (List.mem_erase_of_ne hcn).2 (hqp ▸ hc)
    · rwa [if_neg hqp]

/-- A new cell takes nothing out of the tree. -/
theorem Below.attach (hl : Linked h) {r p n : Nat} {d : α} {cs : List Nat}
    (hcs : ∀ c ∈ (h.cell p).children, c ∈ cs) (hn : Below h r n) :
    Below ((h.alloc d p).setChildren p cs) r n := by
  refine hn.mono fun q c hc => ?_
  rw [children_setChildren]
  by_cases hq : q = p
  · rw [if_pos hq]
    exact hcs c (hq ▸ hc)
  · have hlt := hl.lt_of_mem hc
    have hfresh := hl.mem_lt_fresh hc
    rw [if_neg hq, cell_alloc_of_ne _ _ _ (by omega)]
    exact hc

theorem Below.addFirst (hl : Linked h) {r n : Nat} (hn : Below h r n) (p : Nat) (d : α) :
    Below (h.addFirst p d) r n :=
  hn.attach hl fun _ hc => List.mem_cons_of_mem _ hc

theorem Below.addLast (hl : Linked h) {r n : Nat} (hn : Below h r n) (p : Nat) (d : α) :
    Below (h.addLast p d) r n :=
  hn.attach hl fun _ hc => List.mem_append_left _ hc

theorem mem_children_addFirst (h : Heap α) (p : Nat) (d : α) :
    h.fresh ∈ ((h.addFirst p d).cell p).children := by
  rw [Heap.addFirst, children_setChildren, if_pos rfl]
  exact List.mem_cons_self

theorem mem_children_addLast (h : Heap α) (p : Nat) (d : α) :
    h.fresh ∈ ((h.addLast p d).cell p).children := by
  rw [Heap.addLast, children_setChildren, if_pos rfl]
  exact List.mem_append_right _ List.mem_cons_self

/-! ## Walking the tree -/

/-- The cells below `n`, parents before children, down to `fuel` levels. -/
def preorder (h : Heap α) : Nat → Nat → List Nat
  | 0, _ => []
  | fuel + 1, n => n :: (h.cell n).children.flatMap (preorder h fuel)

theorem below_of_mem_preorder {fuel n m : Nat} (hm : m ∈ preorder h fuel n) : Below h n m := by
  induction fuel generalizing n with
  | zero => simp [preorder] at hm
  | succ fuel ih =>
    rcases List.mem_cons.1 hm with rfl | hrest
    · exact Below.refl
    · obtain ⟨c, hc, hmc⟩ := List.mem_flatMap.1 hrest
      exact Below.iff_first.2 (Or.inr ⟨c, hc, ih hmc⟩)

/-- As many levels as there are cells are enough. -/
theorem mem_preorder (hl : Linked h) {fuel n m : Nat} (hn : n < h.fresh)
    (hfuel : h.fresh ≤ n + fuel) : m ∈ preorder h fuel n ↔ Below h n m := by
  refine ⟨below_of_mem_preorder, fun hm => ?_⟩
  induction fuel generalizing n with
  | zero => omega
  | succ fuel ih =>
    rcases Below.iff_first.1 hm with rfl | ⟨c, hc, hcm⟩
    · exact List.mem_cons_self
    · have hlt := hl.lt_of_mem hc
      have hmem := ih (hl.mem_lt_fresh hc) (by omega) hcm
      exact List.mem_cons_of_mem _ (List.mem_flatMap.2 ⟨c, hc, hmem⟩)

theorem nodup_preorder (hl : Linked h) (hnodup : ∀ n, (h.cell n).children.Nodup) (fuel n : Nat) :
    (preorder h fuel n).Nodup := by
  induction fuel generalizing n with
  | zero => exact List.nodup_nil
  | succ fuel ih =>
    refine List.nodup_cons.2 ⟨fun hmem => ?_, ?_⟩
    · obtain ⟨c, hc, hnc⟩ := List.mem_flatMap.1 hmem
      have hle := (below_of_mem_preorder hnc).le hl
      have hlt := hl.lt_of_mem hc
      omega
    · refine List.nodup_flatMap.2 ⟨fun c _ => ih c, (hnodup n).imp_of_mem ?_⟩
      intro a b ha hb hne m hma hmb
      exact hne (hl.eq_of_below ha hb (below_of_mem_preorder hma) (below_of_mem_preorder hmb))

/-! ## Siblings told apart -/

/-- What a cell is told apart by. -/
def keyOf (key : α → β) (h : Heap α) (n : Nat) : Option β := (h.cell n).data.map key

/-- No two cells of one list of children have the same key. -/
def Distinct (key : α → β) (h : Heap α) : Prop :=
  ∀ p, (h.cell p).children.Pairwise fun a b => keyOf key h a ≠ keyOf key h b

namespace Distinct

variable {key : α → β}

theorem single : Distinct key (single : Heap α) := by
  intro p
  simp [Heap.single]

theorem nodup (hd : Distinct key h) (p : Nat) : (h.cell p).children.Nodup :=
  (hd p).imp fun hne heq => hne (by rw [heq])

/-- A list of children is replaced by one whose cells are told apart. -/
theorem setChildren (hd : Distinct key h) {p : Nat} {cs : List Nat}
    (hcs : cs.Pairwise fun a b => keyOf key h a ≠ keyOf key h b) :
    Distinct key (h.setChildren p cs) := by
  intro q
  rw [children_setChildren]
  by_cases hq : q = p
  · rw [if_pos hq]
    exact hcs.imp fun hne => by simpa only [keyOf, data_setChildren] using hne
  · rw [if_neg hq]
    exact (hd q).imp fun hne => by simpa only [keyOf, data_setChildren] using hne

theorem alloc (hl : Linked h) (hd : Distinct key h) (d : α) (p : Nat) :
    Distinct key (h.alloc d p) := by
  intro q
  by_cases hq : q = h.fresh
  · rw [hq, cell_alloc_fresh]
    exact List.Pairwise.nil
  · rw [cell_alloc_of_ne _ _ _ hq]
    refine (hd q).imp_of_mem fun {a b} ha hb hne => ?_
    have halt := hl.mem_lt_fresh ha
    have hblt := hl.mem_lt_fresh hb
    rwa [keyOf, keyOf, cell_alloc_of_ne _ _ _ (by omega), cell_alloc_of_ne _ _ _ (by omega)]

/-- The children of an old cell keep their keys when a cell is made, and its key is new. -/
theorem fresh_ne (hl : Linked h) {p : Nat} {d : α}
    (hnew : ∀ c ∈ (h.cell p).children, keyOf key h c ≠ some (key d)) {c : Nat}
    (hc : c ∈ (h.cell p).children) :
    keyOf key (h.alloc d p) c ≠ keyOf key (h.alloc d p) h.fresh := by
  have hlt := hl.mem_lt_fresh hc
  have hne : c ≠ h.fresh := by omega
  rw [keyOf, keyOf, cell_alloc_fresh, cell_alloc_of_ne _ _ _ hne]
  exact hnew c hc

theorem addFirst (hl : Linked h) (hd : Distinct key h) {p : Nat} (hp : p < h.fresh) {d : α}
    (hnew : ∀ c ∈ (h.cell p).children, keyOf key h c ≠ some (key d)) :
    Distinct key (h.addFirst p d) := by
  have hold := hd.alloc hl d p p
  rw [cell_alloc_of_ne _ _ _ (by omega)] at hold
  refine (hd.alloc hl d p).setChildren (List.pairwise_cons.2 ⟨fun c hc => ?_, hold⟩)
  exact (fresh_ne hl hnew hc).symm

theorem addLast (hl : Linked h) (hd : Distinct key h) {p : Nat} (hp : p < h.fresh) {d : α}
    (hnew : ∀ c ∈ (h.cell p).children, keyOf key h c ≠ some (key d)) :
    Distinct key (h.addLast p d) := by
  have hold := hd.alloc hl d p p
  rw [cell_alloc_of_ne _ _ _ (by omega)] at hold
  refine (hd.alloc hl d p).setChildren
    (List.pairwise_append.2 ⟨hold, List.pairwise_singleton _ _, fun c hc b hb => ?_⟩)
  rw [List.mem_singleton.1 hb]
  exact fresh_ne hl hnew hc

end Distinct

end Sanmill.Forest
