import Sanmill.Lib.Numerals
import Mathlib.Data.Set.Basic
import Mathlib.Logic.Function.Basic

/-!
# Sparse Merkle trees

A tree of fixed height over paths of which few carry a leaf. The root is defined by
recursion over the whole tree; `LevelHolds` says that a level computed from the leaves up
records the subtrees that are not empty. Two trees with one root have the same leaves, or
the hash function takes one value at two of the inputs that make up the trees.
-/

namespace Sanmill.SparseMerkle

variable {π ι δ : Type*}

/-- How leaves and nodes are hashed: the input of the empty leaf, and that of a node. -/
structure Scheme (ι δ : Type*) where
  hash : ι → δ
  emptyInput : ι
  nodeInput : δ → δ → ι

/-- The paths at which a subtree of some height may start: `right` is the start of the right
half of the subtree one level up; the left half starts where the subtree does. -/
structure Space (π : Type*) where
  right : Nat → π → π
  Aligned : Nat → π → Prop
  aligned_left : ∀ {height p}, Aligned (height + 1) p → Aligned height p
  aligned_right : ∀ {height p}, Aligned (height + 1) p → Aligned height (right height p)

namespace Scheme

variable (S : Scheme ι δ)

/-- The root of the empty subtree. -/
def emptyAt : Nat → δ
  | 0 => S.hash S.emptyInput
  | height + 1 => S.hash (S.nodeInput (emptyAt height) (emptyAt height))

variable (space : Space π)

/-- The root of the subtree of this height at `p`. -/
def root (leaf : π → Option ι) : Nat → π → δ
  | 0, p => S.hash ((leaf p).getD S.emptyInput)
  | height + 1, p =>
    S.hash (S.nodeInput (root leaf height p) (root leaf height (space.right height p)))

/-- The inputs that are hashed in the subtree of this height at `p`. -/
def inputs (leaf : π → Option ι) : Nat → π → Set ι
  | 0, p => {(leaf p).getD S.emptyInput}
  | height + 1, p =>
    {S.nodeInput (S.root space leaf height p) (S.root space leaf height (space.right height p))}
      ∪ inputs leaf height p ∪ inputs leaf height (space.right height p)

end Scheme

/-- The path lies in the subtree of this height at `p`. -/
inductive Space.Below (space : Space π) : Nat → π → π → Prop
  | here {p : π} : Below space 0 p p
  | left {height : Nat} {p q : π} : Below space height p q → Below space (height + 1) p q
  | right {height : Nat} {p q : π} :
      Below space height (space.right height p) q → Below space (height + 1) p q

/-- A leaf stands in the subtree of this height at `p`. -/
def Space.Occupied (space : Space π) (leaf : π → Option ι) (height : Nat) (p : π) : Prop :=
  ∃ q, space.Below height p q ∧ (leaf q).isSome

variable {S : Scheme ι δ} {space : Space π} {leaf leaf' : π → Option ι} {height : Nat} {p : π}

theorem occupied_zero_iff : space.Occupied leaf 0 p ↔ (leaf p).isSome := by
  constructor
  · rintro ⟨q, hq, hleaf⟩
    cases hq
    exact hleaf
  · intro hleaf
    exact ⟨p, .here, hleaf⟩

theorem occupied_succ_iff : space.Occupied leaf (height + 1) p
    ↔ space.Occupied leaf height p ∨ space.Occupied leaf height (space.right height p) := by
  constructor
  · rintro ⟨q, hq, hleaf⟩
    cases hq with
    | left hq => exact .inl ⟨q, hq, hleaf⟩
    | right hq => exact .inr ⟨q, hq, hleaf⟩
  · rintro (⟨q, hq, hleaf⟩ | ⟨q, hq, hleaf⟩)
    · exact ⟨q, .left hq, hleaf⟩
    · exact ⟨q, .right hq, hleaf⟩

/-- A subtree without leaves has the root of the empty one. -/
theorem root_of_not_occupied (h : ¬ space.Occupied leaf height p) :
    S.root space leaf height p = S.emptyAt height := by
  induction height generalizing p with
  | zero =>
    rw [occupied_zero_iff, Option.not_isSome_iff_eq_none] at h
    rw [Scheme.root, h]
    rfl
  | succ height ih =>
    rw [occupied_succ_iff, not_or] at h
    rw [Scheme.root, ih h.1, ih h.2]
    rfl

/-! ## Levels from the leaves up -/

/-- The level records, at aligned paths, the roots of the subtrees with a leaf. -/
def LevelHolds (S : Scheme ι δ) (space : Space π) (leaf : π → Option ι) (height : Nat)
    (level : π → Option δ) : Prop :=
  ∀ p d, level p = some d
    ↔ space.Aligned height p ∧ space.Occupied leaf height p
      ∧ d = S.root space leaf height p

/-- The parent of two children, of which a missing one is an empty subtree. -/
def Scheme.parent (S : Scheme ι δ) (height : Nat) (pair : Option δ × Option δ) : Option δ :=
  if pair.1.isSome ∨ pair.2.isSome then
    some (S.hash (S.nodeInput (pair.1.getD (S.emptyAt height)) (pair.2.getD (S.emptyAt height))))
  else none

namespace LevelHolds

variable {level level' : π → Option δ}

theorem eq_none (h : LevelHolds S space leaf height level) (haligned : space.Aligned height p)
    (hp : level p = none) : ¬ space.Occupied leaf height p := by
  intro hocc
  have hsome := (h p _).2 ⟨haligned, hocc, rfl⟩
  rw [hp] at hsome
  cases hsome

/-- A recorded child, or the empty subtree, is the root of that half. -/
theorem getD_eq (h : LevelHolds S space leaf height level) (haligned : space.Aligned height p) :
    (level p).getD (S.emptyAt height) = S.root space leaf height p := by
  cases hp : level p with
  | none => exact (root_of_not_occupied (h.eq_none haligned hp)).symm
  | some d => exact ((h p d).1 hp).2.2

theorem occupied_iff (h : LevelHolds S space leaf height level)
    (haligned : space.Aligned height p) :
    space.Occupied leaf height p ↔ (level p).isSome := by
  constructor
  · intro hocc
    rw [(h p _).2 ⟨haligned, hocc, rfl⟩]
    rfl
  · intro hsome
    obtain ⟨d, hd⟩ := Option.isSome_iff_exists.1 hsome
    exact ((h p d).1 hd).2.1

/-- One round pairs the children of every aligned path. -/
theorem step (h : LevelHolds S space leaf height level)
    (hstep : ∀ p d, level' p = some d ↔ space.Aligned (height + 1) p
      ∧ S.parent height (level p, level (space.right height p)) = some d) :
    LevelHolds S space leaf (height + 1) level' := by
  intro p d
  rw [hstep]
  apply and_congr_right
  intro haligned
  have hleft := space.aligned_left haligned
  have hright := space.aligned_right haligned
  have hroot : S.root space leaf (height + 1) p = S.hash (S.nodeInput
      ((level p).getD (S.emptyAt height))
      ((level (space.right height p)).getD (S.emptyAt height))) := by
    rw [h.getD_eq hleft, h.getD_eq hright]
    rfl
  rw [occupied_succ_iff, h.occupied_iff hleft, h.occupied_iff hright, hroot]
  unfold Scheme.parent
  by_cases hsome : (level p).isSome ∨ (level (space.right height p)).isSome
  · rw [if_pos hsome, Option.some.injEq, eq_comm (a := d)]
    exact ⟨fun hd => ⟨hsome, hd⟩, fun hd => hd.2⟩
  · rw [if_neg hsome]
    constructor
    · intro hd
      cases hd
    · intro hd
      exact absurd hd.1 hsome

end LevelHolds

/-! ## What a root determines -/

/-- The same leaves have the same root. -/
theorem root_congr (h : ∀ q, space.Below height p q → leaf q = leaf' q) :
    S.root space leaf height p = S.root space leaf' height p := by
  induction height generalizing p with
  | zero => rw [Scheme.root, Scheme.root, h p .here]
  | succ height ih =>
    rw [Scheme.root, Scheme.root, ih fun q hq => h q (.left hq), ih fun q hq => h q (.right hq)]

/-- Where the hash function is injective on the inputs of both trees, equal roots have
equal leaves. -/
theorem leaf_eq_of_root_eq (hnode : Function.Injective2 S.nodeInput)
    (hleaf : ∀ q, leaf q ≠ some S.emptyInput) (hleaf' : ∀ q, leaf' q ≠ some S.emptyInput)
    (hinj : ∀ x ∈ S.inputs space leaf height p, ∀ y ∈ S.inputs space leaf' height p,
      S.hash x = S.hash y → x = y)
    (h : S.root space leaf height p = S.root space leaf' height p) :
    ∀ q, space.Below height p q → leaf q = leaf' q := by
  induction height generalizing p with
  | zero =>
    intro q hq
    cases hq
    -- equal hashes of the leaves have equal inputs, and no leaf is the input of an empty one
    have hinput := hinj _ rfl _ rfl h
    cases hl : leaf p with
    | none =>
      cases hl' : leaf' p with
      | none => rfl
      | some y =>
        rw [hl, hl'] at hinput
        have hy : S.emptyInput = y := hinput
        exact absurd (hy ▸ hl') (hleaf' p)
    | some x =>
      cases hl' : leaf' p with
      | none =>
        rw [hl, hl'] at hinput
        have hx : x = S.emptyInput := hinput
        exact absurd (hx ▸ hl) (hleaf p)
      | some y =>
        rw [hl, hl'] at hinput
        exact congrArg some hinput
  | succ height ih =>
    have hinput := hinj _ (.inl (.inl rfl)) _ (.inl (.inl rfl)) h
    -- the inputs of two inner nodes agree only if both children have equal roots
    have hroots := hnode hinput
    intro q hq
    cases hq with
    | left hq =>
      exact ih (fun x hx y hy => hinj x (.inl (.inr hx)) y (.inl (.inr hy))) hroots.1 q hq
    | right hq =>
      exact ih (fun x hx y hy => hinj x (.inr hx) y (.inr hy)) hroots.2 q hq

end Sanmill.SparseMerkle
