import Mathlib.Data.Char
import Mathlib.Data.List.Lex
import Mathlib.Tactic.Linarith
import Sanmill.Lib.Orbit
import Sanmill.Lib.Scatter
import Sanmill.Mill.HumanDb
import Sanmill.Proof.Fen

/-!
# The codec of the human database

The eight symmetries permute the points, so they act on boards, and the canonical
board is the least image in the orbit. A key depends on the position only through its
canonical board, the side, the counts and whether pieces are still being placed; a
decoded key has the same, so it encodes back to itself.
-/

namespace Sanmill.HumanDb

open Orbit

/-! ## The symmetries as permutations -/

theorem symmetries_nodup : symmetries.Nodup := by decide

/-- **The matrices are the symmetries of the square**: those with whole entries that keep
lengths and right angles. -/
theorem mem_symmetries_iff {a b c d : Int} :
    (a, b, c, d) ∈ symmetries ↔ a * a + c * c = 1 ∧ b * b + d * d = 1 ∧ a * b + c * d = 0 := by
  constructor
  · intro h
    have hall : ∀ m ∈ symmetries, m.1 * m.1 + m.2.2.1 * m.2.2.1 = 1
        ∧ m.2.1 * m.2.1 + m.2.2.2 * m.2.2.2 = 1 ∧ m.1 * m.2.1 + m.2.2.1 * m.2.2.2 = 0 := by decide
    exact hall _ h
  · intro h
    obtain ⟨hfirst, hsecond, hright⟩ := h
    -- the entries of a column of length one are 0, 1 or -1
    have hsmall : ∀ x y : Int, x * x + y * y = 1 → x = -1 ∨ x = 0 ∨ x = 1 := by
      intro x y hxy
      have hle : x * x ≤ 1 := by nlinarith [mul_self_nonneg y]
      have hlow : -1 ≤ x := by nlinarith
      have hhigh : x ≤ 1 := by nlinarith
      omega
    have hall : ∀ a ∈ [(-1 : Int), 0, 1], ∀ b ∈ [(-1 : Int), 0, 1], ∀ c ∈ [(-1 : Int), 0, 1],
        ∀ d ∈ [(-1 : Int), 0, 1], a * a + c * c = 1 → b * b + d * d = 1 → a * b + c * d = 0 →
          (a, b, c, d) ∈ symmetries := by decide
    refine hall a ?_ b ?_ c ?_ d ?_ hfirst hsecond hright
    · simpa using hsmall a c hfirst
    · simpa using hsmall b d hsecond
    · simpa using hsmall c a (by rw [add_comm]; exact hfirst)
    · simpa using hsmall d b (by rw [add_comm]; exact hsecond)

/-- An index of `symmetries`. -/
abbrev Sym : Type := Fin 8

theorem symInverse_lt (s : Sym) : symInverse.getD s.val 0 < 8 := by
  revert s
  decide

/-- `SYM_INVERSE` on indices. -/
def inverseSym (s : Sym) : Sym := ⟨symInverse.getD s.val 0, symInverse_lt s⟩

/-- No symmetry leaves the board. -/
theorem transformIndex_lt (s : Sym) (i : Node) :
    (transformIndex i.val s.val).getD 24 < 24 := by
  have hall : ((List.finRange 8).all fun s => (List.finRange 24).all fun i =>
      (transformIndex i.val s.val).getD 24 < 24) = true := by
    decide +kernel
  rw [List.all_eq_true] at hall
  have := hall s (List.mem_finRange s)
  rw [List.all_eq_true] at this
  exact of_decide_eq_true (this i (List.mem_finRange i))

/-- Where a symmetry sends an index of the board string. -/
def symIndex (s : Sym) (i : Node) : Node :=
  ⟨(transformIndex i.val s.val).getD 24, transformIndex_lt s i⟩

theorem transformIndex_eq (s : Sym) (i : Node) :
    transformIndex i.val s.val = some (symIndex s i).val := by
  have hlt := transformIndex_lt s i
  have hval : (symIndex s i).val = (transformIndex i.val s.val).getD 24 := rfl
  rw [hval]
  cases h : transformIndex i.val s.val with
  | none =>
    rw [h] at hlt
    exact absurd hlt (by decide)
  | some j => rfl

theorem symIndex_zero (i : Node) : symIndex 0 i = i := by
  revert i
  decide +kernel

theorem symIndex_inverse (s : Sym) (i : Node) : symIndex (inverseSym s) (symIndex s i) = i := by
  have hall : ((List.finRange 8).all fun s => (List.finRange 24).all fun i =>
      decide (symIndex (inverseSym s) (symIndex s i) = i)) = true := by
    decide +kernel
  rw [List.all_eq_true] at hall
  have := hall s (List.mem_finRange s)
  rw [List.all_eq_true] at this
  exact of_decide_eq_true (this i (List.mem_finRange i))

example : symIndex (inverseSym 1) (symIndex 1 0) = 0 := by decide +kernel

theorem inverseSym_inverseSym (s : Sym) : inverseSym (inverseSym s) = s := by
  revert s
  decide

theorem symIndex_comp (s t : Sym) : ∃ u, ∀ i, symIndex u i = symIndex s (symIndex t i) := by
  have hall : ((List.finRange 8).all fun s => (List.finRange 8).all fun t =>
      (List.finRange 8).any fun u => (List.finRange 24).all fun i =>
        decide (symIndex u i = symIndex s (symIndex t i))) = true := by
    decide +kernel
  rw [List.all_eq_true] at hall
  have hs := hall s (List.mem_finRange s)
  rw [List.all_eq_true] at hs
  obtain ⟨u, -, hu⟩ := List.any_eq_true.1 (hs t (List.mem_finRange t))
  rw [List.all_eq_true] at hu
  exact ⟨u, fun i => of_decide_eq_true (hu i (List.mem_finRange i))⟩

theorem symIndex_injective (s : Sym) {i j : Node} (h : symIndex s i = symIndex s j) : i = j := by
  rw [← symIndex_inverse s i, h, symIndex_inverse]

/-- Every index is an image. -/
theorem symIndex_surjective (s : Sym) (j : Node) : symIndex s (symIndex (inverseSym s) j) = j := by
  have := symIndex_inverse (inverseSym s) j
  rwa [inverseSym_inverseSym] at this

/-! ## Images of a board -/

/-- The writes of `applyBoardSym`. -/
def symWrites (s : Sym) (board24 : Text) : List (Nat × Char) :=
  board24.zipIdx.map fun p => ((transformIndex p.2 s.val).getD 24, p.1)

/-- What `applyBoardSym` computes. -/
def imageOf (s : Sym) (board24 : Text) : Text :=
  scatter (symWrites s board24) (List.replicate 24 '?')

theorem applyBoardSym_eq {b : Text} (hb : b.length = 24) (s : Sym) :
    applyBoardSym b s.val = some (imageOf s b) := by
  unfold applyBoardSym imageOf scatter symWrites
  have hs : ¬ s.val ≥ symmetries.length := by
    have := s.isLt
    change ¬ 8 ≤ s.val
    omega
  rw [if_neg (by
    rintro (h | h)
    · exact h hb
    · exact hs h), List.foldl_map]
  refine foldlM_eq_pure (fun result p hp => ?_) _
  have hlt : p.2 < 24 := by
    have := List.snd_lt_of_mem_zipIdx hp
    omega
  have := transformIndex_eq s ⟨p.2, hlt⟩
  dsimp only at this
  rw [this]
  rfl

theorem length_imageOf (s : Sym) (b : Text) : (imageOf s b).length = 24 := by
  unfold imageOf
  rw [length_scatter, List.length_replicate]

theorem symWrites_positions {b : Text} (hb : b.length = 24) (s : Sym) :
    (symWrites s b).map Prod.fst = (List.finRange 24).map fun i => (symIndex s i).val := by
  refine List.ext_getElem (by simp [symWrites, hb]) fun k h1 h2 => ?_
  have hk : k < 24 := by simpa using h2
  simp only [symWrites, List.getElem_map, List.getElem_zipIdx, List.getElem_finRange, Nat.zero_add]
  rw [transformIndex_eq s ⟨k, hk⟩]
  rfl

/-- The piece at an index goes to the image of the index. -/
theorem getElem?_imageOf {b : Text} (hb : b.length = 24) (s : Sym) (i : Node) :
    (imageOf s b)[(symIndex s i).val]? = b[i.val]? := by
  have hi : i.val < b.length := by
    rw [hb]
    exact i.isLt
  rw [List.getElem?_eq_getElem hi]
  refine getElem?_scatter ?_ ?_ (by
    rw [List.length_replicate]
    exact (symIndex s i).isLt)
  · rw [symWrites_positions hb]
    refine List.Nodup.map (fun j k hjk => symIndex_injective s (Fin.ext hjk)) ?_
    exact List.nodup_finRange 24
  · refine List.mem_map.2 ⟨(b[i.val], i.val), ?_, ?_⟩
    · exact List.mem_zipIdx_iff_getElem?.2 (List.getElem?_eq_getElem hi)
    · dsimp only
      rw [transformIndex_eq s i]
      rfl

/-- Two boards agree when they agree at every image of an index. -/
theorem board_ext {a b : Text} (ha : a.length = 24) (hb : b.length = 24) (s : Sym)
    (h : ∀ i : Node, a[(symIndex s i).val]? = b[(symIndex s i).val]?) : a = b := by
  refine List.ext_getElem? fun k => ?_
  by_cases hk : k < 24
  · have := h (symIndex (inverseSym s) ⟨k, hk⟩)
    rwa [symIndex_surjective] at this
  · rw [List.getElem?_eq_none (by omega), List.getElem?_eq_none (by omega)]

theorem imageOf_zero {b : Text} (hb : b.length = 24) : imageOf 0 b = b :=
  board_ext (length_imageOf 0 b) hb 0 fun i => by
    rw [getElem?_imageOf hb, symIndex_zero]

theorem imageOf_closed : ClosedFamily imageOf fun b : Text => b.length = 24 where
  valid_act s b _ := length_imageOf s b
  comp s t := by
    obtain ⟨u, hu⟩ := symIndex_comp s t
    refine ⟨u, fun b hb => board_ext (length_imageOf u b) (length_imageOf s _) u fun i => ?_⟩
    rw [getElem?_imageOf hb, hu, getElem?_imageOf (length_imageOf t b), getElem?_imageOf hb]
  inv s := by
    refine ⟨inverseSym s, fun b hb => board_ext (length_imageOf _ _) hb 0 fun i => ?_⟩
    rw [symIndex_zero]
    have := getElem?_imageOf (length_imageOf s b) (inverseSym s) (symIndex s i)
    rwa [symIndex_inverse, getElem?_imageOf hb] at this

/-! ## The canonical board -/

/-- The images of a board, as the search sees them. -/
abbrev images (b : Text) : Set Text := candidates imageOf (fun _ => ()) () b

theorem canonicalBoardStr_spec {b : Text} (hb : b.length = 24) :
    ∃ (c : Text) (s : Sym), canonicalBoardStr b = some (c, s.val) ∧ c = imageOf s b
      ∧ IsLeast (images b) c := by
  let f : Nat → Text := fun n => (applyBoardSym b n).getD []
  have hf : ∀ s : Sym, f s.val = imageOf s b := fun s => by
    change (applyBoardSym b s.val).getD [] = _
    rw [applyBoardSym_eq hb, Option.getD_some]
  have hmem : ∀ n ∈ [0, 1, 2, 3, 4, 5, 6, 7], n < 8 := by decide
  -- the fold of the source may fail at each step, but not on a board of 24 characters
  have hfold : canonicalBoardStr b
      = some ([1, 2, 3, 4, 5, 6, 7].foldl (leastStep f) (f 0, 0)) := by
    unfold canonicalBoardStr
    rw [if_neg (not_not_intro hb)]
    have hzero : f 0 = b := (hf 0).trans (imageOf_zero hb)
    rw [hzero]
    refine foldlM_eq_pure (fun best n hn => ?_) _
    have hn8 : n < 8 := hmem n (List.mem_cons_of_mem 0 hn)
    unfold canonicalStep leastStep
    rw [applyBoardSym_eq hb ⟨n, hn8⟩, hf ⟨n, hn8⟩, Option.map_some]
    by_cases hless : imageOf ⟨n, hn8⟩ b < best.1
    · rw [if_pos hless, if_pos hless]
      rfl
    · rw [if_neg hless, if_neg hless]
      rfl
  obtain ⟨hvalue, hseen, hle⟩ := leastStep_foldl f [1, 2, 3, 4, 5, 6, 7] 0
  have hlt := hmem _ hseen
  refine ⟨_, ⟨_, hlt⟩, hfold, ?_, ?_, ?_⟩
  · rw [← hf ⟨_, hlt⟩]
    exact hvalue
  · refine ⟨⟨⟨_, hlt⟩, ?_⟩, rfl⟩
    rw [← hf ⟨_, hlt⟩]
    exact hvalue.symm
  · rintro c ⟨⟨s, rfl⟩, -⟩
    rw [← hf s]
    refine hle s.val ?_
    have := s.isLt
    simp only [List.mem_cons, List.not_mem_nil, or_false]
    omega

/-- Boards of one orbit have one canonical board. -/
theorem canonicalBoardStr_image {b c : Text} {n : Nat} (hb : b.length = 24)
    (h : canonicalBoardStr b = some (c, n)) (s : Sym) :
    ∃ m, canonicalBoardStr (imageOf s b) = some (c, m) := by
  obtain ⟨c1, t, h1, -, hleast⟩ := canonicalBoardStr_spec hb
  obtain ⟨c2, u, h2, -, hleast'⟩ := canonicalBoardStr_spec (length_imageOf s b)
  rw [h1] at h
  have hc : c1 = c := congrArg Prod.fst (Option.some.inj h)
  have hsame : images b = images (imageOf s b) := imageOf_closed.candidates_eq hb ⟨s, rfl⟩ ()
  rw [← hsame] at hleast'
  refine ⟨u.val, ?_⟩
  rw [h2, ← hc, hleast.unique hleast']

/-- The canonical board is its own canonical board. -/
theorem canonicalBoardStr_canonical {b c : Text} {n : Nat} (hb : b.length = 24)
    (h : canonicalBoardStr b = some (c, n)) :
    c.length = 24 ∧ ∃ m, canonicalBoardStr c = some (c, m) := by
  obtain ⟨c1, t, h1, himage, -⟩ := canonicalBoardStr_spec hb
  rw [h1] at h
  have hc : c1 = c := congrArg Prod.fst (Option.some.inj h)
  have hsame := canonicalBoardStr_image hb (h1.trans (by rw [hc])) t
  rw [← himage, hc] at hsame
  refine ⟨?_, hsame⟩
  rw [← hc, himage, length_imageOf]

end Sanmill.HumanDb
