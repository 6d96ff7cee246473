import Mathlib.Data.List.GetD
import Sanmill.Lib.Orbit
import Sanmill.Mif.Transform

/-!
# The symmetries of the board

The eight maps, computed through coordinate texts, are permutations of the points that may be
composed and undone. On a board text of 24 ASCII characters `transformBoard` permutes the
characters and cuts nothing.
-/

namespace Sanmill.Mif

open Orbit

theorem Checked.ofResult_ok_iff {α : Type} {result : Result α} {a : α} :
    Checked.ofResult result = .ok a ↔ result = .ok a := by
  cases result with
  | ok b => exact ⟨fun h => congrArg Except.ok (Except.ok.inj h),
    fun h => congrArg Except.ok (Except.ok.inj h)⟩
  | error diagnostic =>
    constructor
    · intro h
      cases h
    · intro h
      cases h

/-! ## Points -/

namespace D4

/-- Where a symmetry sends a point. -/
def point (transform : D4) (index : Point) : Point :=
  match transformIndex index transform with
  | .ok target => target
  | .error _ => index

def inverse : D4 → D4
  | .i => .i
  | .r90ccw => .r90cw
  | .r180 => .r180
  | .r90cw => .r90ccw
  | .mirrorV => .mirrorV
  | .mirrorH => .mirrorH
  | .mirrorMain => .mirrorMain
  | .mirrorAnti => .mirrorAnti

theorem mem_all (transform : D4) : transform ∈ all := by
  cases transform <;> decide

/-- A fact about all symmetries and points, evaluated. -/
theorem forall_of_all {check : D4 → Point → Bool}
    (h : (all.all fun transform => (List.finRange 24).all (check transform)) = true)
    (transform : D4) (index : Point) : check transform index = true :=
  List.all_eq_true.1 (List.all_eq_true.1 h transform (mem_all transform)) index
    (List.mem_finRange index)

/-- The images, ring by ring. -/
def images : D4 → List Nat
  | .i =>
    [0, 1, 2, 3, 4, 5, 6, 7, 8, 9, 10, 11, 12, 13, 14, 15, 16, 17, 18, 19, 20, 21, 22, 23]
  | .r90ccw =>
    [6, 7, 0, 1, 2, 3, 4, 5, 14, 15, 8, 9, 10, 11, 12, 13, 22, 23, 16, 17, 18, 19, 20, 21]
  | .r180 =>
    [4, 5, 6, 7, 0, 1, 2, 3, 12, 13, 14, 15, 8, 9, 10, 11, 20, 21, 22, 23, 16, 17, 18, 19]
  | .r90cw =>
    [2, 3, 4, 5, 6, 7, 0, 1, 10, 11, 12, 13, 14, 15, 8, 9, 18, 19, 20, 21, 22, 23, 16, 17]
  | .mirrorV =>
    [2, 1, 0, 7, 6, 5, 4, 3, 10, 9, 8, 15, 14, 13, 12, 11, 18, 17, 16, 23, 22, 21, 20, 19]
  | .mirrorH =>
    [6, 5, 4, 3, 2, 1, 0, 7, 14, 13, 12, 11, 10, 9, 8, 15, 22, 21, 20, 19, 18, 17, 16, 23]
  | .mirrorMain =>
    [4, 3, 2, 1, 0, 7, 6, 5, 12, 11, 10, 9, 8, 15, 14, 13, 20, 19, 18, 17, 16, 23, 22, 21]
  | .mirrorAnti =>
    [0, 7, 6, 5, 4, 3, 2, 1, 8, 15, 14, 13, 12, 11, 10, 9, 16, 23, 22, 21, 20, 19, 18, 17]

/-- No symmetry leaves the board. -/
theorem transformIndex_images (transform : D4) (index : Point) :
    (transformIndex index transform).map Fin.val = .ok (transform.images.getD index.val 0) := by
  have hall : (all.all fun transform => (List.finRange 24).all fun index =>
      decide ((transformIndex index transform).map Fin.val
        = .ok (transform.images.getD index.val 0)))
      = true := by decide +kernel
  exact of_decide_eq_true (forall_of_all hall transform index)

theorem transformIndex_eq (transform : D4) (index : Point) :
    transformIndex index transform = .ok (transform.point index) := by
  have himage := transformIndex_images transform index
  unfold point
  cases h : transformIndex index transform with
  | ok target => rfl
  | error diagnostic =>
    rw [h] at himage
    cases himage

theorem point_val (transform : D4) (index : Point) :
    (transform.point index).val = transform.images.getD index.val 0 := by
  have himage := transformIndex_images transform index
  rw [transformIndex_eq] at himage
  exact Except.ok.inj himage

theorem point_inverse (transform : D4) (index : Point) :
    transform.inverse.point (transform.point index) = index := by
  have hall : (all.all fun transform => (List.finRange 24).all fun index =>
      decide (transform.inverse.images.getD (transform.images.getD index.val 0) 0 = index.val))
      = true := by decide +kernel
  apply Fin.ext
  rw [point_val, point_val]
  exact of_decide_eq_true (forall_of_all hall transform index)

theorem inverse_inverse (transform : D4) : transform.inverse.inverse = transform := by
  cases transform <;> rfl

theorem inverse_point (transform : D4) (index : Point) :
    transform.point (transform.inverse.point index) = index := by
  have hundo := point_inverse transform.inverse index
  rwa [inverse_inverse] at hundo

/-- The symmetries are closed under composition. -/
theorem point_comp (transform other : D4) :
    ∃ both : D4, ∀ index, both.point index = transform.point (other.point index) := by
  have hall : (all.all fun transform => all.all fun other => all.any fun both =>
      (List.finRange 24).all fun index =>
        decide (both.images.getD index.val 0
          = transform.images.getD (other.images.getD index.val 0) 0))
      = true := by decide +kernel
  have hother := List.all_eq_true.1 (List.all_eq_true.1 hall transform (mem_all transform)) other
    (mem_all other)
  obtain ⟨both, -, hboth⟩ := List.any_eq_true.1 hother
  refine ⟨both, fun index => Fin.ext ?_⟩
  rw [point_val, point_val, point_val]
  exact of_decide_eq_true (List.all_eq_true.1 hboth index (List.mem_finRange index))

end D4

/-! ## Board texts -/

/-- The text with each character moved along the symmetry. -/
def imageText (transform : D4) (text : Text) : Text :=
  (List.finRange 24).map fun index => text.getD (transform.inverse.point index).val '.'

theorem length_imageText (transform : D4) (text : Text) :
    (imageText transform text).length = 24 := by
  unfold imageText
  rw [List.length_map, List.length_finRange]

theorem getD_imageText (transform : D4) (text : Text) (index : Point) :
    (imageText transform text).getD index.val '.'
      = text.getD (transform.inverse.point index).val '.' := by
  have hlt : index.val < (List.finRange 24).length := by
    rw [List.length_finRange]
    exact index.isLt
  unfold imageText
  rw [List.getD_eq_getElem?_getD, List.getElem?_map, List.getElem?_eq_getElem hlt,
    List.getElem_finRange]
  rfl

theorem ext_getD {text other : Text} (htext : text.length = 24) (hother : other.length = 24)
    (h : ∀ index : Point, text.getD index.val '.' = other.getD index.val '.') : text = other := by
  refine List.ext_getElem (by omega) fun k hk hk' => ?_
  have hindex := h ⟨k, by omega⟩
  rwa [List.getD_eq_getElem _ _ hk, List.getD_eq_getElem _ _ hk'] at hindex

/-- The images of the board texts form orbits. -/
theorem closedFamily_imageText : ClosedFamily imageText fun text : Text => text.length = 24 where
  valid_act transform text _ := length_imageText transform text
  comp transform other := by
    obtain ⟨both, hboth⟩ := D4.point_comp other.inverse transform.inverse
    refine ⟨both.inverse, fun text _ => ?_⟩
    refine ext_getD (length_imageText _ _) (length_imageText _ _) fun index => ?_
    rw [getD_imageText, getD_imageText, getD_imageText, D4.inverse_inverse, hboth]
  inv transform := by
    refine ⟨transform.inverse, fun text htext => ?_⟩
    refine ext_getD (length_imageText _ _) htext fun index => ?_
    rw [getD_imageText, getD_imageText, D4.inverse_inverse, D4.point_inverse]

theorem mem_imageText {transform : D4} {text : Text} (htext : text.length = 24) {c : Char} :
    c ∈ imageText transform text ↔ c ∈ text := by
  unfold imageText
  rw [List.mem_map]
  constructor
  · rintro ⟨index, -, rfl⟩
    have hlt : (transform.inverse.point index).val < text.length := by
      rw [htext]
      exact (transform.inverse.point index).isLt
    rw [List.getD_eq_getElem _ _ hlt]
    exact List.getElem_mem hlt
  · intro hc
    obtain ⟨k, hk, rfl⟩ := List.mem_iff_getElem.1 hc
    refine ⟨transform.point ⟨k, by omega⟩, List.mem_finRange _, ?_⟩
    rw [D4.point_inverse, List.getD_eq_getElem _ _ hk]

/-! ## What `transformBoard` computes -/

/-- The writes go to distinct points. -/
theorem foldlM_placePiece (compact : Text) (transform : D4) {indices : List Point}
    (hnodup : indices.Nodup) (output : Board) :
    indices.foldlM (placePiece compact transform) output
      = .ok fun target => if transform.inverse.point target ∈ indices then
          (compact[(transform.inverse.point target).val]?).getD (output target)
        else output target := by
  induction indices generalizing output with
  | nil =>
    rw [List.foldlM_nil]
    simp only [List.not_mem_nil, if_false]
    rfl
  | cons index indices ih =>
    obtain ⟨hindex, hnodup⟩ := List.nodup_cons.1 hnodup
    -- one round writes one point, the image of the index
    have hround : placePiece compact transform output index
        = .ok fun target => if transform.inverse.point target = index then
            (compact[index.val]?).getD (output target) else output target := by
      unfold placePiece
      cases hget : compact[index.val]? with
      | none =>
        simp only [Option.getD_none, ite_self]
      | some piece =>
        rw [D4.transformIndex_eq]
        refine congrArg Except.ok (funext fun target => ?_)
        rw [Function.update_apply, Option.getD_some]
        refine if_congr ?_ rfl rfl
        constructor
        · rintro rfl
          exact D4.point_inverse transform index
        · rintro rfl
          exact (D4.inverse_point transform target).symm
    rw [List.foldlM_cons, hround]
    -- the indices are distinct, so no later round writes the point again
    refine (ih hnodup _).trans (congrArg Except.ok (funext fun target => ?_))
    by_cases hhere : transform.inverse.point target = index
    · rw [hhere, if_neg hindex, if_pos rfl, if_pos List.mem_cons_self]
    · have hmem : transform.inverse.point target ∈ index :: indices
          ↔ transform.inverse.point target ∈ indices := by
        rw [List.mem_cons]
        exact or_iff_right hhere
      simp only [if_neg hhere, hmem]

theorem boardText_placed (compact : Text) (transform : D4) :
    ((List.finRange 24).foldlM (placePiece compact transform) fun _ => '.').map boardText
      = .ok (imageText transform compact) := by
  rw [foldlM_placePiece compact transform (List.nodup_finRange 24)]
  refine congrArg Except.ok (List.map_congr_left fun target _ => ?_)
  rw [if_pos (List.mem_finRange _), List.getD_eq_getElem?_getD]

theorem splitAtByte_ascii {text : Text} (h : ∀ c ∈ text, c.utf8Size = 1) {n : Nat}
    (hn : n ≤ text.length) : splitAtByte text n = some (text.take n, text.drop n) := by
  induction text generalizing n with
  | nil =>
    obtain rfl : n = 0 := Nat.le_zero.1 hn
    rfl
  | cons c rest ih =>
    obtain ⟨hc, hrest⟩ := List.forall_mem_cons.1 h
    cases n with
    | zero => rfl
    | succ n =>
      rw [List.length_cons] at hn
      unfold splitAtByte
      rw [if_neg (Nat.succ_ne_zero n), hc, if_pos (Nat.le_add_left 1 n), Nat.add_sub_cancel,
        ih hrest (Nat.le_of_succ_le_succ hn)]
      rfl

theorem sliceRings_ascii {text : Text} (h : ∀ c ∈ text, c.utf8Size = 1)
    (hlength : text.length = 24) :
    sliceRings text = .ok (joinRings text) := by
  have hdrop : ∀ n, ∀ c ∈ text.drop n, c.utf8Size = 1 := fun n c hc => h c (List.mem_of_mem_drop hc)
  have hthird : ∀ c ∈ (text.drop 8).drop 8, c.utf8Size = 1 :=
    fun c hc => hdrop 8 c (List.mem_of_mem_drop hc)
  unfold sliceRings joinRings
  rw [splitAtByte_ascii h (by omega)]
  simp only
  rw [splitAtByte_ascii (hdrop 8) (by rw [List.length_drop]; omega)]
  simp only
  rw [splitAtByte_ascii hthird (by rw [List.length_drop, List.length_drop]; omega)]
  simp only [List.drop_drop]

theorem utf8Len_ascii {text : Text} (h : ∀ c ∈ text, c.utf8Size = 1) :
    Text.utf8Len text = text.length := by
  unfold Text.utf8Len
  induction text with
  | nil => rfl
  | cons c rest ih =>
    obtain ⟨hc, hrest⟩ := List.forall_mem_cons.1 h
    rw [List.map_cons, List.sum_cons, List.length_cons, ih hrest, hc, Nat.add_comm]

/-- A compact board of ASCII characters is permuted. -/
theorem transformMpkBoard_eq {board : Text} (hascii : ∀ c ∈ board, c.utf8Size = 1 ∧ c ≠ '/')
    (hlength : board.length = 24) (transform : D4) :
    transformMpkBoard board transform = .ok (imageText transform board) := by
  have hkeep : board.filter (fun c => c ≠ '/') = board :=
    List.filter_eq_self.2 fun c hc => decide_eq_true (hascii c hc).2
  have himage : ∀ c ∈ imageText transform board, c.utf8Size = 1 ∧ c ≠ '/' :=
    fun c hc => hascii c ((mem_imageText hlength).1 hc)
  have hplaced := boardText_placed board transform
  unfold transformMpkBoard transformBoard
  simp only [hkeep]
  rw [if_neg (not_not.2 ((utf8Len_ascii fun c hc => (hascii c hc).1).trans hlength))]
  cases hfold : (List.finRange 24).foldlM (placePiece board transform) fun _ => '.' with
  | error diagnostic =>
    rw [hfold] at hplaced
    cases hplaced
  | ok output =>
    rw [hfold] at hplaced
    have htext : boardText output = imageText transform board := Except.ok.inj hplaced
    have hrings := sliceRings_ascii (fun c hc => (himage c hc).1) (length_imageText transform board)
    show (sliceRings (boardText output) >>= fun transformed =>
      Except.ok (transformed.filter fun c => c ≠ '/')) = _
    rw [htext, hrings]
    refine congrArg Except.ok ?_
    -- the slashes were put between the rings and are all that is taken out again
    have hclean : ∀ part : Text, (∀ c ∈ part, c ∈ imageText transform board) →
        part.filter (fun c => c ≠ '/') = part := fun part hsub =>
      List.filter_eq_self.2 fun c hc => decide_eq_true (himage c (hsub c hc)).2
    unfold joinRings
    rw [List.filter_append, List.filter_cons_of_neg (by decide), List.filter_append,
      List.filter_cons_of_neg (by decide), hclean _ fun c hc => List.mem_of_mem_take hc,
      hclean _ fun c hc => List.mem_of_mem_drop (List.mem_of_mem_take hc),
      hclean _ fun c hc => List.mem_of_mem_drop (List.mem_of_mem_take hc)]
    have hlast : (imageText transform board).drop 16
        = ((imageText transform board).drop 8).drop 8 := by
      rw [List.drop_drop]
    have hwhole : ((imageText transform board).drop 16).take 8
        = (imageText transform board).drop 16 :=
      List.take_of_length_le (by rw [List.length_drop, length_imageText])
    rw [List.append_assoc, hwhole, hlast, List.take_append_drop, List.take_append_drop]

end Sanmill.Mif
