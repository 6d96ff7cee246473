import Sanmill.Record.Transform

/-!
# Symmetries keep recorded moves apart

Every symmetry has an inverse on the points, and so on the moves that `ExtMove` takes. Its
constructor never throws on a transformed move.
-/

namespace Sanmill.Recorder

/-! ## Points -/

/-- The point in file `f` and rank `r`, on the board or not. -/
def pointText (f r : Fin 7) : Text := [Char.ofNat (97 + f.val), Char.ofNat (49 + r.val)]

theorem isPoint_pointText (f r : Fin 7) : isPoint (pointText f r) = true := by
  revert f r
  decide +kernel

example : isPoint "d5".toList = true := by decide +kernel

theorem isPoint_iff {text : Text} : isPoint text = true ↔ ∃ f r, text = pointText f r := by
  constructor
  · intro h
    match text, h with
    | [file, rank], h =>
      simp only [isPoint, Bool.and_eq_true, decide_eq_true_eq] at h
      obtain ⟨⟨hf₁, hf₂⟩, hr₁, hr₂⟩ := h
      have hf₁ : 97 ≤ file.toNat := hf₁
      have hf₂ : file.toNat ≤ 103 := hf₂
      have hr₁ : 49 ≤ rank.toNat := hr₁
      have hr₂ : rank.toNat ≤ 55 := hr₂
      refine ⟨⟨file.toNat - 97, by omega⟩, ⟨rank.toNat - 49, by omega⟩, ?_⟩
      have hfile : 97 + (file.toNat - 97) = file.toNat := by omega
      have hrank : 49 + (rank.toNat - 49) = rank.toNat := by omega
      rw [pointText, hfile, hrank, Char.ofNat_toNat, Char.ofNat_toNat]
  · rintro ⟨f, r, rfl⟩
    exact isPoint_pointText f r

/-- Neither white space nor the characters that the other moves are told by. -/
theorem char_of_isPoint {text : Text} (h : isPoint text = true) :
    ∀ c ∈ text, Text.isDartBlank c = false ∧ c ≠ '-' ∧ c ≠ 'x' := by
  have hfile : ∀ f : Fin 7, Text.isDartBlank (Char.ofNat (97 + f.val)) = false
      ∧ Char.ofNat (97 + f.val) ≠ '-' ∧ Char.ofNat (97 + f.val) ≠ 'x' := by decide
  have hrank : ∀ r : Fin 7, Text.isDartBlank (Char.ofNat (49 + r.val)) = false
      ∧ Char.ofNat (49 + r.val) ≠ '-' ∧ Char.ofNat (49 + r.val) ≠ 'x' := by decide
  obtain ⟨f, r, rfl⟩ := isPoint_iff.1 h
  intro c hc
  rcases List.mem_cons.1 hc with rfl | hc
  · exact hfile f
  · obtain rfl := List.mem_singleton.1 hc
    exact hrank r

theorem length_of_isPoint {text : Text} (h : isPoint text = true) : text.length = 2 := by
  obtain ⟨f, r, rfl⟩ := isPoint_iff.1 h
  rfl

/-- `undo` takes back on the points what `map` does to them. -/
structure Undoes (map undo : List Nat) : Prop where
  point : ∀ {p : Text}, isPoint p = true → isPoint (transformSquareNotation p map) = true
  inverse : ∀ {p : Text}, isPoint p = true →
    transformSquareNotation (transformSquareNotation p map) undo = p

theorem undoes_getTransformMap (type : TransformationType) :
    Undoes (getTransformMap type) (inverseTransformMap (getTransformMap type)) := by
  have key : ∀ f r,
      isPoint (transformSquareNotation (pointText f r) (getTransformMap type)) = true
        ∧ transformSquareNotation (transformSquareNotation (pointText f r) (getTransformMap type))
            (inverseTransformMap (getTransformMap type)) = pointText f r := by
    cases type <;> decide +kernel
  constructor
  · intro p hp
    obtain ⟨f, r, rfl⟩ := isPoint_iff.1 hp
    exact (key f r).1
  · intro p hp
    obtain ⟨f, r, rfl⟩ := isPoint_iff.1 hp
    exact (key f r).2

/-! ## Moves, by their form -/

/-- The four forms of a move that `ExtMove` takes. -/
inductive MoveForm : Text → Prop where
  | word {text : Text} : text = drawText ∨ text ∈ noneTexts → MoveForm text
  | removal {p : Text} : isPoint p = true → MoveForm ('x' :: p)
  | slide {p q : Text} : isPoint p = true → isPoint q = true → p ≠ q → MoveForm (p ++ '-' :: q)
  | place {p : Text} : isPoint p = true → MoveForm p

theorem splitOn_slide {p q : Text} (hp : isPoint p = true) (hq : isPoint q = true) :
    (p ++ '-' :: q).splitOn '-' = [p, q] := by
  have hne : ∀ {t : Text}, isPoint t = true → ∀ c ∈ t, (c == '-') = false := by
    intro t ht c hc
    exact beq_eq_false_iff_ne.2 (char_of_isPoint ht c hc).2.1
  rw [List.splitOn_eq_splitOnP,
    List.splitOnP_append_cons_of_forall_mem (hne hp) '-' (by decide) q,
    List.splitOnP_eq_singleton (hne hq)]

theorem isSlide_append {p q : Text} (hp : isPoint p = true) (hq : isPoint q = true) :
    isSlide (p ++ '-' :: q) = true := by
  obtain ⟨f, r, rfl⟩ := isPoint_iff.1 hp
  obtain ⟨f', r', rfl⟩ := isPoint_iff.1 hq
  show (isPoint (pointText f r) && isPoint (pointText f' r')) = true
  rw [hp, hq]
  rfl

theorem exists_of_isSlide {text : Text} (h : isSlide text = true) :
    ∃ p q, text = p ++ '-' :: q ∧ isPoint p = true ∧ isPoint q = true := by
  unfold isSlide at h
  split at h
  · rename_i f r f' r'
    obtain ⟨hp, hq⟩ := Bool.and_eq_true_iff.1 h
    exact ⟨[f, r], [f', r'], rfl, hp, hq⟩
  · cases h

theorem exists_of_isRemoval {text : Text} (h : isRemoval text = true) :
    ∃ p, text = 'x' :: p ∧ isPoint p = true := by
  unfold isRemoval at h
  split at h
  · exact ⟨_, rfl, h⟩
  · cases h

theorem length_of_isRemoval {text : Text} (h : isRemoval text = true) : text.length = 3 := by
  obtain ⟨p, rfl, hp⟩ := exists_of_isRemoval h
  rw [List.length_cons, length_of_isPoint hp]

/-- The three words are told by their length. -/
theorem length_of_word {text : Text} (h : text = drawText ∨ text ∈ noneTexts) :
    text.length = 4 ∨ text.length = 6 := by
  have key : ∀ t ∈ drawText :: noneTexts, t.length = 4 ∨ t.length = 6 := by decide
  exact key text (List.mem_cons.2 h)

theorem length_slide {p q : Text} (hp : isPoint p = true) (hq : isPoint q = true) :
    (p ++ '-' :: q).length = 5 := by
  rw [List.length_append, List.length_cons, length_of_isPoint hp, length_of_isPoint hq]

theorem not_word_of_length {text : Text} (h4 : text.length ≠ 4) (h6 : text.length ≠ 6) :
    ¬ (text = drawText ∨ text ∈ noneTexts) := by
  intro hword
  rcases length_of_word hword with h | h
  · exact h4 h
  · exact h6 h

theorem not_isPoint_of_length {text : Text} (h : text.length ≠ 2) : ¬ isPoint text = true :=
  fun hpoint => h (length_of_isPoint hpoint)

theorem not_isRemoval_of_length {text : Text} (h : text.length ≠ 3) : ¬ isRemoval text = true :=
  fun hremoval => h (length_of_isRemoval hremoval)

theorem not_isSlide_of_length {text : Text} (h : text.length ≠ 5) : ¬ isSlide text = true := by
  intro hslide
  obtain ⟨p, q, rfl, hp, hq⟩ := exists_of_isSlide hslide
  exact h (length_slide hp hq)

theorem form_of_acceptsMove {text : Text} (h : acceptsMove text = true) : MoveForm text := by
  obtain ⟨-, hlegal⟩ := Bool.and_eq_true_iff.1 h
  by_cases hword : text = drawText ∨ text ∈ noneTexts
  · exact .word hword
  by_cases hplace : isPoint text = true
  · exact .place hplace
  by_cases hremoval : isRemoval text = true
  · obtain ⟨p, rfl, hp⟩ := exists_of_isRemoval hremoval
    exact .removal hp
  by_cases hslide : isSlide text = true
  · obtain ⟨p, q, rfl, hp, hq⟩ := exists_of_isSlide hslide
    rw [checkLegal, if_neg hword, if_neg hplace, if_neg hremoval, if_pos hslide,
      splitOn_slide hp hq] at hlegal
    exact .slide hp hq (of_decide_eq_true hlegal)
  · rw [checkLegal, if_neg hword, if_neg hplace, if_neg hremoval, if_neg hslide] at hlegal
    cases hlegal

theorem acceptsMove_of_form {text : Text} (h : MoveForm text) : acceptsMove text = true := by
  -- the forms are told apart by their lengths
  cases h with
  | word hword =>
    have key : ∀ t ∈ drawText :: noneTexts, acceptsMove t = true := by decide
    exact key text (List.mem_cons.2 hword)
  | @removal p hp =>
    have hremoval : isRemoval ('x' :: p) = true := hp
    have hlen := length_of_isRemoval hremoval
    have hparse : parseMoveType ('x' :: p) = some .remove := if_pos hremoval
    have hcheck : checkLegal ('x' :: p) = true := by
      rw [checkLegal, if_neg (not_word_of_length (by omega) (by omega)),
        if_neg (not_isPoint_of_length (by omega)), if_pos hremoval]
    rw [acceptsMove, hparse, hcheck]
    rfl
  | @slide p q hp hq hne =>
    have hslide := isSlide_append hp hq
    have hlen := length_slide hp hq
    have hremoval : ¬ isRemoval (p ++ '-' :: q) = true := not_isRemoval_of_length (by omega)
    have hparse : parseMoveType (p ++ '-' :: q) = some .move := by
      rw [parseMoveType, if_neg hremoval, if_pos hslide]
    have hcheck : checkLegal (p ++ '-' :: q) = true := by
      rw [checkLegal, if_neg (not_word_of_length (by omega) (by omega)),
        if_neg (not_isPoint_of_length (by omega)), if_neg hremoval, if_pos hslide,
        splitOn_slide hp hq]
      exact decide_eq_true hne
    rw [acceptsMove, hparse, hcheck]
    rfl
  | place hp =>
    have hlen := length_of_isPoint hp
    have hremoval : ¬ isRemoval text = true := not_isRemoval_of_length (by omega)
    have hslide : ¬ isSlide text = true := not_isSlide_of_length (by omega)
    have hparse : parseMoveType text = some .place := by
      rw [parseMoveType, if_neg hremoval, if_neg hslide, if_pos hp]
    have hcheck : checkLegal text = true := by
      rw [checkLegal, if_neg (not_word_of_length (by omega) (by omega)), if_pos hp]
    rw [acceptsMove, hparse, hcheck]
    rfl

/-! ## Moves under a symmetry -/

theorem trim_form {text : Text} (h : MoveForm text) : Text.dartTrim text = text := by
  refine Text.trimWhere_of_solid ?_
  cases h with
  | word hword =>
    have key : ∀ t ∈ drawText :: noneTexts, t.all (fun c => !Text.isDartBlank c) = true := by
      decide +kernel
    intro c hc
    have hsolid := List.all_eq_true.1 (key text (List.mem_cons.2 hword)) c hc
    rwa [Bool.not_eq_true'] at hsolid
  | removal hp =>
    intro c hc
    rcases List.mem_cons.1 hc with rfl | hc
    · decide
    · exact (char_of_isPoint hp c hc).1
  | slide hp hq =>
    intro c hc
    rcases List.mem_append.1 hc with hc | hc
    · exact (char_of_isPoint hp c hc).1
    rcases List.mem_cons.1 hc with rfl | hc
    · decide
    · exact (char_of_isPoint hq c hc).1
  | place hp => exact fun c hc => (char_of_isPoint hp c hc).1

theorem transform_word {text : Text} (h : text = drawText ∨ text ∈ noneTexts) (map : List Nat) :
    transformMoveNotationWithMap text map = text := by
  rw [transformMoveNotationWithMap, trim_form (.word h)]
  exact if_pos h

theorem transform_removal {p : Text} (hp : isPoint p = true) (map : List Nat) :
    transformMoveNotationWithMap ('x' :: p) map = 'x' :: transformSquareNotation p map := by
  have hlen : ('x' :: p).length = 3 := by rw [List.length_cons, length_of_isPoint hp]
  simp only [transformMoveNotationWithMap, trim_form (.removal hp)]
  rw [if_neg (not_word_of_length (by omega) (by omega)), if_pos ⟨rfl, hlen⟩]
  rfl

theorem transform_slide {p q : Text} (hp : isPoint p = true) (hq : isPoint q = true)
    (hne : p ≠ q) (map : List Nat) :
    transformMoveNotationWithMap (p ++ '-' :: q) map
      = transformSquareNotation p map ++ '-' :: transformSquareNotation q map := by
  have hlen := length_slide hp hq
  have hdash : '-' ∈ p ++ '-' :: q := List.mem_append_right _ List.mem_cons_self
  simp only [transformMoveNotationWithMap, trim_form (.slide hp hq hne)]
  rw [if_neg (not_word_of_length (by omega) (by omega)),
    if_neg fun h => absurd h.2 (by omega), splitOn_slide hp hq, decide_eq_true ⟨hdash, hlen⟩]

theorem transform_place {p : Text} (hp : isPoint p = true) (map : List Nat) :
    transformMoveNotationWithMap p map = transformSquareNotation p map := by
  have hlen := length_of_isPoint hp
  simp only [transformMoveNotationWithMap, trim_form (.place hp)]
  rw [if_neg (not_word_of_length (by omega) (by omega)), if_neg fun h => absurd h.2 (by omega),
    decide_eq_false fun h => absurd h.2 (by omega), if_pos hp]

variable {map undo : List Nat} {text : Text}

theorem Undoes.point_ne (hu : Undoes map undo) {p q : Text} (hp : isPoint p = true)
    (hq : isPoint q = true) (hne : p ≠ q) :
    transformSquareNotation p map ≠ transformSquareNotation q map := by
  intro heq
  apply hne
  rw [← hu.inverse hp, heq, hu.inverse hq]

theorem Undoes.form (hu : Undoes map undo) (h : MoveForm text) :
    MoveForm (transformMoveNotationWithMap text map) := by
  cases h with
  | word hword =>
    rw [transform_word hword]
    exact .word hword
  | removal hp =>
    rw [transform_removal hp]
    exact .removal (hu.point hp)
  | slide hp hq hne =>
    rw [transform_slide hp hq hne]
    exact .slide (hu.point hp) (hu.point hq) (hu.point_ne hp hq hne)
  | place hp =>
    rw [transform_place hp]
    exact .place (hu.point hp)

theorem Undoes.move (hu : Undoes map undo) (h : MoveForm text) :
    transformMoveNotationWithMap (transformMoveNotationWithMap text map) undo = text := by
  cases h with
  | word hword => rw [transform_word hword, transform_word hword]
  | removal hp => rw [transform_removal hp, transform_removal (hu.point hp), hu.inverse hp]
  | slide hp hq hne =>
    rw [transform_slide hp hq hne,
      transform_slide (hu.point hp) (hu.point hq) (hu.point_ne hp hq hne), hu.inverse hp,
      hu.inverse hq]
  | place hp => rw [transform_place hp, transform_place (hu.point hp), hu.inverse hp]

/-- Different moves stay different. -/
theorem transformMoveNotation_inj {a b : Text} {type : TransformationType}
    (ha : acceptsMove a = true) (hb : acceptsMove b = true)
    (heq : transformMoveNotation a type = transformMoveNotation b type) : a = b := by
  have hu := undoes_getTransformMap type
  unfold transformMoveNotation at heq
  rw [← hu.move (form_of_acceptsMove ha), heq, hu.move (form_of_acceptsMove hb)]

/-- The constructor takes what a symmetry makes of a move. -/
theorem acceptsMove_transform {text : Text} (h : acceptsMove text = true)
    (type : TransformationType) : acceptsMove (transformMoveNotation text type) = true :=
  acceptsMove_of_form ((undoes_getTransformMap type).form (form_of_acceptsMove h))

/-- Only the board layout of a move can stop its transformation. -/
theorem transformMove_isSome_iff {move : ExtMove} {type : TransformationType} :
    (transformMove move type).isSome ↔ (transformFenOrNull move.boardLayout type).isSome := by
  have haccepted := acceptsMove_transform move.accepted type
  cases hlayout : transformFenOrNull move.boardLayout type with
  | none => simp [transformMove, hlayout]
  | some layout => simp [transformMove, hlayout, ExtMove.new?, haccepted]

theorem move_of_transformMove {move transformed : ExtMove} {type : TransformationType}
    (h : transformMove move type = some transformed) :
    transformed.move = transformMoveNotation move.move type := by
  have haccepted := acceptsMove_transform move.accepted type
  cases hlayout : transformFenOrNull move.boardLayout type with
  | none => simp [transformMove, hlayout] at h
  | some layout =>
    simp only [transformMove, hlayout, Option.bind_eq_bind, Option.bind_some, ExtMove.new?,
      dif_pos haccepted, Option.some.injEq] at h
    rw [← h]

example : transformMoveNotation "d5-e4".toList .rotate90 = "e4-d3".toList := by decide +kernel

end Sanmill.Recorder
