import Mathlib.Data.List.GetD
import Sanmill.Mill.OpeningRecognizer
import Sanmill.Proof.Record.Transform

/-!
# The sixteen symmetries compose

One symmetry after another is a third one, on every text that a move may be, and each can be
taken back.
-/

namespace Sanmill

namespace Recorder

/-! ## Squares -/

/-- `c` is `a` and then `b` on the points of the board. -/
structure Composes (a b c : List Nat) : Prop where
  lt : ∀ i < 24, a.getD i 0 < 24
  comp : ∀ i < 24, c.getD i 0 = b.getD (a.getD i 0) 0

theorem notationToTransformIndex_table : ∀ i < 24,
    notationToTransformIndex ((transformIndexToNotation.getD i []).map Char.toLower) = some i := by
  decide +kernel

theorem isPoint_table : ∀ i < 24, isPoint (transformIndexToNotation.getD i []) = true := by
  decide

theorem lt_of_notationToTransformIndex {p : Text} {i : Nat}
    (h : notationToTransformIndex p = some i) : i < 24 := by
  obtain ⟨hi, -⟩ := List.idxOf?_eq_some_iff.1 h
  exact hi

/-- Any text with an index is as long as a point. -/
theorem length_of_notationToTransformIndex {p : Text} {i : Nat}
    (h : notationToTransformIndex (p.map Char.toLower) = some i) : p.length = 2 := by
  have hlen : ∀ q ∈ transformIndexToNotation, q.length = 2 := by decide
  obtain ⟨hi, heq, -⟩ := List.idxOf?_eq_some_iff.1 h
  rw [← List.length_map Char.toLower, ← heq]
  exact hlen _ (List.getElem_mem hi)

theorem transformSquareNotation_of_some {p : Text} {i : Nat} (map : List Nat)
    (h : notationToTransformIndex (p.map Char.toLower) = some i) :
    transformSquareNotation p map = transformIndexToNotation.getD (map.getD i 0) [] := by
  rw [transformSquareNotation, h]

theorem transformSquareNotation_of_none {p : Text} (map : List Nat)
    (h : notationToTransformIndex (p.map Char.toLower) = none) :
    transformSquareNotation p map = p := by
  rw [transformSquareNotation, h]

variable {a b c : List Nat}

theorem Composes.square (h : Composes a b c) (p : Text) :
    transformSquareNotation (transformSquareNotation p a) b = transformSquareNotation p c := by
  cases hindex : notationToTransformIndex (p.map Char.toLower) with
  | none =>
    rw [transformSquareNotation_of_none a hindex, transformSquareNotation_of_none b hindex,
      transformSquareNotation_of_none c hindex]
  | some i =>
    have hi := lt_of_notationToTransformIndex hindex
    rw [transformSquareNotation_of_some a hindex, transformSquareNotation_of_some c hindex,
      transformSquareNotation_of_some b (notationToTransformIndex_table _ (h.lt i hi)),
      h.comp i hi]

/-- A text is left alone, or a text of two characters becomes a point. -/
theorem Composes.square_cases (h : Composes a b c) (p : Text) :
    transformSquareNotation p a = p
      ∨ p.length = 2 ∧ isPoint (transformSquareNotation p a) = true := by
  cases hindex : notationToTransformIndex (p.map Char.toLower) with
  | none => exact .inl (transformSquareNotation_of_none a hindex)
  | some i =>
    refine .inr ⟨length_of_notationToTransformIndex hindex, ?_⟩
    rw [transformSquareNotation_of_some a hindex]
    exact isPoint_table _ (h.lt i (lt_of_notationToTransformIndex hindex))

theorem Composes.length_square (h : Composes a b c) (p : Text) :
    (transformSquareNotation p a).length = p.length := by
  rcases h.square_cases p with heq | ⟨hp, hpoint⟩
  · rw [heq]
  · rw [length_of_isPoint hpoint, hp]

/-- No dash comes in. -/
theorem Composes.dash_square (h : Composes a b c) {p : Text} (hp : '-' ∉ p) :
    '-' ∉ transformSquareNotation p a := by
  rcases h.square_cases p with heq | ⟨-, hpoint⟩
  · rwa [heq]
  · exact fun hmem => (char_of_isPoint hpoint _ hmem).2.1 rfl

/-- No white space comes to the front. -/
theorem Composes.head_square (h : Composes a b c) {p : Text}
    (hp : ∀ x ∈ p.head?, Text.isDartBlank x = false) :
    ∀ x ∈ (transformSquareNotation p a).head?, Text.isDartBlank x = false := by
  rcases h.square_cases p with heq | ⟨-, hpoint⟩
  · rwa [heq]
  · exact fun x hx => (char_of_isPoint hpoint x (List.mem_of_mem_head? hx)).1

/-- No white space comes to the end. -/
theorem Composes.last_square (h : Composes a b c) {p : Text}
    (hp : ∀ x ∈ p.getLast?, Text.isDartBlank x = false) :
    ∀ x ∈ (transformSquareNotation p a).getLast?, Text.isDartBlank x = false := by
  rcases h.square_cases p with heq | ⟨-, hpoint⟩
  · rwa [heq]
  · exact fun x hx => (char_of_isPoint hpoint x (List.mem_of_mem_getLast? hx)).1

/-! ## Moves -/

/-- What a move is rewritten as, by the form of its trimmed text; any text has one. -/
inductive MoveText : Text → Prop where
  | word {text : Text} : text = drawText ∨ text ∈ noneTexts → MoveText text
  | removal {p : Text} : p.length = 2 → MoveText ('x' :: p)
  | slide {p q : Text} : '-' ∉ p → '-' ∉ q → p.length + q.length = 4 → MoveText (p ++ '-' :: q)
  | place {p : Text} : isPoint p = true → MoveText p
  | other {text : Text} : (∀ map, transformMoveNotationWithMap text map = text) → MoveText text

theorem moveText (text : Text) (htrim : Text.dartTrim text = text) : MoveText text := by
  by_cases hword : text = drawText ∨ text ∈ noneTexts
  · exact .word hword
  by_cases hremoval : text.head? = some 'x' ∧ text.length = 3
  · obtain ⟨p, rfl⟩ := List.head?_eq_some_iff.1 hremoval.1
    exact .removal (Nat.succ.inj hremoval.2)
  by_cases hslide : ∃ p q, text.splitOn '-' = [p, q] ∧ text.length = 5
  · obtain ⟨p, q, hsplit, hlen⟩ := hslide
    have hp : '-' ∉ p := Text.not_mem_of_mem_splitOn (by rw [hsplit]; exact List.mem_cons_self)
    have hq : '-' ∉ q :=
      Text.not_mem_of_mem_splitOn
        (by rw [hsplit]; exact List.mem_cons_of_mem p List.mem_cons_self)
    have htext : text = p ++ '-' :: q := by
      have hjoin : ['-'].intercalate (text.splitOn '-') = text := List.intercalate_splitOn '-'
      rw [hsplit] at hjoin
      simpa [List.intercalate] using hjoin.symm
    rw [htext, List.length_append, List.length_cons] at hlen
    rw [htext]
    exact .slide hp hq (by omega)
  by_cases hplace : isPoint text = true
  · exact .place hplace
  refine .other fun map => ?_
  simp only [transformMoveNotationWithMap, htrim]
  rw [if_neg hword, if_neg hremoval]
  split
  · rename_i source target hdash hsplit
    exact absurd ⟨source, target, hsplit, (of_decide_eq_true hdash).2⟩ hslide
  · rw [if_neg hplace]

theorem transform_trim (text : Text) (map : List Nat) :
    transformMoveNotationWithMap (Text.dartTrim text) map
      = transformMoveNotationWithMap text map := by
  simp only [transformMoveNotationWithMap, Text.dartTrim_dartTrim]

theorem transform_removalText {p : Text} (hp : p.length = 2)
    (htrim : Text.dartTrim ('x' :: p) = 'x' :: p) (map : List Nat) :
    transformMoveNotationWithMap ('x' :: p) map = 'x' :: transformSquareNotation p map := by
  have hlen : ('x' :: p).length = 3 := by rw [List.length_cons, hp]
  simp only [transformMoveNotationWithMap, htrim]
  rw [if_neg (not_word_of_length (by omega) (by omega)), if_pos ⟨rfl, hlen⟩]
  rfl

theorem transform_slideText {p q : Text} (hp : '-' ∉ p) (hq : '-' ∉ q)
    (hlen : p.length + q.length = 4)
    (htrim : Text.dartTrim (p ++ '-' :: q) = p ++ '-' :: q) (map : List Nat) :
    transformMoveNotationWithMap (p ++ '-' :: q) map
      = transformSquareNotation p map ++ '-' :: transformSquareNotation q map := by
  have hlen : (p ++ '-' :: q).length = 5 := by
    rw [List.length_append, List.length_cons]
    omega
  have hsplit : (p ++ '-' :: q).splitOn '-' = [p, q] := by
    rw [List.splitOn_append_cons_self_of_not_mem hp, List.splitOn_eq_singleton hq]
  have hdash : '-' ∈ p ++ '-' :: q := List.mem_append_right p List.mem_cons_self
  simp only [transformMoveNotationWithMap, htrim]
  rw [if_neg (not_word_of_length (by omega) (by omega)), if_neg fun h => absurd h.2 (by omega),
    hsplit, decide_eq_true ⟨hdash, hlen⟩]

/-- The points of a slide are exchanged inside the white space that its ends do not have. -/
theorem Composes.trim_slide (h : Composes a b c) {p q : Text}
    (htrim : Text.dartTrim (p ++ '-' :: q) = p ++ '-' :: q) :
    Text.dartTrim (transformSquareNotation p a ++ '-' :: transformSquareNotation q a)
      = transformSquareNotation p a ++ '-' :: transformSquareNotation q a := by
  have hdash : Text.isDartBlank '-' = false := by decide
  obtain ⟨hhead, hlast⟩ := Text.trimWhere_eq_self_iff.1 htrim
  have hp : ∀ x ∈ p.head?, Text.isDartBlank x = false :=
    fun x hx => hhead x (by rw [List.head?_append, Option.mem_def.1 hx]; rfl)
  have hq : ∀ x ∈ q.getLast?, Text.isDartBlank x = false := by
    intro x hx
    refine hlast x ?_
    rw [List.getLast?_append, List.getLast?_cons, Option.mem_def.1 hx]
    rfl
  -- the ends of the text lie in the two squares, or at the dash where a square is empty
  refine Text.trimWhere_eq_self_iff.2 ⟨fun x hx => ?_, fun x hx => ?_⟩
  · rw [List.head?_append] at hx
    cases hfront : (transformSquareNotation p a).head? with
    | some y =>
      rw [hfront] at hx
      exact h.head_square hp x (hfront.trans hx)
    | none =>
      rw [hfront] at hx
      cases hx
      exact hdash
  · rw [List.getLast?_append, List.getLast?_cons] at hx
    cases hback : (transformSquareNotation q a).getLast? with
    | some y =>
      rw [hback] at hx
      exact h.last_square hq x (hback.trans hx)
    | none =>
      rw [hback] at hx
      cases hx
      exact hdash

theorem Composes.trim_removal (h : Composes a b c) {p : Text}
    (htrim : Text.dartTrim ('x' :: p) = 'x' :: p) :
    Text.dartTrim ('x' :: transformSquareNotation p a) = 'x' :: transformSquareNotation p a := by
  rcases h.square_cases p with heq | ⟨-, hpoint⟩
  · rwa [heq]
  · exact trim_form (.removal hpoint)

/-- One map after the other, on any text. -/
theorem Composes.move (h : Composes a b c) (text : Text) :
    transformMoveNotationWithMap (transformMoveNotationWithMap text a) b
      = transformMoveNotationWithMap text c := by
  rw [← transform_trim text a, ← transform_trim text c]
  have htrim := Text.dartTrim_dartTrim text
  generalize Text.dartTrim text = t at htrim
  cases moveText t htrim with
  | word hword => rw [transform_word hword, transform_word hword, transform_word hword]
  | @removal p hp =>
    have hp' := (h.length_square p).trans hp
    rw [transform_removalText hp htrim, transform_removalText hp htrim,
      transform_removalText hp' (h.trim_removal htrim), h.square]
  | @slide p q hp hq hlen =>
    have hlen' := hlen
    rw [← h.length_square p, ← h.length_square q] at hlen'
    rw [transform_slideText hp hq hlen htrim, transform_slideText hp hq hlen htrim,
      transform_slideText (h.dash_square hp) (h.dash_square hq) hlen' (h.trim_slide htrim),
      h.square, h.square]
  | place hp =>
    have hp' : isPoint (transformSquareNotation t a) = true := by
      rcases h.square_cases t with heq | ⟨-, hpoint⟩
      · rwa [heq]
      · exact hpoint
    rw [transform_place hp, transform_place hp, transform_place hp', h.square]
  | other hother => rw [hother, hother, hother]

/-! ## The group -/

open MillOpeningRecognizer (transformationTypes)

theorem mem_transformationTypes (t : TransformationType) : t ∈ transformationTypes := by
  cases t <;> decide

/-- First `t`, then `f`; two neighbours tell the symmetries apart. -/
def TransformationType.andThen (t f : TransformationType) : TransformationType :=
  (transformationTypes.find? fun g => [0, 1].all fun i =>
    (getTransformMap g).getD i 0
      == (getTransformMap f).getD ((getTransformMap t).getD i 0) 0).getD .identity

def TransformationType.inverse (t : TransformationType) : TransformationType :=
  (transformationTypes.find? fun g => [0, 1].all fun i =>
    (getTransformMap g).getD ((getTransformMap t).getD i 0) 0 == i).getD .identity

/-- What is checked of two symmetries. -/
def composesAt (t f : TransformationType) : Bool :=
  getTransformMap (t.andThen f) == (getTransformMap t).map (fun i => (getTransformMap f).getD i 0)
    && (decide (t.andThen (t.inverse.andThen f) = f)
      && decide ((t.andThen f).inverse.andThen t = f.inverse))

theorem composesAt_all :
    (transformationTypes.all fun t => transformationTypes.all fun f => composesAt t f) = true := by
  decide +kernel

theorem composesAt_true (t f : TransformationType) : composesAt t f = true :=
  List.all_eq_true.1 (List.all_eq_true.1 composesAt_all t (mem_transformationTypes t)) f
    (mem_transformationTypes f)

/-- Two quarter turns are a half turn. -/
example : TransformationType.rotate90.andThen .rotate90 = .rotate180 := by decide +kernel

theorem getTransformMap_lt (t : TransformationType) :
    (getTransformMap t).length = 24 ∧ ∀ j ∈ getTransformMap t, j < 24 := by
  cases t <;> decide

theorem composes (t f : TransformationType) :
    Composes (getTransformMap t) (getTransformMap f) (getTransformMap (t.andThen f)) := by
  obtain ⟨hlen, hlt⟩ := getTransformMap_lt t
  have hmap := eq_of_beq (Bool.and_eq_true_iff.1 (composesAt_true t f)).1
  constructor
  · intro i hi
    rw [List.getD_eq_getElem _ _ (by rwa [hlen])]
    exact hlt _ (List.getElem_mem _)
  · intro i hi
    rw [hmap, List.getD_eq_getElem _ _ (by rwa [List.length_map, hlen]), List.getElem_map,
      List.getD_eq_getElem (getTransformMap t) _ (by rwa [hlen])]

/-- The frames of a turned board are the frames of the board in another order. -/
theorem andThen_inverse (t f : TransformationType) : t.andThen (t.inverse.andThen f) = f :=
  of_decide_eq_true (Bool.and_eq_true_iff.1 (Bool.and_eq_true_iff.1 (composesAt_true t f)).2).1

theorem inverse_andThen (t f : TransformationType) : (t.andThen f).inverse.andThen t = f.inverse :=
  of_decide_eq_true (Bool.and_eq_true_iff.1 (Bool.and_eq_true_iff.1 (composesAt_true t f)).2).2

theorem getTransformMap_inverse (t : TransformationType) :
    getTransformMap t.inverse = inverseTransformMap (getTransformMap t) := by
  revert t
  have key : (transformationTypes.all fun t =>
      decide (getTransformMap t.inverse = inverseTransformMap (getTransformMap t))) = true := by
    decide +kernel
  intro t
  exact of_decide_eq_true (List.all_eq_true.1 key t (mem_transformationTypes t))

theorem andThen_identity (t : TransformationType) : t.andThen .identity = t := by
  cases t <;> decide +kernel

theorem transformMoveNotation_andThen (text : Text) (t f : TransformationType) :
    transformMoveNotation (transformMoveNotation text t) f
      = transformMoveNotation text (t.andThen f) :=
  (composes t f).move text

/-! ## The squares of the board -/

theorem transform_squares : (transformationTypes.all fun t => transformIndexToNotation.all fun p =>
    decide (transformMoveNotation p t ∈ transformIndexToNotation)) = true := by
  decide +kernel

theorem transform_mem {p : Text} (hp : p ∈ transformIndexToNotation) (t : TransformationType) :
    transformMoveNotation p t ∈ transformIndexToNotation :=
  of_decide_eq_true
    (List.all_eq_true.1 (List.all_eq_true.1 transform_squares t (mem_transformationTypes t)) p hp)

theorem transform_identity : ∀ p ∈ transformIndexToNotation,
    transformMoveNotation p .identity = p := by
  decide +kernel

theorem transform_inverse {p : Text} (hp : p ∈ transformIndexToNotation)
    (t : TransformationType) :
    transformMoveNotation (transformMoveNotation p t) t.inverse = p := by
  have hid : t.andThen t.inverse = .identity := by
    have := andThen_inverse t .identity
    rwa [andThen_identity] at this
  rw [transformMoveNotation_andThen, hid, transform_identity p hp]

end Recorder

end Sanmill
