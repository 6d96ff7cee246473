import Sanmill.Proof.HumanDb.Symmetry

/-!
# Stored notations

A stored notation is a placement, a move, a capture, or one of the first two with a
capture. `Turn` is what it says, and a symmetry acts on it point by point: the text
transform accepts exactly the texts of turns and writes the text of the image.
-/

namespace Sanmill.HumanDb

/-- The label at an index of the board string. -/
def label (i : Node) : Text := nmmPositions.getD i.val []

theorem positionIndex_label (i : Node) : positionIndex (label i) = some i.val := by
  have hall : ((List.finRange 24).all fun i => positionIndex (label i) == some i.val) = true := by
    decide +kernel
  rw [List.all_eq_true] at hall
  exact eq_of_beq (hall i (List.mem_finRange i))

theorem positionIndex_eq_some {pos : Text} {idx : Nat} (h : positionIndex pos = some idx) :
    ∃ i : Node, i.val = idx ∧ pos = label i := by
  unfold positionIndex at h
  obtain ⟨hlt, hpos, -⟩ := List.findIdx?_eq_some_iff_getElem.1 h
  have hlt24 : idx < 24 := hlt
  refine ⟨⟨idx, hlt24⟩, rfl, ?_⟩
  rw [decide_eq_true_eq] at hpos
  unfold label
  rw [← hpos, List.getD_eq_getElem?_getD, List.getElem?_eq_getElem hlt, Option.getD_some]

/-- A label has a letter and a digit, so no dash and no `x`. -/
theorem label_plain (i : Node) : label i ≠ [] ∧ 'x' ∉ label i ∧ '-' ∉ label i := by
  have hall : ((List.finRange 24).all fun i =>
      label i ≠ [] && !(label i).contains 'x' && !(label i).contains '-') = true := by
    decide +kernel
  rw [List.all_eq_true] at hall
  simpa [and_assoc] using hall i (List.mem_finRange i)

example : 'x' ∉ label 0 := by decide +kernel

theorem transformPos_eq_some {pos m : Text} {s : Sym} :
    transformPos pos s.val = some m ↔ ∃ i : Node, pos = label i ∧ m = label (symIndex s i) := by
  unfold transformPos
  constructor
  · intro h
    split at h
    · rename_i idx hidx
      obtain ⟨i, rfl, hpos⟩ := positionIndex_eq_some hidx
      rw [transformIndex_eq] at h
      exact ⟨i, hpos, (Option.some.inj h).symm⟩
    · exact absurd h (by simp)
  · rintro ⟨i, rfl, rfl⟩
    rw [positionIndex_label]
    dsimp only
    rw [transformIndex_eq]
    rfl

/-! ## Turns -/

/-- What stands before a capture. -/
inductive Base where
  | empty
  | place (point : Node)
  | move (source target : Node)

/-- One stored turn. -/
structure Turn where
  base : Base
  capture : Option Node

def Base.text : Base → Text
  | empty => []
  | place point => label point
  | move source target => label source ++ '-' :: label target

def Base.map (f : Node → Node) : Base → Base
  | empty => empty
  | place point => place (f point)
  | move source target => move (f source) (f target)

def captureText : Option Node → Text
  | none => []
  | some point => 'x' :: label point

def Turn.text (turn : Turn) : Text := turn.base.text ++ captureText turn.capture

def Turn.map (f : Node → Node) (turn : Turn) : Turn :=
  ⟨turn.base.map f, turn.capture.map f⟩

theorem Base.not_mem_text (base : Base) : 'x' ∉ base.text := by
  cases base with
  | empty => exact List.not_mem_nil
  | place point => exact (label_plain point).2.1
  | move source target =>
    intro hmem
    rcases List.mem_append.1 hmem with hmem | hmem
    · exact (label_plain source).2.1 hmem
    · rcases List.mem_cons.1 hmem with hmem | hmem
      · exact absurd hmem (by decide)
      · exact (label_plain target).2.1 hmem

/-- The base of a notation, transformed. -/
theorem transformBase_eq_some {base suffix m : Text} {s : Sym} :
    (if base = [] then some suffix
      else match Text.splitOnce '-' base with
        | some (source, target) =>
          (transformPos source s.val).bind fun source =>
            (transformPos target s.val).map fun target => source ++ '-' :: target ++ suffix
        | none => (transformPos base s.val).map fun base => base ++ suffix) = some m
      ↔ ∃ b : Base, base = b.text ∧ m = (b.map (symIndex s)).text ++ suffix := by
  constructor
  · intro h
    split at h
    · rename_i hnil
      exact ⟨.empty, hnil, (Option.some.inj h).symm⟩
    · split at h
      · rename_i source target hsplit
        obtain ⟨m1, h1, h2⟩ := Option.bind_eq_some_iff.1 h
        obtain ⟨m2, h3, rfl⟩ := Option.map_eq_some_iff.1 h2
        obtain ⟨i, rfl, rfl⟩ := transformPos_eq_some.1 h1
        obtain ⟨j, rfl, rfl⟩ := transformPos_eq_some.1 h3
        exact ⟨.move i j, (Text.splitOnce_eq_some.1 hsplit).1, rfl⟩
      · obtain ⟨m1, h1, rfl⟩ := Option.map_eq_some_iff.1 h
        obtain ⟨i, rfl, rfl⟩ := transformPos_eq_some.1 h1
        exact ⟨.place i, rfl, rfl⟩
  · rintro ⟨b, rfl, rfl⟩
    cases b with
    | empty => exact if_pos rfl
    | place point =>
      -- a label has no dash, so the text of a move splits at its dash only
      have hsplit : Text.splitOnce '-' (label point) = none :=
        Text.splitOnce_eq_none.2 (label_plain point).2.2
      have hne : (Base.place point).text ≠ [] := (label_plain point).1
      rw [if_neg hne]
      simp only [Base.text, hsplit, transformPos_eq_some.2 ⟨point, rfl, rfl⟩, Option.map_some,
        Base.map]
    | move source target =>
      have hsplit : Text.splitOnce '-' (label source ++ '-' :: label target)
          = some (label source, label target) :=
        Text.splitOnce_eq_some.2 ⟨rfl, (label_plain source).2.2⟩
      rw [if_neg (by simp [Base.text])]
      simp only [Base.text, hsplit, transformPos_eq_some.2 ⟨source, rfl, rfl⟩,
        transformPos_eq_some.2 ⟨target, rfl, rfl⟩, Option.map_some, Option.bind_some, Base.map]

/-- **The text transform is the transform of turns.** -/
theorem transformNotation_eq_some {text m : Text} {s : Sym} (hs : s ≠ 0) :
    transformNotation text s.val = some m
      ↔ ∃ turn : Turn, text = turn.text ∧ m = (turn.map (symIndex s)).text := by
  have hval : s.val ≠ 0 := fun h => hs (Fin.ext h)
  unfold transformNotation
  rw [if_neg hval]
  -- no label has an `x`, so the text splits where the capture starts
  cases hsplit : Text.splitOnce 'x' text with
  | none =>
    refine transformBase_eq_some.trans ?_
    constructor
    · rintro ⟨b, rfl, rfl⟩
      exact ⟨⟨b, none⟩, (List.append_nil _).symm, rfl⟩
    · rintro ⟨⟨b, capture⟩, rfl, rfl⟩
      cases capture with
      | none => exact ⟨b, List.append_nil _, rfl⟩
      | some point =>
        refine absurd ?_ (Text.splitOnce_eq_none.1 hsplit)
        exact List.mem_append_right _ List.mem_cons_self
  | some parts =>
    obtain ⟨base, pos⟩ := parts
    obtain ⟨rfl, hnot⟩ := Text.splitOnce_eq_some.1 hsplit
    constructor
    · intro h
      obtain ⟨suffix, hsuffix, h⟩ := Option.bind_eq_some_iff.1 h
      obtain ⟨m1, h1, rfl⟩ := Option.map_eq_some_iff.1 hsuffix
      obtain ⟨i, rfl, rfl⟩ := transformPos_eq_some.1 h1
      obtain ⟨b, rfl, rfl⟩ := transformBase_eq_some.1 h
      exact ⟨⟨b, some i⟩, rfl, rfl⟩
    · rintro ⟨⟨b, capture⟩, htext, rfl⟩
      cases capture with
      | none =>
        refine absurd ?_ b.not_mem_text
        have hmem : 'x' ∈ base ++ 'x' :: pos := List.mem_append_right _ List.mem_cons_self
        rw [htext] at hmem
        simpa [Turn.text, captureText] using hmem
      | some point =>
        have hsame : Text.splitOnce 'x' (base ++ 'x' :: pos) = some (b.text, label point) :=
          Text.splitOnce_eq_some.2 ⟨htext, b.not_mem_text⟩
        rw [hsplit] at hsame
        obtain ⟨rfl, rfl⟩ := Prod.mk.inj (Option.some.inj hsame)
        dsimp only
        rw [transformPos_eq_some.2 ⟨point, rfl, rfl⟩, Option.map_some, Option.bind_some]
        exact transformBase_eq_some.2 ⟨b, rfl, rfl⟩

theorem Base.map_map {f g : Node → Node} (h : ∀ i, g (f i) = i) (base : Base) :
    (base.map f).map g = base := by
  cases base with
  | empty => rfl
  | place point => simp only [Base.map, h]
  | move source target => simp only [Base.map, h]

theorem Turn.map_map {f g : Node → Node} (h : ∀ i, g (f i) = i) (turn : Turn) :
    (turn.map f).map g = turn := by
  obtain ⟨base, capture⟩ := turn
  cases capture with
  | none => simp only [Turn.map, Base.map_map h, Option.map_none]
  | some point => simp only [Turn.map, Base.map_map h, Option.map_some, h]

theorem Base.map_id (base : Base) : base.map (symIndex 0) = base := by
  cases base with
  | empty => rfl
  | place point => simp only [Base.map, symIndex_zero]
  | move source target => simp only [Base.map, symIndex_zero]

theorem inverseSym_ne_zero {s : Sym} (h : s ≠ 0) : inverseSym s ≠ 0 := by
  revert s
  decide

/-- The text of a turn is accepted, under every symmetry. -/
theorem transformNotation_turn (s : Sym) (turn : Turn) :
    transformNotation turn.text s.val = some (turn.map (symIndex s)).text := by
  by_cases hs : s = 0
  · subst hs
    have hsame : turn.map (symIndex 0) = turn := by
      obtain ⟨base, capture⟩ := turn
      cases capture with
      | none => simp only [Turn.map, Base.map_id, Option.map_none]
      | some point => simp only [Turn.map, Base.map_id, Option.map_some, symIndex_zero]
    rw [hsame]
    exact if_pos rfl
  · exact (transformNotation_eq_some hs).2 ⟨turn, rfl, rfl⟩

/-- **A symmetry and its inverse give the notation back.** -/
theorem transformNotation_inverse {text m : Text} {s : Sym}
    (h : transformNotation text s.val = some m) :
    transformNotation m (inverseSym s).val = some text := by
  by_cases hs : s = 0
  · subst hs
    have hsame : m = text := (Option.some.inj h).symm
    rw [hsame]
    rfl
  · obtain ⟨turn, rfl, rfl⟩ := (transformNotation_eq_some hs).1 h
    refine (transformNotation_eq_some (inverseSym_ne_zero hs)).2 ⟨turn.map (symIndex s), rfl, ?_⟩
    rw [Turn.map_map (symIndex_inverse s)]

end Sanmill.HumanDb
