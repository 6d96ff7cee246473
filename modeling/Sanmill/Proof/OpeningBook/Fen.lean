import Mathlib.Data.Char
import Mathlib.Data.List.Lex
import Sanmill.Lib.Orbit
import Sanmill.Mill.OpeningBook
import Sanmill.Proof.Fen
import Sanmill.Proof.Symmetry.Board

/-!
# Canonical book texts

A text the book accepts is a board of twenty-four characters and at least sixteen more
fields: `BookText`. A transform moves the characters and normalizes the fields, so the
images of a text are those of its board, and the search finds the least one.
-/

namespace Sanmill

open Orbit

/-! ## Moving the characters of a board -/

theorem nodePerm_bijective (t : BoardTransform) :
    Function.Bijective fun n : Node => transformOpeningBookNode n t :=
  (nodePerm t).bijective

theorem length_transformChars (t : BoardTransform) (chars : Text) :
    (transformChars t chars).length = 24 :=
  length_moveAlong _ _ _

/-- The character at a node goes to the image of the node. -/
theorem getElem?_transformChars (t : BoardTransform) {chars : Text} (hlen : chars.length = 24)
    (n : Node) : (transformChars t chars)[(nodePerm t n).val]? = chars[n.val]? :=
  getElem?_moveAlong (nodePerm_bijective t).1 hlen n

theorem mem_of_mem_transformChars {t : BoardTransform} {chars : Text} (hlen : chars.length = 24)
    {c : Char} (h : c ∈ transformChars t chars) : c ∈ chars :=
  mem_of_mem_moveAlong (nodePerm_bijective t) hlen h

theorem transformChars_zero {chars : Text} (hlen : chars.length = 24) :
    transformChars 0 chars = chars := by
  have hid : (fun n : Node => transformOpeningBookNode n 0) = fun n => n := funext transform_zero
  unfold transformChars
  rw [hid]
  exact moveAlong_id hlen

theorem transformChars_comp (t u : BoardTransform) : ∃ v, ∀ chars : Text, chars.length = 24 →
    transformChars v chars = transformChars u (transformChars t chars) := by
  obtain ⟨v, hv⟩ := transform_comp t u
  exact ⟨v, fun chars hlen => moveAlong_comp (nodePerm_bijective t).1 (nodePerm_bijective u).1
    (nodePerm_bijective v) hv hlen⟩

theorem transformChars_inverse (t : BoardTransform) {chars : Text} (hlen : chars.length = 24) :
    transformChars (inverseOpeningBookTransform t) (transformChars t chars) = chars := by
  have hcomp : transformChars 0 chars
      = transformChars (inverseOpeningBookTransform t) (transformChars t chars) :=
    moveAlong_comp (nodePerm_bijective t).1 (nodePerm_bijective _).1 (nodePerm_bijective 0)
      (fun n => by rw [transform_zero, transform_inverse]) hlen
  rw [← hcomp, transformChars_zero hlen]

/-! ## Accepted texts -/

/-- `fen` has the board `chars` and the fields `tail` after it. -/
structure BookText (fen chars : Text) (tail : List Text) : Prop where
  fields : Text.splitWhitespace fen = joinRanks chars :: tail
  length : chars.length = 24
  slash : ∀ c ∈ chars, c ≠ '/'
  enough : 16 ≤ tail.length

/-- The fields after the board, normalized. -/
def normalTail (tail : List Text) : List Text := (tail.set 13 ['0']).set 14 ['0']

/-- The normalized text of a board and the fields after it. -/
def bookText (chars : Text) (tail : List Text) : Text :=
  Text.joinBlank (joinRanks chars :: normalTail tail)

theorem normalTail_idem (tail : List Text) : normalTail (normalTail tail) = normalTail tail := by
  unfold normalTail
  rw [List.set_comm _ _ (by decide : (14 : Nat) ≠ 13), List.set_set, List.set_set]

theorem length_normalTail (tail : List Text) : (normalTail tail).length = tail.length := by
  unfold normalTail
  rw [List.length_set, List.length_set]

/-- **When a board field is accepted.** -/
theorem boardChars_eq_ok {board chars : Text} :
    boardChars board = .ok chars ↔
      board = joinRanks chars ∧ chars.length = 24 ∧ ∀ c ∈ chars, c ≠ '/' := by
  unfold boardChars
  dsimp only
  constructor
  · intro h
    split at h
    · cases h
    · rename_i hshape
      push Not at hshape
      obtain ⟨hthree, hranks⟩ := hshape
      -- three ranks of eight characters each
      have height : ∀ l ∈ board.splitOn '/', l.length = 8 := by
        intro l hl
        by_contra hne
        exact hranks (List.any_eq_true.2 ⟨l, hl, by simpa using hne⟩)
      have hlen := length_flatten_ranks hthree height
      rw [if_neg (not_not_intro hlen)] at h
      obtain rfl := Except.ok.inj h
      refine ⟨?_, hlen, fun c hc hslash => ?_⟩
      · have hjoin : ['/'].intercalate (board.splitOn '/') = board := List.intercalate_splitOn '/'
        match hr : board.splitOn '/', hthree with
        | [a, b, c], _ =>
          rw [hr] at hjoin height
          have ha := height a (by simp)
          have hb := height b (by simp)
          rw [← hjoin, List.intercalate_cons_cons, List.intercalate_cons_cons,
            List.intercalate_singleton]
          unfold joinRanks
          simp [ha, hb, List.drop_append]
      · obtain ⟨l, hl, hcl⟩ := List.mem_flatten.1 hc
        rw [hslash] at hcl
        exact Text.not_mem_of_mem_splitOn hl hcl
  · rintro ⟨rfl, hlen, hslash⟩
    rw [splitOn_joinRanks hslash, flatten_ranks, if_neg, if_neg (not_not_intro hlen)]
    rintro (hthree | hany)
    · exact hthree rfl
    · obtain ⟨l, hl, hne⟩ := List.any_eq_true.1 hany
      simp only [List.mem_cons, List.not_mem_nil, or_false] at hl
      rcases hl with rfl | rfl | rfl
      · simp [hlen] at hne
      · simp [hlen] at hne
      · simp [hlen] at hne

theorem bookFields_eq_ok {fen : Text} {fields : List Text} :
    bookFields fen = .ok fields ↔ Text.splitWhitespace fen = fields ∧ 17 ≤ fields.length := by
  unfold bookFields
  dsimp only
  split
  · constructor
    · intro h
      cases h
    · rintro ⟨rfl, hlen⟩
      omega
  · rw [Except.ok.injEq]
    constructor
    · rintro rfl
      exact ⟨rfl, by omega⟩
    · exact fun h => h.1

theorem validateTransform_eq (t : BoardTransform) : validateTransform t.val = .ok t := by
  unfold validateTransform
  rw [dif_pos t.isLt]

namespace BookText

variable {fen chars : Text} {tail : List Text}

theorem isToken_tail (h : BookText fen chars tail) : ∀ token ∈ tail, Text.IsToken token :=
  fun _ htoken => Text.isToken_of_mem_splitWhitespace
    (h.fields ▸ List.mem_cons_of_mem _ htoken)

theorem isToken_board (h : BookText fen chars tail) : Text.IsToken (joinRanks chars) :=
  Text.isToken_of_mem_splitWhitespace (h.fields ▸ List.mem_cons_self)

/-- The characters of a board are not white space. -/
theorem solid (h : BookText fen chars tail) : ∀ c ∈ chars, Text.isWhitespace c = false := by
  intro c hc
  refine h.isToken_board.solid c ?_
  rw [← flatten_ranks chars] at hc
  unfold joinRanks
  simp only [List.flatten_cons, List.flatten_nil, List.append_nil, List.mem_append] at hc
  simp only [List.mem_append, List.mem_cons]
  tauto

/-- Fields that look like a board and others after it, joined, are read back. -/
theorem splitWhitespace_join (h : BookText fen chars tail) {chars' : Text}
    (hsub : ∀ c ∈ chars', c ∈ chars) {tail' : List Text}
    (htail : ∀ token ∈ tail', Text.IsToken token) :
    Text.splitWhitespace (Text.joinBlank (joinRanks chars' :: tail'))
      = joinRanks chars' :: tail' := by
  refine Text.splitWhitespace_joinBlank fun token htoken => ?_
  rcases List.mem_cons.1 htoken with rfl | htoken
  · refine ⟨by simp [joinRanks], fun c hc => ?_⟩
    rcases mem_joinRanks hc with rfl | hc
    · decide
    · exact h.solid c (hsub c hc)
  · exact htail token htoken

theorem isToken_normalTail (h : BookText fen chars tail) :
    ∀ token ∈ normalTail tail, Text.IsToken token := by
  intro token htoken
  have hzero : Text.IsToken ['0'] := Text.isToken_decimal 0
  rcases List.mem_or_eq_of_mem_set htoken with htoken | rfl
  · rcases List.mem_or_eq_of_mem_set htoken with htoken | rfl
    · exact h.isToken_tail token htoken
    · exact hzero
  · exact hzero

/-- A board whose characters are those of an accepted one is accepted. -/
theorem moved (h : BookText fen chars tail) {chars' : Text} (hsub : ∀ c ∈ chars', c ∈ chars)
    (hlen : chars'.length = 24) : BookText (bookText chars' tail) chars' (normalTail tail) where
  fields := h.splitWhitespace_join hsub h.isToken_normalTail
  length := hlen
  slash c hc := h.slash c (hsub c hc)
  enough := by
    rw [length_normalTail]
    exact h.enough

end BookText

/-- **When a text is accepted, and what it is normalized to.** -/
theorem normalizeOpeningBookFen_eq_ok {fen normalized : Text} :
    normalizeOpeningBookFen fen = .ok normalized ↔
      ∃ chars tail, BookText fen chars tail ∧ normalized = bookText chars tail := by
  unfold normalizeOpeningBookFen
  simp only [Except.bind_ok_iff, bookFields_eq_ok, Except.ok.injEq]
  constructor
  · rintro ⟨fields, ⟨hfields, hlen⟩, chars, hboard, rfl⟩
    obtain ⟨hjoin, hchars, hslash⟩ := boardChars_eq_ok.1 hboard
    obtain ⟨board, tail, rfl⟩ := List.exists_cons_of_ne_nil (l := fields) (by
      rintro rfl
      exact absurd hlen (by decide))
    rw [List.getD_cons_zero] at hjoin
    rw [List.length_cons] at hlen
    exact ⟨chars, tail, ⟨by rw [hfields, hjoin], hchars, hslash, by omega⟩, by rw [hjoin]; rfl⟩
  · rintro ⟨chars, tail, h, rfl⟩
    have henough := h.enough
    exact ⟨_, ⟨h.fields, by rw [List.length_cons]; omega⟩, chars,
      boardChars_eq_ok.2 ⟨rfl, h.length, h.slash⟩, rfl⟩

theorem BookText.normalize {fen chars : Text} {tail : List Text} (h : BookText fen chars tail) :
    normalizeOpeningBookFen fen = .ok (bookText chars tail) :=
  normalizeOpeningBookFen_eq_ok.2 ⟨chars, tail, h, rfl⟩

/-- **A transform moves the characters and normalizes.** -/
theorem BookText.transform {fen chars : Text} {tail : List Text} (h : BookText fen chars tail)
    (t : BoardTransform) :
    transformOpeningBookFen fen t.val = .ok (bookText (transformChars t chars) tail) := by
  have henough := h.enough
  have hmoved : BookText (Text.joinBlank (joinRanks (transformChars t chars) :: tail))
      (transformChars t chars) tail :=
    { fields := h.splitWhitespace_join (fun c hc => mem_of_mem_transformChars h.length hc)
        h.isToken_tail
      length := length_transformChars t chars
      slash := fun c hc => h.slash c (mem_of_mem_transformChars h.length hc)
      enough := h.enough }
  unfold transformOpeningBookFen
  simp only [Except.bind_ok_iff, bookFields_eq_ok]
  exact ⟨t, validateTransform_eq t, _, ⟨h.fields, by rw [List.length_cons]; omega⟩, chars,
    boardChars_eq_ok.2 ⟨rfl, h.length, h.slash⟩, hmoved.normalize⟩

/-- The text of an image is accepted, and so is its transform back. -/
theorem BookText.image {fen chars : Text} {tail : List Text} (h : BookText fen chars tail)
    (t : BoardTransform) :
    BookText (bookText (transformChars t chars) tail) (transformChars t chars) (normalTail tail) :=
  h.moved (fun _ hc => mem_of_mem_transformChars h.length hc) (length_transformChars t chars)

theorem bookText_normalTail (chars : Text) (tail : List Text) :
    bookText chars (normalTail tail) = bookText chars tail := by
  unfold bookText
  rw [normalTail_idem]

/-! ## The search -/

/-- The text of an image of a board. -/
def imageText (chars : Text) (tail : List Text) (transform : Nat) : Text :=
  if h : transform < 16 then bookText (transformChars ⟨transform, h⟩ chars) tail
  else bookText chars tail

theorem imageText_val (chars : Text) (tail : List Text) (t : BoardTransform) :
    imageText chars tail t.val = bookText (transformChars t chars) tail := by
  unfold imageText
  rw [dif_pos t.isLt]

/-- The texts of the images of a board. -/
def imageTexts (chars : Text) (tail : List Text) : Set Text :=
  Set.range fun t : BoardTransform => bookText (transformChars t chars) tail

theorem imageTexts_image {chars : Text} (hlen : chars.length = 24) (tail : List Text)
    (t : BoardTransform) :
    imageTexts (transformChars t chars) tail = imageTexts chars tail := by
  have hsub : ∀ {chars : Text}, chars.length = 24 → ∀ t : BoardTransform,
      imageTexts (transformChars t chars) tail ⊆ imageTexts chars tail := by
    rintro chars hlen t _ ⟨u, rfl⟩
    obtain ⟨v, hv⟩ := transformChars_comp t u
    exact ⟨v, by dsimp only; rw [hv chars hlen]⟩
  refine Set.Subset.antisymm (hsub hlen t) ?_
  have := hsub (length_transformChars t chars) (inverseOpeningBookTransform t)
  rwa [transformChars_inverse t hlen] at this

/-- **The search returns the least image and a transform that reaches it.** -/
theorem BookText.canonical {fen chars : Text} {tail : List Text} (h : BookText fen chars tail) :
    ∃ (c : Text) (t : BoardTransform), canonicalOpeningBookFen fen = .ok (c, t.val)
      ∧ c = bookText (transformChars t chars) tail ∧ IsLeast (imageTexts chars tail) c := by
  have hnormal : BookText (bookText chars tail) chars (normalTail tail) :=
    h.moved (fun _ hc => hc) h.length
  have hzero : bookText chars tail = imageText chars tail 0 := by
    have := imageText_val chars tail 0
    rw [transformChars_zero h.length] at this
    exact this.symm
  -- the fold of the source may fail at each step, but not on a text it has normalized
  have hfold : canonicalOpeningBookFen fen = .ok
      ((List.range 16).foldl (leastStep (imageText chars tail)) (imageText chars tail 0, 0)) := by
    unfold canonicalOpeningBookFen
    rw [h.normalize, ← hzero]
    refine foldlM_eq_pure (fun best transform hmem => ?_) _
    have hlt := List.mem_range.1 hmem
    have himage := imageText_val chars tail ⟨transform, hlt⟩
    have htransform := hnormal.transform ⟨transform, hlt⟩
    rw [bookText_normalTail, ← himage] at htransform
    unfold canonicalFenStep leastStep
    rw [htransform]
    by_cases hless : imageText chars tail transform < best.1
    · rw [if_pos hless]
      exact congrArg Except.ok (if_pos hless)
    · rw [if_neg hless]
      exact congrArg Except.ok (if_neg hless)
  obtain ⟨hvalue, hseen, hle⟩ := leastStep_foldl (imageText chars tail) (List.range 16) 0
  have hlt : ((List.range 16).foldl (leastStep (imageText chars tail))
      (imageText chars tail 0, 0)).2 < 16 := by
    rcases List.mem_cons.1 hseen with hfirst | hrest
    · rw [hfirst]
      decide
    · exact List.mem_range.1 hrest
  refine ⟨_, ⟨_, hlt⟩, hfold, ?_, ?_, ?_⟩
  · rw [← imageText_val]
    exact hvalue
  · exact ⟨⟨_, hlt⟩, by dsimp only; rw [← imageText_val]; exact hvalue.symm⟩
  · rintro _ ⟨t, rfl⟩
    dsimp only
    rw [← imageText_val]
    exact hle t.val (List.mem_cons_of_mem _ (List.mem_range.2 t.isLt))

end Sanmill
