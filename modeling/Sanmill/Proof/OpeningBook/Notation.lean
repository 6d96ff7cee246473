import Sanmill.Mill.OpeningBook
import Sanmill.Proof.Fen
import Sanmill.Proof.Symmetry.Legal

/-!
# Book moves under a transform

A notation is one action, or one action and a removal. `ReadsAs` says which actions a
trimmed notation stands for; a transform moves the nodes of these actions and writes
them again, so it and its inverse give the notation back in the encoder's spelling.
-/

namespace Sanmill

variable {t : BoardTransform}

/-! ## Labels -/

/-- A label is two characters, none of which has a meaning of its own. -/
structure PlainLabel (label : Text) : Prop where
  length : label.length = 2
  plain : ∀ c ∈ label, c ≠ 'x' ∧ c ≠ 'X' ∧ c ≠ '-' ∧ Text.isWhitespace c = false

theorem plainLabel (n : Node) : PlainLabel (labelOf n) := by
  have hall : ((List.finRange 24).all fun n => (labelOf n).length == 2
      && (labelOf n).all fun c => c != 'x' && c != 'X' && c != '-' && !Text.isWhitespace c)
        = true := by
    decide +kernel
  rw [List.all_eq_true] at hall
  have hn := hall n (List.mem_finRange n)
  rw [Bool.and_eq_true, List.all_eq_true] at hn
  refine ⟨eq_of_beq hn.1, fun c hc => ?_⟩
  have := hn.2 c hc
  simpa [and_assoc] using this

theorem nodeFromLabel_labelOf (n : Node) : nodeFromLabel (labelOf n) = some n := by
  have hall : ((List.finRange 24).all fun n => nodeFromLabel (labelOf n) == some n) = true := by
    decide +kernel
  rw [List.all_eq_true] at hall
  exact eq_of_beq (hall n (List.mem_finRange n))

/-! ## Single actions -/

/-- What the decoder can return. -/
inductive IsBoardAction : Action → Prop
  | place (n : Node) : IsBoardAction (placeAction n)
  | move (m n : Node) : IsBoardAction (moveAction m n)
  | remove (n : Node) : IsBoardAction (removeAction n)

theorem IsBoardAction.transform {a : Action} (h : IsBoardAction a) (t : BoardTransform) :
    IsBoardAction (transformAction t a) := by
  cases h with
  | place n =>
    rw [transformAction_place]
    exact .place _
  | move m n =>
    rw [transformAction_move]
    exact .move _ _
  | remove n =>
    rw [transformAction_remove]
    exact .remove _

theorem encodeAction_place (n : Node) : encodeAction (placeAction n) = labelOf n := by
  simp [encodeAction, placeAction]

theorem encodeAction_move (m n : Node) :
    encodeAction (moveAction m n) = labelOf m ++ '-' :: labelOf n := by
  simp [encodeAction, moveAction, MillActionKind.toI16]

theorem encodeAction_remove (n : Node) : encodeAction (removeAction n) = 'x' :: labelOf n := by
  simp [encodeAction, removeAction, MillActionKind.toI16]

theorem decodeAction_isBoardAction {text : Text} {a : Action} (h : decodeAction text = some a) :
    IsBoardAction a := by
  unfold decodeAction at h
  dsimp only at h
  split at h
  · cases h
  · split at h
    · obtain ⟨n, -, rfl⟩ := Option.map_eq_some_iff.1 h
      exact .remove n
    · split at h
      · obtain ⟨m, -, h⟩ := Option.bind_eq_some_iff.1 h
        obtain ⟨n, -, h⟩ := Option.bind_eq_some_iff.1 h
        obtain rfl := Option.some.inj h
        exact .move m n
      · obtain ⟨n, -, rfl⟩ := Option.map_eq_some_iff.1 h
        exact .place n

/-- The text of an action is solid. -/
theorem encodeAction_solid {a : Action} (h : IsBoardAction a) :
    ∀ c ∈ encodeAction a, Text.isWhitespace c = false := by
  intro c hc
  cases h with
  | place n =>
    rw [encodeAction_place] at hc
    exact ((plainLabel n).plain c hc).2.2.2
  | move m n =>
    rw [encodeAction_move] at hc
    rcases List.mem_append.1 hc with hc | hc
    · exact ((plainLabel m).plain c hc).2.2.2
    · rcases List.mem_cons.1 hc with rfl | hc
      · decide
      · exact ((plainLabel n).plain c hc).2.2.2
  | remove n =>
    rw [encodeAction_remove] at hc
    rcases List.mem_cons.1 hc with rfl | hc
    · decide
    · exact ((plainLabel n).plain c hc).2.2.2

/-- **The decoder reads what the encoder writes.** -/
theorem decodeAction_encodeAction {a : Action} (h : IsBoardAction a) :
    decodeAction (encodeAction a) = some a := by
  unfold decodeAction
  rw [Text.trim_of_solid (encodeAction_solid h)]
  cases h with
  | place n =>
    rw [encodeAction_place]
    obtain ⟨c, rest, hlabel⟩ := List.exists_cons_of_ne_nil (l := labelOf n)
      (List.ne_nil_of_length_pos (by rw [(plainLabel n).length]; decide))
    -- the first character of a label decides the branch: it is neither an `x` nor a dash
    have hplain := (plainLabel n).plain
    have hc := hplain c (by rw [hlabel]; exact List.mem_cons_self)
    have hdash : Text.splitOnce '-' (c :: rest) = none := by
      rw [Text.splitOnce_eq_none, ← hlabel]
      exact fun hmem => (hplain '-' hmem).2.2.1 rfl
    have hread := nodeFromLabel_labelOf n
    rw [hlabel] at hread ⊢
    dsimp only
    rw [if_neg (by
      rintro (h | h)
      · exact hc.1 h
      · exact hc.2.1 h), hdash, hread]
    rfl
  | move m n =>
    rw [encodeAction_move]
    obtain ⟨c, rest, hlabel⟩ := List.exists_cons_of_ne_nil (l := labelOf m)
      (List.ne_nil_of_length_pos (by rw [(plainLabel m).length]; decide))
    have hplain := (plainLabel m).plain
    have hc := hplain c (by rw [hlabel]; exact List.mem_cons_self)
    have hdash : Text.splitOnce '-' (labelOf m ++ '-' :: labelOf n) = some (labelOf m, labelOf n) :=
      Text.splitOnce_eq_some.2 ⟨rfl, fun hmem => (hplain '-' hmem).2.2.1 rfl⟩
    have hread := nodeFromLabel_labelOf m
    rw [hlabel] at hread hdash ⊢
    rw [List.cons_append] at hdash ⊢
    dsimp only
    rw [if_neg (by
      rintro (h | h)
      · exact hc.1 h
      · exact hc.2.1 h), hdash]
    dsimp only
    rw [hread, nodeFromLabel_labelOf]
    rfl
  | remove n =>
    rw [encodeAction_remove]
    dsimp only
    rw [if_pos (Or.inl rfl), nodeFromLabel_labelOf]
    rfl

theorem encodeAction_ne_nil {a : Action} (h : IsBoardAction a) : encodeAction a ≠ [] := by
  intro hnil
  have := decodeAction_encodeAction h
  rw [hnil] at this
  cases this

theorem transformAtomicNotation_eq_ok {text m : Text} :
    transformAtomicNotation text t = .ok m ↔
      ∃ a, decodeAction text = some a ∧ m = encodeAction (transformAction t a) := by
  unfold transformAtomicNotation
  cases hdecode : decodeAction text with
  | none => simp
  | some a =>
    have hne := encodeAction_ne_nil ((decodeAction_isBoardAction hdecode).transform t)
    dsimp only
    rw [if_neg hne, Except.ok.injEq]
    constructor
    · rintro rfl
      exact ⟨a, rfl, rfl⟩
    · rintro ⟨b, hb, rfl⟩
      rw [Option.some.inj hb]

/-! ## One action, or one action and a removal -/

/-- The actions a trimmed notation stands for. -/
inductive ReadsAs : Text → List Action → Prop
  | atomic {text : Text} {a : Action} (hx : 'x' ∉ text) (ha : decodeAction text = some a) :
      ReadsAs text [a]
  | capture {rest : Text} {a : Action} (hx : 'x' ∉ rest)
      (ha : decodeAction ('x' :: rest) = some a) : ReadsAs ('x' :: rest) [a]
  | both {base rest : Text} {a c : Action} (hbase : base ≠ []) (hbx : 'x' ∉ base)
      (ha : decodeAction base = some a) (hx : 'x' ∉ rest)
      (hc : decodeAction ('x' :: rest) = some c) : ReadsAs (base ++ 'x' :: rest) [a, c]

/-- The text of the actions of a turn. -/
def spell (actions : List Action) : Text := actions.flatMap encodeAction

theorem spell_single (a : Action) : spell [a] = encodeAction a := by
  simp [spell]

theorem spell_pair (a c : Action) : spell [a, c] = encodeAction a ++ encodeAction c := by
  simp [spell]

/-- **A transform reads the actions, moves their nodes and writes them.** -/
theorem transformOpeningBookNotation_eq_ok {text m : Text} :
    transformOpeningBookNotation text t.val = .ok m ↔
      ∃ actions, ReadsAs (Text.trim text) actions
        ∧ m = spell (actions.map (transformAction t)) := by
  have hvalid : validateTransform t.val = .ok t := by
    unfold validateTransform
    rw [dif_pos t.isLt]
  unfold transformOpeningBookNotation
  rw [hvalid]
  change (if Text.trim text = [] then _ else _) = _ ↔ _
  constructor
  · intro h
    split at h
    · cases h
    -- the trimmed text is split at its first `x`, as in the source
    · cases hsplit : Text.splitOnce 'x' (Text.trim text) with
      | none =>
        rw [hsplit] at h
        obtain ⟨a, ha, rfl⟩ := transformAtomicNotation_eq_ok.1 h
        exact ⟨[a], .atomic (Text.splitOnce_eq_none.1 hsplit) ha, (spell_single _).symm⟩
      | some parts =>
        obtain ⟨base, rest⟩ := parts
        obtain ⟨htrim, hbx⟩ := Text.splitOnce_eq_some.1 hsplit
        rw [hsplit] at h
        dsimp only at h
        split at h
        · cases h
        · rename_i hrest
          push Not at hrest
          obtain ⟨suffix, hsuffix, h⟩ := Except.bind_ok_iff.1 h
          obtain ⟨c, hc, rfl⟩ := transformAtomicNotation_eq_ok.1 hsuffix
          rw [htrim]
          split at h
          · rename_i hnil
            rw [hnil, List.nil_append]
            exact ⟨[c], .capture hrest.1 hc, by
              rw [List.map_singleton, spell_single]
              exact (Except.ok.inj h).symm⟩
          · rename_i hbase
            obtain ⟨front, hfront, h⟩ := Except.bind_ok_iff.1 h
            obtain ⟨a, ha, rfl⟩ := transformAtomicNotation_eq_ok.1 hfront
            exact ⟨[a, c], .both hbase hbx ha hrest.1 hc, by
              rw [List.map_cons, List.map_singleton, spell_pair]
              exact (Except.ok.inj h).symm⟩
  · rintro ⟨actions, hreads, rfl⟩
    -- the source refuses an empty capture, and no action is read from one
    have hrest : ∀ {rest : Text} {c : Action}, decodeAction ('x' :: rest) = some c → rest ≠ [] := by
      rintro rest c hc rfl
      cases hc
    generalize Text.trim text = trimmed at hreads
    cases hreads with
    | @atomic _ a hx ha =>
      rw [if_neg (by
        rintro rfl
        cases ha), Text.splitOnce_eq_none.2 hx]
      dsimp only
      rw [List.map_singleton, spell_single]
      exact transformAtomicNotation_eq_ok.2 ⟨a, ha, rfl⟩
    | @capture rest a hx ha =>
      have hsplit : Text.splitOnce 'x' ('x' :: rest) = some ([], rest) :=
        Text.splitOnce_eq_some.2 ⟨rfl, List.not_mem_nil⟩
      rw [if_neg (List.cons_ne_nil _ _), hsplit]
      dsimp only
      rw [if_neg (not_or.2 ⟨hx, hrest ha⟩), transformAtomicNotation_eq_ok.2 ⟨a, ha, rfl⟩,
        List.map_singleton, spell_single]
      rfl
    | @both base rest a c hbase hbx ha hx hc =>
      have hsplit : Text.splitOnce 'x' (base ++ 'x' :: rest) = some (base, rest) :=
        Text.splitOnce_eq_some.2 ⟨rfl, hbx⟩
      rw [if_neg (by simp), hsplit]
      dsimp only
      rw [if_neg (not_or.2 ⟨hx, hrest hc⟩), transformAtomicNotation_eq_ok.2 ⟨c, hc, rfl⟩,
        List.map_cons, List.map_singleton, spell_pair]
      change (if base = [] then _ else _) = _
      rw [if_neg hbase, transformAtomicNotation_eq_ok.2 ⟨a, ha, rfl⟩]
      rfl

/-! ## There and back -/

/-- The text of one action stands for it. -/
theorem readsAs_single {a : Action} (h : IsBoardAction a) : ReadsAs (spell [a]) [a] := by
  have hdecode := decodeAction_encodeAction h
  rw [spell_single]
  cases h with
  | place n =>
    rw [encodeAction_place] at hdecode ⊢
    exact .atomic (fun hx => ((plainLabel n).plain 'x' hx).1 rfl) hdecode
  | move m n =>
    rw [encodeAction_move] at hdecode ⊢
    refine .atomic (fun hx => ?_) hdecode
    rcases List.mem_append.1 hx with hx | hx
    · exact ((plainLabel m).plain 'x' hx).1 rfl
    · rcases List.mem_cons.1 hx with hx | hx
      · exact absurd hx (by decide)
      · exact ((plainLabel n).plain 'x' hx).1 rfl
  | remove n =>
    rw [encodeAction_remove] at hdecode ⊢
    exact .capture (fun hx => ((plainLabel n).plain 'x' hx).1 rfl) hdecode

/-- The text of an action and a removal stands for the two. -/
theorem readsAs_pair {a : Action} (h : IsBoardAction a) (hremove : ∀ n, a ≠ removeAction n)
    (n : Node) : ReadsAs (spell [a, removeAction n]) [a, removeAction n] := by
  have hdecode := decodeAction_encodeAction (.remove n)
  rw [encodeAction_remove] at hdecode
  rw [spell_pair, encodeAction_remove]
  refine .both (encodeAction_ne_nil h) ?_ (decodeAction_encodeAction h)
    (fun hx => ((plainLabel n).plain 'x' hx).1 rfl) hdecode
  have hsingle := readsAs_single h
  rw [spell_single] at hsingle
  cases h with
  | place m =>
    rw [encodeAction_place]
    exact fun hx => ((plainLabel m).plain 'x' hx).1 rfl
  | move k m =>
    rw [encodeAction_move] at hsingle ⊢
    intro hx
    rcases List.mem_append.1 hx with hx | hx
    · exact ((plainLabel k).plain 'x' hx).1 rfl
    · rcases List.mem_cons.1 hx with hx | hx
      · exact absurd hx (by decide)
      · exact ((plainLabel m).plain 'x' hx).1 rfl
  | remove m => exact absurd rfl (hremove m)

/-- A removal starts with an `x` of either case. -/
theorem decodeAction_eq_remove {c : Char} {rest : Text} {n : Node}
    (hc : Text.isWhitespace c = false) (h : decodeAction (c :: rest) = some (removeAction n)) :
    c = 'x' ∨ c = 'X' := by
  obtain ⟨rest', htrim⟩ := Text.trim_cons rest hc
  unfold decodeAction at h
  rw [htrim] at h
  dsimp only at h
  split at h
  · rename_i hx
    exact hx
  · split at h
    · obtain ⟨m, -, h⟩ := Option.bind_eq_some_iff.1 h
      obtain ⟨k, -, h⟩ := Option.bind_eq_some_iff.1 h
      have := congrArg Action.kindTag (Option.some.inj h)
      exact absurd this (by simp [moveAction, removeAction, MillActionKind.toI16])
    · obtain ⟨m, -, h⟩ := Option.map_eq_some_iff.1 h
      have := congrArg Action.kindTag h
      exact absurd this (by simp [placeAction, removeAction, MillActionKind.toI16])

/-- A text that starts with `x` can only be a removal. -/
theorem decodeAction_capture {rest : Text} {a : Action} (h : decodeAction ('x' :: rest) = some a) :
    ∃ n, a = removeAction n := by
  obtain ⟨rest', htrim⟩ := Text.trim_cons rest (by decide : Text.isWhitespace 'x' = false)
  unfold decodeAction at h
  rw [htrim] at h
  dsimp only at h
  rw [if_pos (Or.inl rfl)] at h
  obtain ⟨n, -, rfl⟩ := Option.map_eq_some_iff.1 h
  exact ⟨n, rfl⟩

/-- Two removals in one notation; the first is told from the second by its capital letter. -/
def JoinsRemovals (text : Text) : Prop := ∃ rest, Text.trim text = 'X' :: rest ∧ 'x' ∈ rest

/-- The spelling of an image stands for the image. -/
theorem ReadsAs.image {text : Text} {actions : List Action} (h : ReadsAs (Text.trim text) actions)
    (hjoin : ¬JoinsRemovals text) (t : BoardTransform) :
    ReadsAs (spell (actions.map (transformAction t))) (actions.map (transformAction t)) := by
  have hfirst := Text.trim_head text
  unfold JoinsRemovals at hjoin
  generalize Text.trim text = trimmed at h hjoin hfirst
  cases h with
  | @atomic _ a hx ha =>
    exact readsAs_single ((decodeAction_isBoardAction ha).transform t)
  | @capture rest a hx ha =>
    exact readsAs_single ((decodeAction_isBoardAction ha).transform t)
  | @both base rest a c hbase hbx ha hx hc =>
    obtain ⟨n, rfl⟩ := decodeAction_capture hc
    rw [List.map_cons, List.map_singleton, transformAction_remove]
    refine readsAs_pair ((decodeAction_isBoardAction ha).transform t) (fun m hm => ?_) _
    obtain ⟨k, rfl⟩ := (nodePerm t).surjective m
    have hremoval : a = removeAction k :=
      transformAction_injective t (hm.trans (transformAction_remove k).symm)
    obtain ⟨d, front, rfl⟩ := List.exists_cons_of_ne_nil hbase
    rw [hremoval] at ha
    rcases decodeAction_eq_remove (hfirst d _ rfl) ha with rfl | rfl
    · exact hbx List.mem_cons_self
    · exact hjoin ⟨front ++ 'x' :: rest, rfl, by simp⟩

theorem transformAction_inverse {a : Action} (h : IsBoardAction a) (t : BoardTransform) :
    transformAction (inverseOpeningBookTransform t) (transformAction t a)
      = transformAction 0 a := by
  have hback : ∀ n, nodePerm (inverseOpeningBookTransform t) (nodePerm t n) = nodePerm 0 n :=
    fun n => (transform_inverse t n).trans (transform_zero n).symm
  cases h with
  | place n => simp only [transformAction_place, hback]
  | move m n => simp only [transformAction_move, hback]
  | remove n => simp only [transformAction_remove, hback]

theorem ReadsAs.isBoardAction {text : Text} {actions : List Action} (h : ReadsAs text actions) :
    ∀ a ∈ actions, IsBoardAction a := by
  cases h with
  | atomic hx ha =>
    intro b hb
    rw [List.mem_singleton.1 hb]
    exact decodeAction_isBoardAction ha
  | capture hx ha =>
    intro b hb
    rw [List.mem_singleton.1 hb]
    exact decodeAction_isBoardAction ha
  | both hbase hbx ha hx hc =>
    intro b hb
    simp only [List.mem_cons, List.not_mem_nil, or_false] at hb
    rcases hb with rfl | rfl
    · exact decodeAction_isBoardAction ha
    · exact decodeAction_isBoardAction hc

/-- The text of actions of the board is solid, so trimming leaves it. -/
theorem ReadsAs.trim_spell {text : Text} {actions : List Action} (h : ReadsAs text actions)
    (t : BoardTransform) :
    Text.trim (spell (actions.map (transformAction t)))
      = spell (actions.map (transformAction t)) := by
  refine Text.trim_of_solid fun c hc => ?_
  obtain ⟨b, hb, hc⟩ := List.mem_flatMap.1 hc
  obtain ⟨a, ha, rfl⟩ := List.mem_map.1 hb
  exact encodeAction_solid ((h.isBoardAction a ha).transform t) c hc

/-- **A transform and its inverse give the notation back, as the encoder spells it.** -/
theorem transformNotation_there_and_back {text m : Text}
    (h : transformOpeningBookNotation text t.val = .ok m) (hjoin : ¬JoinsRemovals text) :
    ∃ spelled, transformOpeningBookNotation text 0 = .ok spelled
      ∧ transformOpeningBookNotation m (inverseOpeningBookTransform t).val = .ok spelled := by
  obtain ⟨actions, hreads, rfl⟩ := transformOpeningBookNotation_eq_ok.1 h
  refine ⟨_, transformOpeningBookNotation_eq_ok (t := 0).2 ⟨actions, hreads, rfl⟩,
    transformOpeningBookNotation_eq_ok.2 ⟨actions.map (transformAction t), ?_, ?_⟩⟩
  · rw [hreads.trim_spell]
    exact hreads.image hjoin t
  · rw [List.map_map]
    refine congrArg spell (List.map_congr_left fun a ha => ?_)
    exact (transformAction_inverse (hreads.isBoardAction a ha) t).symm

/-! ## Moves the rules can be asked about -/

theorem not_mem_of_nodeFromLabel {label : Text} {n : Node} (h : nodeFromLabel label = some n) :
    'x' ∉ label := by
  unfold nodeFromLabel at h
  split at h
  · rename_i file rank
    have hlabel : labelOf n = [Char.toLower file, rank] := by
      have := List.find?_some h
      exact of_decide_eq_true this
    have hplain := (plainLabel n).plain
    rw [hlabel] at hplain
    intro hx
    simp only [List.mem_cons, List.not_mem_nil, or_false] at hx
    rcases hx with rfl | rfl
    · exact (hplain (Char.toLower 'x') List.mem_cons_self).1 (by decide)
    · exact (hplain 'x' (by simp)).1 rfl
  · cases h

/-- A text the decoder reads has no `x` after its first character. -/
theorem tail_of_decodeAction {text : Text} {a : Action} (h : decodeAction text = some a) :
    ∃ c rest, Text.trim text = c :: rest ∧ 'x' ∉ rest := by
  unfold decodeAction at h
  dsimp only at h
  split at h
  · cases h
  · rename_i c rest htrim
    refine ⟨c, rest, htrim, fun hx => ?_⟩
    have hmem : 'x' ∈ c :: rest := List.mem_cons_of_mem c hx
    split at h
    · obtain ⟨n, hn, -⟩ := Option.map_eq_some_iff.1 h
      exact not_mem_of_nodeFromLabel hn hx
    · rw [htrim] at h
      split at h
      · rename_i source target hsplit
        obtain ⟨m, hm, h⟩ := Option.bind_eq_some_iff.1 h
        obtain ⟨n, hn, -⟩ := Option.bind_eq_some_iff.1 h
        rw [(Text.splitOnce_eq_some.1 hsplit).1] at hmem
        rcases List.mem_append.1 hmem with hmem | hmem
        · exact not_mem_of_nodeFromLabel hm hmem
        · rcases List.mem_cons.1 hmem with hmem | hmem
          · exact absurd hmem (by decide)
          · exact not_mem_of_nodeFromLabel hn hmem
      · obtain ⟨n, hn, -⟩ := Option.map_eq_some_iff.1 h
        exact not_mem_of_nodeFromLabel hn hmem

theorem decodeAction_joined {text base rest : Text} (hbase : base ≠ [])
    (htrim : Text.trim text = base ++ 'x' :: rest) : decodeAction text = none := by
  cases h : decodeAction text with
  | none => rfl
  | some a =>
    obtain ⟨c, tail, hcons, hx⟩ := tail_of_decodeAction h
    obtain ⟨d, front, rfl⟩ := List.exists_cons_of_ne_nil hbase
    rw [hcons, List.cons_append] at htrim
    rw [(List.cons.inj htrim).2] at hx
    exact absurd (by simp) hx

theorem decodeAction_congr {text text' : Text} (h : Text.trim text = Text.trim text') :
    decodeAction text = decodeAction text' := by
  unfold decodeAction
  rw [h]

/-- **The decoder reads the image of a notation as the image of what it reads.** -/
theorem decodeAction_transformed {text m : Text}
    (h : transformOpeningBookNotation text t.val = .ok m) :
    decodeAction m = (decodeAction text).map (transformAction t) := by
  obtain ⟨actions, hreads, rfl⟩ := transformOpeningBookNotation_eq_ok.1 h
  have hspell := hreads.trim_spell t
  have hidem : Text.trim (Text.trim text) = Text.trim text := Text.trim_trim text
  have hsame : decodeAction (Text.trim text) = decodeAction text := decodeAction_congr hidem
  generalize htrim : Text.trim text = trimmed at hreads hsame
  have hsingle : ∀ a, decodeAction trimmed = some a →
      decodeAction (spell ([a].map (transformAction t)))
        = (decodeAction text).map (transformAction t) := by
    intro a ha
    rw [← hsame, ha, List.map_singleton, spell_single,
      decodeAction_encodeAction ((decodeAction_isBoardAction ha).transform t), Option.map_some]
  cases hreads with
  | @atomic _ a hx ha => exact hsingle a ha
  | @capture rest a hx ha => exact hsingle a ha
  | @both base rest a c hbase hbx ha hx hc =>
    obtain ⟨n, rfl⟩ := decodeAction_capture hc
    rw [decodeAction_joined hbase htrim, Option.map_none]
    rw [List.map_cons, List.map_singleton, transformAction_remove, spell_pair,
      encodeAction_remove] at hspell ⊢
    exact decodeAction_joined
      (encodeAction_ne_nil ((decodeAction_isBoardAction ha).transform t)) hspell

end Sanmill
