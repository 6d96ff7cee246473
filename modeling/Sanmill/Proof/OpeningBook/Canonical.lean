import Sanmill.Proof.OpeningBook.Import
import Sanmill.Proof.OpeningBook.Notation
import Sanmill.Proof.Reach

/-!
# Canonical book positions

The canonical text does not depend on the image it is computed from, the transform
returned with it leads to it, and a move is legal in a text exactly when its image is
legal in the canonical text. The last holds as far as the copied fields allow: the
canonical text has no move counter, and it names last mills and capture targets where
the text did.
-/

namespace Sanmill

open Bits

variable {r : MillRules} {s s' : MillState}

/-! ## Legal book moves -/

/-- A move is legal in a text when its action is legal in the state that is read. -/
theorem legalBookMove_iff {fen token : Text} (hread : setFromFen r.options fen = .ok s) :
    legalBookMove r fen token = true
      ↔ ∃ a, decodeAction token = some a ∧ LegalAction (reloaded r.options s) r.options a := by
  have hlegal : ∀ a, a ∈ r.legalActions (s.encode r.options)
      ↔ LegalAction (reloaded r.options s) r.options a := fun a => by
    rw [mem_legalActions_iff, decode_encode r.options (setFromFen_encodable hread)]
  unfold legalBookMove decodeLegal
  rw [hread]
  dsimp only
  cases decodeAction token with
  | none => simp
  | some a =>
    rw [Option.bind_some, List.find?_isSome]
    constructor
    · rintro ⟨b, hb, hab⟩
      rw [of_decide_eq_true hab] at hb
      exact ⟨a, rfl, (hlegal a).1 hb⟩
    · rintro ⟨b, hab, hb⟩
      obtain rfl := Option.some.inj hab
      exact ⟨a, (hlegal a).2 hb, decide_eq_true rfl⟩

/--
What a position must not record for its canonical text to allow the same moves: a
draw by the move counter, a capture target of the side to move, and, where the rules
restrict repeated mills, a last mill.
-/
structure Settled (options : MillVariantOptions) (s : MillState) : Prop where
  counter : ¬DrawnByCounter s
  captures : captureTargetsOfActive s = 0
  mills : QuietMills options s

theorem legalBookMove_image {fen chars m m' : Text} {tail : List Text}
    (h : BookText fen chars tail) (hread : setFromFen r.options fen = .ok s)
    (hsettled : Settled r.options s) {t : BoardTransform}
    (hm : transformOpeningBookNotation m t.val = .ok m') :
    legalBookMove r (bookText (transformChars t chars) tail) m' = legalBookMove r fen m := by
  obtain ⟨s', hread', himage⟩ := h.setFromFen_image hread t hsettled.mills hsettled.counter
  have hlegal := (himage.reloaded r.options).legalImage hsettled.mills hsettled.captures
  rw [Bool.eq_iff_iff, legalBookMove_iff hread, legalBookMove_iff hread',
    decodeAction_transformed hm]
  constructor
  · rintro ⟨a', ha', hlegal'⟩
    obtain ⟨a, ha, rfl⟩ := Option.map_eq_some_iff.1 ha'
    exact ⟨a, ha, (hlegal.legalAction_iff a).1 hlegal'⟩
  · rintro ⟨a, ha, hlegal'⟩
    refine ⟨transformAction t a, ?_, (hlegal.legalAction_iff a).2 hlegal'⟩
    rw [ha, Option.map_some]

/-! ## The canonical text -/

/--
**Canonical book positions.** For a text the canonicalizer accepts: every image has
the same canonical text, a transform followed by its inverse gives the normalized text,
and the transform returned leads to the canonical text. A move mapped there and back is
the move in the encoder's spelling, unless it joins two removals. In a settled position
a move is legal exactly when its image is legal in the canonical text.
-/
theorem canonicalOpeningBookFen_spec (r : MillRules) {fen canonical : Text} {i : Nat}
    (h : canonicalOpeningBookFen fen = .ok (canonical, i)) :
    (∀ t : BoardTransform, ∃ image normalized,
      transformOpeningBookFen fen t.val = .ok image
        ∧ (∃ j, canonicalOpeningBookFen image = .ok (canonical, j))
        ∧ normalizeOpeningBookFen fen = .ok normalized
        ∧ transformOpeningBookFen image (inverseOpeningBookTransform t).val = .ok normalized)
      ∧ (∃ t : BoardTransform, t.val = i ∧ transformOpeningBookFen fen i = .ok canonical
        ∧ (∀ move image, transformOpeningBookNotation move i = .ok image → ¬JoinsRemovals move →
          ∃ spelled, transformOpeningBookNotation move 0 = .ok spelled
            ∧ transformOpeningBookNotation image (inverseOpeningBookTransform t).val = .ok spelled)
        ∧ ∀ state, setFromFen r.options fen = .ok state → Settled r.options state →
          ∀ move image, transformOpeningBookNotation move i = .ok image →
            legalBookMove r canonical image = legalBookMove r fen move) := by
  obtain ⟨normalized, hnormal, -⟩ := Except.bind_ok_iff.1 h
  obtain ⟨chars, tail, htext, rfl⟩ := normalizeOpeningBookFen_eq_ok.1 hnormal
  obtain ⟨c, u, hcanonical, rfl, hleast⟩ := htext.canonical
  rw [hcanonical] at h
  obtain ⟨rfl, rfl⟩ := Prod.mk.inj (Except.ok.inj h)
  refine ⟨fun t => ⟨_, _, htext.transform t, ?_, htext.normalize, ?_⟩,
    u, rfl, htext.transform u, fun move image hmove hjoin =>
      transformNotation_there_and_back hmove hjoin,
    fun state hread hsettled move image hmove => legalBookMove_image htext hread hsettled hmove⟩
  -- the image has the same set of images, hence the same least one
  · obtain ⟨c', j, hcanonical', -, hleast'⟩ := (htext.image t).canonical
    have hsame : imageTexts (transformChars t chars) (normalTail tail) = imageTexts chars tail := by
      rw [← imageTexts_image htext.length tail t]
      unfold imageTexts
      simp only [bookText_normalTail]
    rw [hsame] at hleast'
    exact ⟨j.val, by rw [hcanonical', hleast'.unique hleast]⟩
  · have := (htext.image t).transform (inverseOpeningBookTransform t)
    rwa [transformChars_inverse t htext.length, bookText_normalTail] at this

/-- A slide out of a mill: the canonical text is the half turn, and both allow the move. -/
theorem canonicalOpeningBookFen_slide :
    ∃ canonical,
      transformOpeningBookFen
          "O*O*O***/@*@*@***/******** w m s 3 0 3 0 0 0 -1 -1 -1 -1 0 0 60 ids:nodes".toList 9
        = .ok canonical
      ∧ legalBookMove ⟨{}, by decide⟩ canonical "g4-g1".toList = true := by
  let fen := "O*O*O***/@*@*@***/******** w m s 3 0 3 0 0 0 -1 -1 -1 -1 0 0 60 ids:nodes".toList
  let canonical :=
    "********/**@*@*@*/**O*O*O* w m s 3 0 3 0 0 0 -1 -1 -1 -1 0 0 60 ids:nodes".toList
  let r : MillRules := ⟨{}, by decide⟩
  have h : canonicalOpeningBookFen fen = .ok (canonical, 9) := by decide +kernel
  obtain ⟨-, t, -, hcanonical, -, hlegal⟩ := canonicalOpeningBookFen_spec r h
  have hsettled : ((setFromFen r.options fen).toOption.any fun s =>
      decide (s.outcomeReason = .ongoing ∧ captureTargetsOfActive s = 0)) = true := by
    decide +kernel
  rcases hread : setFromFen r.options fen with e | s
  · rw [hread] at hsettled
    cases hsettled
  rw [hread] at hsettled
  obtain ⟨hreason, hcaptures⟩ := of_decide_eq_true hsettled
  have hcounter : ¬DrawnByCounter s := by
    rintro (h | h)
    · rw [hreason] at h
      cases h
    · rw [hreason] at h
      cases h
  refine ⟨canonical, hcanonical, ?_⟩
  rw [hlegal s hread ⟨hcounter, hcaptures, Or.inl rfl⟩ "d5-e5".toList _ (by decide +kernel)]
  decide +kernel

/--
A capture target is copied, not moved: the text allows the removal on its target and
the canonical text does not allow the image.
-/
theorem legalBookMove_capture_moved :
    let r : MillRules := ⟨{}, by decide⟩
    let fen :=
      "O*O*O***/@*@*@***/******** w m r 3 0 3 0 1 0 -1 -1 -1 -1 0 0 60 ids:nodes c:w-1-8|b-0-".toList
    ∃ canonical, canonicalOpeningBookFen fen = .ok (canonical, 9)
      ∧ transformOpeningBookNotation "xd6".toList 9 = .ok "xf4".toList
      ∧ legalBookMove r fen "xd6".toList = true
      ∧ legalBookMove r canonical "xf4".toList = false := by
  refine ⟨
    "********/**@*@*@*/**O*O*O* w m r 3 0 3 0 1 0 -1 -1 -1 -1 0 0 60 ids:nodes c:w-1-8|b-0-".toList,
    ?_, ?_, ?_, ?_⟩
  all_goals decide +kernel

end Sanmill
