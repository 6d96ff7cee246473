import Sanmill.PerfectDb.SecVal
import Sanmill.Proof.PerfectDb.PlaneCache

/-!
# Accepted tables

The virtual value of a loss is negated before anything is known of it. A table that is
accepted is symmetric, and then tells losses from wins unless both virtual values are zero.
-/

namespace Sanmill.PerfectDb

variable {text : Text} {table : SecValTable} {variant : DatabaseVariant}

/-- The first line of the text has this virtual value of a loss. -/
def LossLineReads (text : Text) (value : Int) : Prop :=
  ∃ line rest, Text.lines text = line :: rest ∧ parseLabelledI16 1 line "virt_loss_val:" = .ok value

/-- The second line has a virtual value of a win. -/
def WinLineReads (text : Text) : Prop :=
  ∃ first line rest value, Text.lines text = first :: line :: rest
    ∧ parseLabelledI16 2 line "virt_win_val:" = .ok value

/-! ## Text -/

/-- A line that reads a labelled number is not blank. -/
theorem trim_ne_nil_of_labelled {line : Text} {lineNumber : Nat} {label : String} {value : Int}
    (hlabel : label.toList ≠ []) (h : parseLabelledI16 lineNumber line label = .ok value) :
    Text.trim line ≠ [] := by
  unfold parseLabelledI16 stripLabel at h
  intro hnil
  rw [hnil] at h
  split at h
  · cases h
  · rename_i value' hsome
    split at hsome
    · rename_i hlead
      have hle := (List.isPrefixOf_iff_prefix.1 hlead).length_le
      exact hlabel (List.eq_nil_of_length_eq_zero (Nat.le_zero.1 hle))
    · cases hsome

theorem numberedLines_eq_cons {line : Text} {rest : List Text}
    (h : Text.lines text = line :: rest) :
    numberedLines text
      = (0, line) :: (rest.zipIdx 1).map fun (line, index) => (index, line) := by
  unfold numberedLines
  rw [h]
  rfl

/-- A text whose first line has a virtual value is not blank. -/
theorem LossLineReads.not_blank {value : Int} (h : LossLineReads text value) :
    (Text.trim text).isEmpty = false := by
  obtain ⟨line, rest, hlines, hline⟩ := h
  have hne := trim_ne_nil_of_labelled (by decide) hline
  rw [List.isEmpty_eq_false_iff]
  intro hblank
  refine hne (Text.trim_eq_nil_iff.2 fun c hc => ?_)
  exact Text.trim_eq_nil_iff.1 hblank c
    (Text.mem_of_mem_lines (by rw [hlines]; exact List.mem_cons_self) hc)

/-! ## Steps that do not panic -/

theorem mapError_ne_panic {ε α : Type} {result : Except ε α} :
    (result.mapError Fault.error : Except (Fault ε) α) ≠ .error .panic := by
  cases result with
  | error e => nofun
  | ok a => nofun

theorem bind_ne_panic {ε α β : Type} {x : Except (Fault ε) α} {f : α → Except (Fault ε) β}
    (hx : x ≠ .error .panic) (hf : ∀ a, x = .ok a → f a ≠ .error .panic) :
    (x >>= f) ≠ .error .panic := by
  cases x with
  | error e =>
    intro h
    exact hx (congrArg Except.error (Except.error.inj h))
  | ok a => exact hf a rfl

theorem parseSectorValue_ne_panic (lineNumber : Nat) (line : Text) :
    parseSectorValue lineNumber line ≠ .error .panic := by
  unfold parseSectorValue
  split
  · refine bind_ne_panic mapError_ne_panic fun white _ => ?_
    refine bind_ne_panic mapError_ne_panic fun black _ => ?_
    refine bind_ne_panic mapError_ne_panic fun whiteHand _ => ?_
    refine bind_ne_panic mapError_ne_panic fun blackHand _ => ?_
    split
    · nofun
    · -- the counts are those that a sector id asserts
      rename_i hcounts
      refine bind_ne_panic mapError_ne_panic fun value _ => ?_
      have hle : white ≤ 12 ∧ black ≤ 12 ∧ whiteHand ≤ 12 ∧ blackHand ≤ 12 := by
        simp only [List.any_cons, List.any_nil, Bool.or_false, Bool.or_eq_true, decide_eq_true_eq,
          not_or, Nat.not_lt] at hcounts
        exact hcounts
      have hnew : SectorId.new white black whiteHand blackHand
          = some ⟨white, black, whiteHand, blackHand⟩ := by
        unfold SectorId.new
        simp [hle]
      rw [hnew]
      nofun
  · nofun

theorem parseSectorValues_ne_panic (countLine rest : Nat) (lines : List NumberedLine)
    (values : List (SectorId × Int)) :
    parseSectorValues countLine rest lines values ≠ .error .panic := by
  induction rest generalizing lines values with
  | zero => nofun
  | succ rest ih =>
    unfold parseSectorValues
    refine bind_ne_panic mapError_ne_panic fun next _ => ?_
    obtain ⟨⟨lineNumber, line⟩, lines⟩ := next
    refine bind_ne_panic (parseSectorValue_ne_panic lineNumber line) fun entry _ => ?_
    dsimp only
    split
    · nofun
    · exact ih lines _

theorem parseSectors_ne_panic (lines : List NumberedLine) (loss win : Int) :
    parseSectors lines loss win ≠ .error .panic := by
  unfold parseSectors
  refine bind_ne_panic mapError_ne_panic fun next _ => ?_
  obtain ⟨⟨countLine, countText⟩, lines⟩ := next
  refine bind_ne_panic mapError_ne_panic fun expectedCount _ => ?_
  refine bind_ne_panic (parseSectorValues_ne_panic _ _ _ _) fun parsed _ => ?_
  dsimp only
  split
  · nofun
  · split
    · nofun
    · nofun

theorem parseSectors_values {lines : List NumberedLine} {loss win : Int}
    (h : parseSectors lines loss win = .ok table) :
    table.virtLossVal = loss ∧ table.virtWinVal = win := by
  unfold parseSectors at h
  obtain ⟨⟨⟨countLine, countText⟩, lines⟩, -, h⟩ := Except.bind_ok_iff.1 h
  obtain ⟨expectedCount, -, h⟩ := Except.bind_ok_iff.1 h
  obtain ⟨⟨values, lines⟩, -, h⟩ := Except.bind_ok_iff.1 h
  dsimp only at h
  split at h
  · cases h
  · split at h
    · cases h
    · obtain rfl := Except.ok.inj h
      exact ⟨rfl, rfl⟩

/-! ## Parsing -/

/-- What the two lines of virtual values say, and what parsing then does. -/
theorem parse_of_lines {loss win : Int} {line winLine : Text} {rest : List Text}
    (hlines : Text.lines text = line :: winLine :: rest)
    (hloss : parseLabelledI16 1 line "virt_loss_val:" = .ok loss)
    (hwin : parseLabelledI16 2 winLine "virt_win_val:" = .ok win) :
    SecValTable.parse text = (do
      let negated ← orPanic (negI16 loss)
      if win ≠ negated then
        .error (.error (.invalidHeader "Perfect DB virtual win/loss values must be symmetric"))
      else parseSectors ((rest.zipIdx 2).map fun (line, index) => (index, line)) loss win) := by
  have hblank := LossLineReads.not_blank ⟨line, winLine :: rest, hlines, hloss⟩
  unfold SecValTable.parse
  rw [hblank, if_neg Bool.false_ne_true, numberedLines_eq_cons hlines]
  show ((parseLabelledI16 1 line "virt_loss_val:").mapError Fault.error >>= _) = _
  rw [hloss]
  show ((parseLabelledI16 2 winLine "virt_win_val:").mapError Fault.error >>= _) = _
  rw [hwin]
  rfl

/-- Either the two lines have virtual values, or parsing ends with an error. -/
theorem parse_cases (text : Text) :
    (∃ e, SecValTable.parse text = .error (.error e))
        ∧ (∀ loss, LossLineReads text loss → ¬ WinLineReads text)
      ∨ ∃ line winLine rest loss win, Text.lines text = line :: winLine :: rest
        ∧ parseLabelledI16 1 line "virt_loss_val:" = .ok loss
        ∧ parseLabelledI16 2 winLine "virt_win_val:" = .ok win := by
  have hnone : ∀ {loss : Int}, LossLineReads text loss → WinLineReads text →
      ∃ line winLine rest loss win, Text.lines text = line :: winLine :: rest
        ∧ parseLabelledI16 1 line "virt_loss_val:" = .ok loss
        ∧ parseLabelledI16 2 winLine "virt_win_val:" = .ok win := by
    rintro loss ⟨line, rest, hlines, hloss⟩ ⟨first, winLine, rest', win, hlines', hwin⟩
    obtain ⟨rfl, rfl⟩ := List.cons.inj (hlines.symm.trans hlines')
    exact ⟨line, winLine, rest', loss, win, hlines, hloss, hwin⟩
  -- the first two lines decide; what follows them is the rest of the table
  by_cases hboth : (∃ loss, LossLineReads text loss) ∧ WinLineReads text
  · obtain ⟨⟨loss, hloss⟩, hwin⟩ := hboth
    exact .inr (hnone hloss hwin)
  · refine .inl ⟨?_, fun loss hloss hwin => hboth ⟨⟨loss, hloss⟩, hwin⟩⟩
    unfold SecValTable.parse
    split
    · exact ⟨_, rfl⟩
    · cases hlines : Text.lines text with
      | nil =>
        have hnumbered : numberedLines text = [] := by
          unfold numberedLines
          rw [hlines]
          rfl
        rw [hnumbered]
        exact ⟨_, rfl⟩
      | cons line rest =>
        rw [numberedLines_eq_cons hlines]
        cases hloss : parseLabelledI16 1 line "virt_loss_val:" with
        | error e =>
          refine ⟨e, ?_⟩
          show ((parseLabelledI16 1 line "virt_loss_val:").mapError Fault.error >>= _) = _
          rw [hloss]
          rfl
        | ok loss =>
          have hread : LossLineReads text loss := ⟨line, rest, hlines, hloss⟩
          cases rest with
          | nil =>
            refine ⟨.missingLine 2 "virt_win_val", ?_⟩
            show ((parseLabelledI16 1 line "virt_loss_val:").mapError Fault.error >>= _) = _
            rw [hloss]
            rfl
          | cons winLine rest =>
            cases hwin : parseLabelledI16 2 winLine "virt_win_val:" with
            | error e =>
              refine ⟨e, ?_⟩
              show ((parseLabelledI16 1 line "virt_loss_val:").mapError Fault.error >>= _) = _
              rw [hloss]
              show ((parseLabelledI16 2 winLine "virt_win_val:").mapError Fault.error >>= _) = _
              rw [hwin]
              rfl
            | ok win =>
              exact absurd ⟨⟨loss, hread⟩, line, winLine, rest, win, hlines, hwin⟩ hboth

/-- An empty file is no table. -/
example : (SecValTable.parse []).toBool = false := by decide +kernel

theorem negI16_eq_some {value negated : Int} (h : negI16 value = some negated) :
    negated = -value := by
  unfold negI16 at h
  split at h
  · cases h
  · exact (Option.some.inj h).symm

theorem LossLineReads.unique {loss loss' : Int} (h : LossLineReads text loss)
    (h' : LossLineReads text loss') : loss = loss' := by
  obtain ⟨line, rest, hlines, hloss⟩ := h
  obtain ⟨line', rest', hlines', hloss'⟩ := h'
  obtain ⟨rfl, -⟩ := List.cons.inj (hlines.symm.trans hlines')
  exact Except.ok.inj (hloss.symm.trans hloss')

theorem parse_panic_iff : SecValTable.parse text = .error .panic
    ↔ LossLineReads text (-32768) ∧ WinLineReads text := by
  rcases parse_cases text with ⟨⟨e, herror⟩, hnot⟩ | ⟨line, winLine, rest, loss, win, hlines,
      hloss, hwin⟩
  · rw [herror]
    constructor
    · intro h
      cases h
    · rintro ⟨hloss, hwin⟩
      exact absurd hwin (hnot _ hloss)
  · have hread : LossLineReads text loss := ⟨line, winLine :: rest, hlines, hloss⟩
    have hwinRead : WinLineReads text := ⟨line, winLine, rest, win, hlines, hwin⟩
    rw [parse_of_lines hlines hloss hwin]
    constructor
    · intro h
      refine ⟨?_, hwinRead⟩
      by_contra hother
      -- only the least `i16` has no negation
      have hne : loss ≠ -32768 := by
        rintro rfl
        exact hother hread
      have hneg : negI16 loss = some (-loss) := if_neg hne
      rw [hneg] at h
      revert h
      show (if _ then _ else _) ≠ _
      split
      · nofun
      · exact parseSectors_ne_panic _ _ _
    · rintro ⟨hmin, -⟩
      obtain rfl := hread.unique hmin
      rfl

/-- An accepted table has the virtual value of the first line, and its negative. -/
theorem parse_values (h : SecValTable.parse text = .ok table) :
    LossLineReads text table.virtLossVal ∧ table.virtWinVal = -table.virtLossVal := by
  rcases parse_cases text with ⟨⟨e, herror⟩, -⟩ | ⟨line, winLine, rest, loss, win, hlines,
      hloss, hwin⟩
  · rw [h] at herror
    cases herror
  · rw [parse_of_lines hlines hloss hwin] at h
    obtain ⟨negated, hnegated, h⟩ := Except.bind_ok_iff.1 h
    split at h
    · cases h
    · rename_i hsymmetric
      obtain ⟨hlossVal, hwinVal⟩ := parseSectors_values h
      rw [not_not] at hsymmetric
      refine ⟨?_, ?_⟩
      · rw [hlossVal]
        exact ⟨line, winLine :: rest, hlines, hloss⟩
      · rw [hwinVal, hlossVal, hsymmetric]
        exact negI16_eq_some (orPanic_eq_ok.1 hnegated)

/-! ## Reading a table -/

theorem field1Size_range (hknown : variant ∈ DatabaseVariant.known) :
    ∃ field1Size, variant.field1Size = some field1Size ∧ 1 ≤ field1Size ∧ field1Size ≤ 15 := by
  refine ⟨_, if_pos hknown, ?_⟩
  split
  · omega
  · omega

theorem validateValueRange_ne_panic {field1Size : Nat} (h : 1 ≤ field1Size ∧ field1Size ≤ 15) :
    table.validateValueRange field1Size ≠ .error .panic := by
  unfold SecValTable.validateValueRange
  rw [if_neg (not_not.2 h)]
  dsimp only
  split
  · nofun
  · nofun

/-- **Reading a table overflows exactly on the least `i16` as the virtual value of a loss, with a
number for the win; an accepted table is symmetric, and no sum denotes both a win and a loss
exactly when the virtual value of a loss is not zero.** -/
theorem secval_iff (text : Text) (hknown : variant ∈ DatabaseVariant.known) :
    (SecValTable.read text variant ≠ .error .panic
        ↔ ¬ (LossLineReads text (-32768) ∧ WinLineReads text))
      ∧ ∀ table, SecValTable.read text variant = .ok table →
        table.virtWinVal = -table.virtLossVal
        ∧ ((∀ eval : DatabaseEval, ¬ (eval.absoluteKey1 = table.virtWinVal
            ∧ eval.absoluteKey1 = table.virtLossVal)) ↔ ¬ LossLineReads text 0) := by
  obtain ⟨field1Size, hsize, hrange⟩ := field1Size_range hknown
  have hread : SecValTable.read text variant = SecValTable.parse text >>= fun table =>
      table.validateValueRange field1Size >>= fun _ => .ok table := by
    unfold SecValTable.read
    rw [hsize]
    rfl
  rw [hread]
  constructor
  · rw [not_iff_not, ← parse_panic_iff]
    constructor
    · intro hpanic
      by_contra hparse
      refine bind_ne_panic hparse (fun table _ => ?_) hpanic
      exact bind_ne_panic (validateValueRange_ne_panic hrange) fun _ _ => nofun
    · intro hpanic
      rw [hpanic]
      rfl
  · intro table htable
    obtain ⟨parsed, hparsed, hafter⟩ := Except.bind_ok_iff.1 htable
    obtain ⟨-, -, heq⟩ := Except.bind_ok_iff.1 hafter
    obtain rfl := Except.ok.inj heq
    obtain ⟨hloss, hwin⟩ := parse_values hparsed
    refine ⟨hwin, ?_⟩
    rw [hwin]
    constructor
    -- with both values zero every raw zero would be a win and a loss at once
    · intro hone hzero
      have hvalue := hloss.unique hzero
      refine hone ⟨⟨0, 0⟩, 0⟩ ?_
      rw [hvalue]
      exact ⟨rfl, rfl⟩
    · rintro hnonzero eval ⟨hwins, hloses⟩
      refine hnonzero ?_
      have hvalue : parsed.virtLossVal = 0 := by omega
      rw [← hvalue]
      exact hloss

/-- The start of a text, for tests. -/
def secvalText (loss win : String) : Text :=
  ("virt_loss_val: " ++ loss ++ "\nvirt_win_val: " ++ win ++ "\n1\n0 0 9 9 21\n").toList

/-- A table of one sector is accepted, and tells losses from wins. -/
theorem secval_oneSector : ∃ table,
    SecValTable.read (secvalText "-299" "299") DatabaseVariant.standard = .ok table
      ∧ ∀ eval : DatabaseEval, ¬ (eval.absoluteKey1 = table.virtWinVal
        ∧ eval.absoluteKey1 = table.virtLossVal) := by
  have hsome : (SecValTable.read (secvalText "-299" "299")
      DatabaseVariant.standard).toOption.isSome := by
    decide +kernel
  cases hread : SecValTable.read (secvalText "-299" "299") DatabaseVariant.standard with
  | error e =>
    rw [hread] at hsome
    cases hsome
  | ok table =>
    have h := ((@secval_iff DatabaseVariant.standard (secvalText "-299" "299") (by decide)).2 table
      hread).2.2
    refine ⟨table, rfl, h ?_⟩
    rintro ⟨line, rest, hlines, hzero⟩
    have hfirst : (Text.lines (secvalText "-299" "299")).head?.map
        (fun line => parseLabelledI16 1 line "virt_loss_val:") = some (.ok (-299)) := by
      decide +kernel
    rw [hlines] at hfirst
    cases hzero.symm.trans (Option.some.inj hfirst)

/-- The least `i16` overflows, and zero is accepted. -/
theorem secval_extremes :
    SecValTable.read (secvalText "-32768" "32767") DatabaseVariant.standard = .error .panic
      ∧ (SecValTable.read (secvalText "0" "0") DatabaseVariant.standard).toOption.map
        (fun table => (table.virtLossVal, table.virtWinVal)) = some (0, 0) := by
  constructor
  · have hlines : Text.lines (secvalText "-32768" "32767")
        = ["virt_loss_val: -32768".toList, "virt_win_val: 32767".toList, "1".toList,
          "0 0 9 9 21".toList] := by
      decide +kernel
    have hparse : SecValTable.parse (secvalText "-32768" "32767") = .error .panic :=
      parse_panic_iff.2 ⟨⟨_, _, hlines, by decide +kernel⟩,
        ⟨_, _, _, 32767, hlines, by decide +kernel⟩⟩
    unfold SecValTable.read
    rw [hparse]
    rfl
  · decide +kernel

end Sanmill.PerfectDb
