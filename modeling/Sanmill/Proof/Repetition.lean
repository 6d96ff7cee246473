import Sanmill.Core.Repetition
import Sanmill.Lib.Ring

/-!
# What the repetition tracker counts

As long as the capacity fits the sixteen bits of the tracker's positions, the ring holds the
most recent keys and a push answers whether its key fills the threshold among them. From
65536 slots on the positions overflow within one run.
-/

namespace Sanmill.RepetitionTracker

variable {CAP : Nat}

/-- What the pushes of a run should answer; `pushed` are the keys since the last clear. -/
def expected (THRESHOLD CAP : Nat) : List UInt64 → List TrackerOp → List Bool
  | _, [] => []
  | _, .clear :: rest => expected THRESHOLD CAP [] rest
  | pushed, .push key :: rest =>
    decide (THRESHOLD ≤ ((pushed ++ [key]).rtake CAP).count key)
      :: expected THRESHOLD CAP (pushed ++ [key]) rest

/-! ## The counting loop -/

theorem countLoop_eq {THRESHOLD : Nat} {keys : Vector UInt64 CAP} {key : UInt64}
    {slots : List Nat} {seen : List UInt64}
    (h : List.Forall₂ (fun i k => keys[i]? = some k) slots seen) :
    ∀ {count : Nat}, count < THRESHOLD →
      countLoop THRESHOLD keys key slots count
        = some (decide (THRESHOLD ≤ count + seen.count key)) := by
  induction h with
  | nil =>
    intro count hcount
    have hnot : ¬ THRESHOLD ≤ count + ([] : List UInt64).count key := by simpa using hcount
    rw [countLoop, decide_eq_false hnot]
  | @cons i k slots seen hk hrest ih =>
    intro count hcount
    rw [countLoop, hk]
    show (if (k == key) = true then _ else _) = _
    by_cases hkey : (k == key) = true
    · rw [if_pos hkey, List.count_cons, if_pos hkey]
      by_cases hfull : THRESHOLD ≤ count + 1
      · have hthere : THRESHOLD ≤ count + (seen.count key + 1) := by omega
        rw [if_pos hfull, decide_eq_true hthere]
      · rw [if_neg hfull, ih (by omega)]
        congr 2
        rw [Nat.add_right_comm, Nat.add_assoc]
    · rw [if_neg hkey, ih hcount, List.count_cons, if_neg hkey, Nat.add_zero]

/-- The loop over the populated slots counts the keys in them. -/
theorem countLoop_range {THRESHOLD limit : Nat} {keys : Vector UInt64 CAP} {key : UInt64}
    (hthreshold : 1 ≤ THRESHOLD) (hlimit : limit ≤ CAP) :
    countLoop THRESHOLD keys key (List.range limit) 0
      = some (decide (THRESHOLD ≤ (keys.toList.take limit).count key)) := by
  have hslots : List.Forall₂ (fun i k => keys[i]? = some k) (List.range limit)
      (keys.toList.take limit) := by
    rw [List.forall₂_iff_get]
    refine ⟨by simp [hlimit], ?_⟩
    intro i hi hi'
    rw [List.length_range] at hi
    have hcap : i < CAP := by omega
    simp [hcap]
  rw [countLoop_eq hslots hthreshold, Nat.zero_add]

/-! ## A push -/

/-- The tracker remembers the most recent of the pushed keys. -/
def Tracks (t : RepetitionTracker CAP) (pushed : List UInt64) : Prop :=
  Ring.Holds t.keys.toList t.head.toNat t.len.toNat (pushed.rtake CAP)

theorem tracks_new (hcap : 1 ≤ CAP) : (new CAP).Tracks [] := by
  have hcells : 0 < (new CAP).keys.toList.length := by
    rw [Vector.length_toList]
    exact hcap
  have hempty : ([] : List UInt64).rtake CAP = [] := List.rtake_nil ..
  unfold Tracks
  rw [hempty]
  exact Ring.Holds.empty hcells

theorem Tracks.clear {t : RepetitionTracker CAP} {pushed : List UInt64} (h : t.Tracks pushed) :
    t.clear.Tracks [] := by
  have hcells : 0 < t.keys.toList.length := Nat.lt_of_le_of_lt (Nat.zero_le _) h.head_lt
  have hempty : ([] : List UInt64).rtake CAP = [] := List.rtake_nil ..
  unfold Tracks
  rw [hempty]
  exact Ring.Holds.empty hcells

/-- An addition that stays within sixteen bits. -/
theorem addU16_one (overflowChecks : Bool) {a : UInt16} (h : a.toNat < 65535) :
    addU16 overflowChecks a 1 = some (a + 1) ∧ (a + 1).toNat = a.toNat + 1 := by
  have hone : (1 : UInt16).toNat = 1 := rfl
  refine ⟨?_, ?_⟩
  · unfold addU16
    have hfits : ¬ 65536 ≤ a.toNat + (1 : UInt16).toNat := by omega
    rw [decide_eq_false hfits, Bool.and_false, if_neg Bool.false_ne_true]
  · rw [UInt16.toNat_add, hone, Nat.mod_eq_of_lt (by omega)]

theorem toNat_ofNat_cap (hcap : CAP ≤ 65535) : (UInt16.ofNat CAP).toNat = CAP := by
  rw [UInt16.toNat_ofNat', Nat.mod_eq_of_lt]
  show CAP < 65536
  omega

/-- The write position goes round all slots. -/
theorem advanceHead_eq (overflowChecks : Bool) {head : UInt16} (hcap : CAP ≤ 65535)
    (hhead : head.toNat < CAP) :
    ∃ head', advanceHead overflowChecks (UInt16.ofNat CAP) head = some head'
      ∧ head'.toNat = Ring.next CAP head.toNat := by
  obtain ⟨hadd, hadded⟩ := addU16_one overflowChecks (show head.toNat < 65535 by omega)
  have hcapNat := toNat_ofNat_cap hcap
  refine ⟨if head + 1 = UInt16.ofNat CAP then 0 else head + 1, ?_, ?_⟩
  · unfold advanceHead
    rw [hadd]
    rfl
  · unfold Ring.next
    by_cases hlast : head.toNat + 1 = CAP
    · have heq : head + 1 = UInt16.ofNat CAP := by
        apply UInt16.toNat_inj.1
        omega
      rw [if_pos heq, if_pos hlast]
      rfl
    · have hne : head + 1 ≠ UInt16.ofNat CAP := by
        intro heq
        rw [heq] at hadded
        omega
      rw [if_neg hne, if_neg hlast, hadded]

theorem growLen_eq (overflowChecks : Bool) (len : UInt16) (hcap : CAP ≤ 65535) :
    ∃ len', growLen overflowChecks CAP len = some len'
      ∧ len'.toNat = if len.toNat < CAP then len.toNat + 1 else len.toNat := by
  unfold growLen
  by_cases hroom : len.toNat < CAP
  · obtain ⟨hadd, hadded⟩ := addU16_one overflowChecks (show len.toNat < 65535 by omega)
    exact ⟨len + 1, by rw [if_pos hroom, hadd], by rw [if_pos hroom, hadded]⟩
  · exact ⟨len, by rw [if_neg hroom], by rw [if_neg hroom]⟩

/-- The steps of a push within the slots. -/
theorem push_eq {overflowChecks : Bool} {THRESHOLD : Nat} {t : RepetitionTracker CAP}
    {key : UInt64} {head len : UInt16} (hthreshold : 1 ≤ THRESHOLD)
    (hslot : t.head.toNat < CAP)
    (hhead : advanceHead overflowChecks (UInt16.ofNat CAP) t.head = some head)
    (hlen : growLen overflowChecks CAP t.len = some len) (hlimit : len.toNat ≤ CAP) :
    t.push overflowChecks THRESHOLD key
      = some (decide (THRESHOLD ≤ count ⟨t.keys.set t.head.toNat key, len, head⟩ key),
          ⟨t.keys.set t.head.toNat key, len, head⟩) := by
  unfold push
  rw [dif_pos hslot, hhead, hlen]
  show (countLoop THRESHOLD _ key (List.range len.toNat) 0 >>= _) = _
  rw [countLoop_range hthreshold hlimit]
  rfl

/-- A push writes the key, moves on and counts the key among the most recent ones. -/
theorem push_tracks (overflowChecks : Bool) {THRESHOLD : Nat} {t : RepetitionTracker CAP}
    {pushed : List UInt64} (hthreshold : 1 ≤ THRESHOLD) (hcap : CAP ≤ 65535)
    (h : t.Tracks pushed) (key : UInt64) :
    ∃ t', t.push overflowChecks THRESHOLD key
        = some (decide (THRESHOLD ≤ ((pushed ++ [key]).rtake CAP).count key), t')
      ∧ t'.Tracks (pushed ++ [key]) := by
  have hcells : t.keys.toList.length = CAP := Vector.length_toList
  have hslot : t.head.toNat < CAP := by
    have := h.head_lt
    rwa [hcells] at this
  obtain ⟨head, hhead, hheadNat⟩ :=
    advanceHead_eq overflowChecks hcap hslot
  obtain ⟨len, hlen, hlenNat⟩ := growLen_eq overflowChecks t.len hcap
  -- the cells with head and length are a ring over what was pushed
  have htracks : Tracks ⟨t.keys.set t.head.toNat key, len, head⟩ (pushed ++ [key]) := by
    have hwindow : Ring.Holds t.keys.toList t.head.toNat t.len.toNat
        (pushed.rtake t.keys.toList.length) := by
      rw [hcells]
      exact h
    have hpush := hwindow.push key
    rw [hcells, ← hheadNat, ← hlenNat] at hpush
    have hset : (t.keys.set t.head.toNat key).toList = t.keys.toList.set t.head.toNat key :=
      Vector.toList_set hslot
    unfold Tracks
    rw [hset]
    exact hpush
  have hlimit : len.toNat ≤ CAP := by
    have := htracks.len_le
    rwa [Vector.length_toList] at this
  -- the count runs over all cells in use, in whatever order they lie
  have hcount : count ⟨t.keys.set t.head.toNat key, len, head⟩ key
      = ((pushed ++ [key]).rtake CAP).count key := (Ring.Holds.perm htracks).count_eq key
  refine ⟨_, ?_, htracks⟩
  rw [push_eq hthreshold hslot hhead hlen hlimit, hcount]

/-- A run that begins with a push. -/
theorem run_push {overflowChecks : Bool} {THRESHOLD : Nat} {t t' : RepetitionTracker CAP}
    {key : UInt64} {seen : Bool} (h : t.push overflowChecks THRESHOLD key = some (seen, t'))
    (rest : List TrackerOp) :
    run overflowChecks THRESHOLD (.push key :: rest) t
      = (run overflowChecks THRESHOLD rest t').map fun left => (seen :: left.1, left.2) := by
  rw [run, h]
  show (run overflowChecks THRESHOLD rest t' >>= _) = _
  cases run overflowChecks THRESHOLD rest t' with
  | none => rfl
  | some left => rfl

theorem run_of_tracks {overflowChecks : Bool} {THRESHOLD : Nat} (hthreshold : 1 ≤ THRESHOLD)
    (hcap : CAP ≤ 65535) (ops : List TrackerOp) :
    ∀ {t : RepetitionTracker CAP} {pushed : List UInt64}, t.Tracks pushed →
      (run overflowChecks THRESHOLD ops t).map Prod.fst
        = some (expected THRESHOLD CAP pushed ops) := by
  induction ops with
  | nil =>
    intro t pushed _
    rfl
  | cons op rest ih =>
    intro t pushed h
    cases op with
    | clear => exact ih h.clear
    | push key =>
      obtain ⟨t', hpush, htracks⟩ := push_tracks overflowChecks hthreshold hcap h key
      have hrest := ih htracks
      rw [run_push hpush, Option.map_map, expected, ← Option.map_some, ← hrest, Option.map_map]
      rfl

/-! ## More slots than sixteen bits count -/

section Overflow

variable {THRESHOLD : Nat}

theorem push_checked {t t' : RepetitionTracker CAP} {key : UInt64} {seen : Bool}
    (hthreshold : 1 ≤ THRESHOLD) (hcap : 65536 ≤ CAP)
    (h : t.push true THRESHOLD key = some (seen, t')) :
    t'.len.toNat = t.len.toNat + 1 := by
  have hlen : t.len.toNat < 65536 := t.len.toNat_lt
  have hslot : t.head.toNat < CAP := Nat.lt_of_lt_of_le t.head.toNat_lt hcap
  by_cases hfits : t.len.toNat < 65535
  · obtain ⟨hadd, hadded⟩ := addU16_one true hfits
    have hgrow : growLen true CAP t.len = some (t.len + 1) := by
      unfold growLen
      rw [if_pos (by omega), hadd]
    cases hhead : advanceHead true (UInt16.ofNat CAP) t.head with
    | none =>
      unfold push at h
      rw [dif_pos hslot, hhead] at h
      cases h
    | some head =>
      rw [push_eq hthreshold hslot hhead hgrow (by omega)] at h
      cases h
      exact hadded
  · -- the populated slots fill sixteen bits: the addition panics
    have hgrow : growLen true CAP t.len = none := by
      unfold growLen addU16
      have hover : 65536 ≤ t.len.toNat + (1 : UInt16).toNat := by
        show 65536 ≤ t.len.toNat + 1
        omega
      rw [if_pos (by omega), decide_eq_true hover, Bool.and_true, if_pos rfl]
    unfold push at h
    rw [dif_pos hslot, hgrow] at h
    cases hhead : advanceHead true (UInt16.ofNat CAP) t.head with
    | none =>
      rw [hhead] at h
      cases h
    | some head =>
      rw [hhead] at h
      cases h

/-- With overflow checks, no run gets past 65536 pushes. -/
theorem run_checked {key : UInt64} (hthreshold : 1 ≤ THRESHOLD) (hcap : 65536 ≤ CAP) (n : Nat) :
    ∀ {t : RepetitionTracker CAP}, 65536 ≤ t.len.toNat + n →
      run true THRESHOLD (List.replicate n (.push key)) t = none := by
  induction n with
  | zero =>
    intro t hn
    have := t.len.toNat_lt
    omega
  | succ n ih =>
    intro t hn
    rw [List.replicate_succ]
    cases hpush : t.push true THRESHOLD key with
    | none =>
      rw [run, hpush]
      rfl
    | some left =>
      have hlen := push_checked hthreshold hcap hpush
      rw [run_push hpush, ih (by omega)]
      rfl

/-- Without, the number of populated slots starts again at 0. -/
theorem push_unchecked (t : RepetitionTracker CAP) (key : UInt64)
    (hthreshold : 1 ≤ THRESHOLD) (hcap : 65536 ≤ CAP) :
    ∃ t', t.push false THRESHOLD key
        = some (decide (THRESHOLD ≤ t'.count key), t') ∧ t'.len = t.len + 1 := by
  have hslot : t.head.toNat < CAP := Nat.lt_of_lt_of_le t.head.toNat_lt hcap
  have hroom : t.len.toNat < CAP := Nat.lt_of_lt_of_le t.len.toNat_lt hcap
  have hgrow : growLen false CAP t.len = some (t.len + 1) := by
    unfold growLen
    rw [if_pos hroom]
    rfl
  have hlimit : (t.len + 1).toNat ≤ CAP :=
    Nat.le_of_lt (Nat.lt_of_lt_of_le (t.len + 1).toNat_lt hcap)
  have hhead : advanceHead false (UInt16.ofNat CAP) t.head
      = some (if t.head + 1 = UInt16.ofNat CAP then 0 else t.head + 1) := rfl
  exact ⟨_, push_eq hthreshold hslot hhead hgrow hlimit, rfl⟩

theorem count_lt (t : RepetitionTracker CAP) (key : UInt64) : t.count key < 65536 := by
  unfold count
  have hcount := List.count_le_length (a := key) (l := t.keys.toList.take t.len.toNat)
  have htake := List.length_take_le t.len.toNat t.keys.toList
  have hlen := t.len.toNat_lt
  omega

/-- A tracker whose count never fills the threshold answers as the window does, when the
window never fills it either. -/
theorem run_below (hthreshold : 1 ≤ THRESHOLD) (hcap : 65536 ≤ CAP) (hlarge : CAP < THRESHOLD)
    (ops : List TrackerOp) :
    ∀ (t : RepetitionTracker CAP) (pushed : List UInt64),
      (run false THRESHOLD ops t).map Prod.fst = some (expected THRESHOLD CAP pushed ops) := by
  induction ops with
  | nil =>
    intro t pushed
    rfl
  | cons op rest ih =>
    intro t pushed
    cases op with
    | clear => exact ih t.clear []
    | push key =>
      obtain ⟨t', hpush, -⟩ := push_unchecked t key hthreshold hcap
      have hcode : ¬ THRESHOLD ≤ t'.count key := by
        have := t'.count_lt key
        omega
      have hspec : ¬ THRESHOLD ≤ ((pushed ++ [key]).rtake CAP).count key := by
        have := Ring.count_rtake_le CAP key (pushed ++ [key])
        omega
      have hrest := ih t' (pushed ++ [key])
      rw [run_push hpush, Option.map_map, expected, decide_eq_false hcode, decide_eq_false hspec,
        ← Option.map_some, ← hrest, Option.map_map]
      rfl

/-- The last answer of a run of equal keys is the count in the slots that are left. -/
theorem run_replicate (key : UInt64) (hthreshold : 1 ≤ THRESHOLD) (hcap : 65536 ≤ CAP)
    (n : Nat) :
    ∀ t : RepetitionTracker CAP, ∃ answers t',
      run false THRESHOLD (List.replicate (n + 1) (.push key)) t
          = some (answers ++ [decide (THRESHOLD ≤ t'.count key)], t')
        ∧ t'.len.toNat = (t.len.toNat + (n + 1)) % 65536 := by
  induction n with
  | zero =>
    intro t
    obtain ⟨t', hpush, hlen⟩ := push_unchecked t key hthreshold hcap
    refine ⟨[], t', ?_, ?_⟩
    · show run false THRESHOLD [.push key] t = _
      rw [run_push hpush]
      rfl
    · rw [hlen, UInt16.toNat_add]
      rfl
  | succ n ih =>
    intro t
    obtain ⟨t₁, hpush, hlen⟩ := push_unchecked t key hthreshold hcap
    obtain ⟨answers, t', hrun, hlen'⟩ := ih t₁
    refine ⟨decide (THRESHOLD ≤ t₁.count key) :: answers, t', ?_, ?_⟩
    · rw [List.replicate_succ, run_push hpush, hrun]
      rfl
    · have hone : (1 : UInt16).toNat = 1 := rfl
      rw [hlen', hlen, UInt16.toNat_add, hone]
      omega

end Overflow

/-- The window of a run of equal keys holds as many of them as it has room for. -/
theorem expected_replicate (CAP THRESHOLD : Nat) (key : UInt64) (n : Nat) :
    ∀ k : Nat, ∃ answers,
      expected THRESHOLD CAP (List.replicate k key) (List.replicate (n + 1) (.push key))
        = answers ++ [decide (THRESHOLD ≤ min (k + (n + 1)) CAP)] := by
  have hwindow : ∀ m : Nat, ((List.replicate m key).rtake CAP).count key = min m CAP := by
    intro m
    unfold List.rtake
    rw [List.length_replicate, List.drop_replicate, List.count_replicate_self]
    omega
  induction n with
  | zero =>
    intro k
    refine ⟨[], ?_⟩
    show [_] = _
    rw [← List.replicate_succ', hwindow]
    rfl
  | succ n ih =>
    intro k
    obtain ⟨answers, hanswers⟩ := ih (k + 1)
    refine ⟨decide (THRESHOLD ≤ min (k + 1) CAP) :: answers, ?_⟩
    have hlength : k + 1 + (n + 1) = k + (n + 1 + 1) := by omega
    rw [List.replicate_succ, expected, ← List.replicate_succ', hwindow, hanswers, hlength,
      List.cons_append]

/-- Enough pushes of one key find a threshold within the capacity that is not answered. -/
theorem overflow_answers (overflowChecks : Bool) (THRESHOLD CAP : Nat) (key : UInt64)
    (hthreshold : 1 ≤ THRESHOLD) (hcap : 65536 ≤ CAP)
    (hreach : overflowChecks = true ∨ THRESHOLD ≤ CAP) :
    (run overflowChecks THRESHOLD (List.replicate (max 65536 THRESHOLD) (.push key))
        (new CAP)).map Prod.fst
      ≠ some (expected THRESHOLD CAP [] (List.replicate (max 65536 THRESHOLD) (.push key))) := by
  intro heq
  cases overflowChecks with
  | true =>
    have hpushes : 65536 ≤ (new CAP).len.toNat + max 65536 THRESHOLD := by omega
    rw [run_checked hthreshold hcap _ hpushes] at heq
    cases heq
  | false =>
    have hwithin : THRESHOLD ≤ CAP := by
      rcases hreach with hfalse | hle
      · cases hfalse
      · exact hle
    obtain ⟨n, hn⟩ : ∃ n, max 65536 THRESHOLD = n + 1 := ⟨max 65536 THRESHOLD - 1, by omega⟩
    rw [hn] at heq
    obtain ⟨answers, t', hrun, hlen⟩ :=
      run_replicate key hthreshold hcap n (new CAP)
    obtain ⟨wanted, hwanted⟩ := expected_replicate CAP THRESHOLD key n 0
    have hlists : answers ++ [decide (THRESHOLD ≤ t'.count key)]
        = wanted ++ [decide (THRESHOLD ≤ min (0 + (n + 1)) CAP)] := by
      have hexpected : expected THRESHOLD CAP [] (List.replicate (n + 1) (.push key)) = _ :=
        hwanted
      rw [hrun, hexpected] at heq
      exact Option.some.inj heq
    have hlast := (List.append_inj_right' hlists rfl)
    have hsame : decide (THRESHOLD ≤ t'.count key)
        = decide (THRESHOLD ≤ min (0 + (n + 1)) CAP) := List.head_eq_of_cons_eq hlast
    have hfills : THRESHOLD ≤ min (0 + (n + 1)) CAP := by omega
    rw [decide_eq_true hfills, decide_eq_true_iff] at hsame
    -- either the length has wrapped to 0, or sixteen bits cannot reach the threshold
    by_cases hsmall : THRESHOLD ≤ 65536
    · have hzero : t'.len.toNat = 0 := by
        have hnew : (new CAP).len.toNat = 0 := rfl
        rw [hlen, hnew]
        omega
      have hnone : t'.count key = 0 := by
        unfold count
        rw [hzero, List.take_zero, List.count_nil]
      omega
    · have := t'.count_lt key
      omega

/-! ## The tracker as a whole -/

/-- Every push of every run answers whether its key fills the threshold among the most
recent `CAP` keys, exactly when the capacity fits sixteen bits, or when wrapping positions
cannot matter because the threshold is out of reach. -/
theorem push_counts_recent_iff (overflowChecks : Bool) (THRESHOLD CAP : Nat)
    (hthreshold : 1 ≤ THRESHOLD) (hcap : 1 ≤ CAP) :
    (∀ ops : List TrackerOp, (run overflowChecks THRESHOLD ops (new CAP)).map Prod.fst
        = some (expected THRESHOLD CAP [] ops))
      ↔ CAP ≤ 65535 ∨ (overflowChecks = false ∧ CAP < THRESHOLD) := by
  constructor
  · intro hruns
    by_cases hfits : CAP ≤ 65535
    · exact .inl hfits
    · right
      by_contra hreach
      refine overflow_answers _ _ _ 7 hthreshold (by omega) ?_ (hruns _)
      cases overflowChecks with
      | true => exact .inl rfl
      | false =>
        right
        by_contra hlarge
        exact hreach ⟨rfl, by omega⟩
  · rintro (hfits | ⟨rfl, hlarge⟩) ops
    · exact run_of_tracks hthreshold hfits ops (tracks_new hcap)
    · by_cases hfits : CAP ≤ 65535
      · exact run_of_tracks hthreshold hfits ops (tracks_new hcap)
      · exact run_below hthreshold (by omega) hlarge ops (new CAP) []

theorem push_counts_recent_iff_threefold :
    (∀ ops : List TrackerOp, (run true 3 ops (new 256)).map Prod.fst
        = some (expected 3 256 [] ops))
      ↔ 256 ≤ 65535 ∨ (true = false ∧ 256 < 3) :=
  push_counts_recent_iff true 3 256 (by decide) (by decide)

/-- 65536 pushes of one key into 65536 slots do not fill a threshold of 3. -/
theorem push_misses_repetition :
    ¬ ∀ (overflowChecks : Bool) (THRESHOLD CAP : Nat), 1 ≤ THRESHOLD → 1 ≤ CAP →
      ∀ ops : List TrackerOp, (run overflowChecks THRESHOLD ops (new CAP)).map Prod.fst
        = some (expected THRESHOLD CAP [] ops) := by
  intro hclaim
  exact overflow_answers false 3 65536 7 (by decide)
    (by decide) (.inr (by decide)) (hclaim false 3 65536 (by decide) (by decide) _)

end Sanmill.RepetitionTracker
