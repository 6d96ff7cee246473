import Sanmill.Lib.Numerals
import Mathlib.Data.Nat.BitIndices
import Mathlib.Data.Nat.Factorization.Basic
import Mathlib.Tactic.Ring

/-!
# The next number with as many ones

A number is read as the set of positions of its ones, `popcount` counts them. The
classical word trick (isolate the lowest one, let it ripple through the lowest run of
ones, and put what is left of the run at the bottom) gives the next larger number with
the same count; iterating it below a limit lists all numbers of that count.

A nonzero number is `2^s (2^t - 1) + 2^(s+t+1) h`: `s` zeros, a run of `t` ones, a zero
and the rest. Every step of the trick is computed on that form.
-/

namespace Sanmill.Gosper

/-- The number of ones. -/
def popcount (x : Nat) : Nat := x.bitIndices.length

@[simp] theorem popcount_zero : popcount 0 = 0 := by
  simp [popcount]

@[simp] theorem popcount_two_mul (x : Nat) : popcount (2 * x) = popcount x := by
  simp [popcount]

@[simp] theorem popcount_two_mul_add_one (x : Nat) : popcount (2 * x + 1) = popcount x + 1 := by
  simp [popcount]

/-- A number and its half: the last bit is one of the two. -/
theorem half_cases (x : Nat) :
    (x = 2 * (x / 2) ∧ popcount x = popcount (x / 2)) ∨
      (x = 2 * (x / 2) + 1 ∧ popcount x = popcount (x / 2) + 1) := by
  rcases Nat.mod_two_eq_zero_or_one x with h | h
  · left
    have hx : x = 2 * (x / 2) := by omega
    exact ⟨hx, by rw [hx, popcount_two_mul, ← hx]⟩
  · right
    have hx : x = 2 * (x / 2) + 1 := by omega
    refine ⟨hx, ?_⟩
    have hp := popcount_two_mul_add_one (x / 2)
    rwa [← hx] at hp

/-- Low and high part count separately. -/
theorem popcount_two_pow_mul_add (q : Nat) :
    ∀ (n r : Nat), r < 2 ^ n → popcount (2 ^ n * q + r) = popcount q + popcount r := by
  intro n
  induction n with
  | zero =>
    intro r hr
    have h0 : r = 0 := by simpa using hr
    simp [h0]
  | succ n ih =>
    intro r hr
    rw [Nat.pow_succ] at hr ⊢
    have hlow := ih (r / 2) (by omega)
    rcases half_cases r with ⟨hx, hp⟩ | ⟨hx, hp⟩
    · have hsum : 2 ^ n * 2 * q + r = 2 * (2 ^ n * q + r / 2) := by
        calc 2 ^ n * 2 * q + r = 2 ^ n * 2 * q + 2 * (r / 2) := by rw [← hx]
          _ = 2 * (2 ^ n * q + r / 2) := by ring
      rw [hsum, popcount_two_mul, hlow, hp]
    · have hsum : 2 ^ n * 2 * q + r = 2 * (2 ^ n * q + r / 2) + 1 := by
        calc 2 ^ n * 2 * q + r = 2 ^ n * 2 * q + (2 * (r / 2) + 1) := by rw [← hx]
          _ = 2 * (2 ^ n * q + r / 2) + 1 := by ring
      rw [hsum, popcount_two_mul_add_one, hlow, hp]
      omega

theorem popcount_two_pow_mul (n q : Nat) : popcount (2 ^ n * q) = popcount q := by
  have h := popcount_two_pow_mul_add q n 0 (Nat.two_pow_pos n)
  simpa using h

theorem popcount_two_pow_sub_one (n : Nat) : popcount (2 ^ n - 1) = n := by
  induction n with
  | zero => simp
  | succ n ih =>
    have hpos := Nat.two_pow_pos n
    have hx : 2 ^ (n + 1) - 1 = 2 * (2 ^ n - 1) + 1 := by
      rw [Nat.pow_succ]
      omega
    rw [hx, popcount_two_mul_add_one, ih]

theorem popcount_le : ∀ (n x : Nat), x < 2 ^ n → popcount x ≤ n := by
  intro n
  induction n with
  | zero =>
    intro x hx
    have h0 : x = 0 := by simpa using hx
    simp [h0]
  | succ n ih =>
    intro x hx
    rw [Nat.pow_succ] at hx
    have hlow := ih (x / 2) (by omega)
    rcases half_cases x with ⟨_, hp⟩ | ⟨_, hp⟩ <;> omega

/-- `t` ones are at least the lowest `t` positions. -/
theorem two_pow_popcount_le (x : Nat) : 2 ^ popcount x ≤ x + 1 := by
  induction x using Nat.strongRecOn with
  | ind x ih =>
    rcases Nat.eq_zero_or_pos x with h0 | hpos
    · simp [h0]
    · have hlow := ih (x / 2) (by omega)
      rcases half_cases x with ⟨hx, hp⟩ | ⟨hx, hp⟩
      · rw [hp]
        omega
      · rw [hp, Nat.pow_succ]
        omega

/-- `t` ones below `n` are at most the highest `t` positions below `n`. -/
theorem add_two_pow_sub_popcount_le :
    ∀ (n x : Nat), x < 2 ^ n → x + 2 ^ (n - popcount x) ≤ 2 ^ n := by
  intro n
  induction n with
  | zero =>
    intro x hx
    have h0 : x = 0 := by simpa using hx
    simp [h0]
  | succ n ih =>
    intro x hx
    have hhalf : x / 2 < 2 ^ n := by
      rw [Nat.pow_succ] at hx
      omega
    have hlow := ih (x / 2) hhalf
    have hle := popcount_le n (x / 2) hhalf
    rcases half_cases x with ⟨hx', hp⟩ | ⟨hx', hp⟩
    · have hexp : n + 1 - popcount x = (n - popcount (x / 2)) + 1 := by omega
      rw [hexp, Nat.pow_succ, Nat.pow_succ]
      omega
    · have hexp : n + 1 - popcount x = n - popcount (x / 2) := by omega
      have hpos := Nat.two_pow_pos (n - popcount (x / 2))
      rw [hexp, Nat.pow_succ]
      omega

/-! ## The form of a number -/

/-- `s` zeros, `t` ones, a zero, and `h`. -/
def form (s t h : Nat) : Nat := 2 ^ s * (2 ^ t - 1 + 2 ^ (t + 1) * h)

/-- The next number of as many ones. -/
def succForm (s t h : Nat) : Nat := 2 ^ (s + t) * (2 * h + 1) + (2 ^ (t - 1) - 1)

theorem exists_form {x : Nat} (hx : x ≠ 0) : ∃ s t h, 1 ≤ t ∧ x = form s t h := by
  obtain ⟨s, m, ⟨k, rfl⟩, rfl⟩ := Nat.exists_eq_two_pow_mul_odd hx
  -- the run ends where adding one to the odd part stops carrying
  obtain ⟨t, m, ⟨h, rfl⟩, hm⟩ := Nat.exists_eq_two_pow_mul_odd (n := 2 * k + 1 + 1) (by omega)
  have ht : 1 ≤ t := by
    rcases Nat.eq_zero_or_pos t with h0 | hpos
    · subst h0
      omega
    · exact hpos
  refine ⟨s, t, h, ht, ?_⟩
  have hpos := Nat.two_pow_pos t
  have hsum : 2 ^ t * (2 * h + 1) = 2 ^ (t + 1) * h + 2 ^ t := by
    rw [Nat.pow_succ]
    ring
  rw [form]
  congr 1
  omega

theorem popcount_form (s t h : Nat) : popcount (form s t h) = t + popcount h := by
  have hlt : 2 ^ t - 1 < 2 ^ (t + 1) := by
    have hpos := Nat.two_pow_pos t
    rw [Nat.pow_succ]
    omega
  rw [form, popcount_two_pow_mul, Nat.add_comm (2 ^ t - 1), popcount_two_pow_mul_add _ _ _ hlt,
    popcount_two_pow_sub_one]
  omega

theorem run_le_block (s : Nat) {t : Nat} (ht : 1 ≤ t) : 2 ^ (t - 1) - 1 < 2 ^ (s + t) := by
  have hle : 2 ^ (t - 1) ≤ 2 ^ (s + t) := Nat.pow_le_pow_right (by decide) (by omega)
  have hpos := Nat.two_pow_pos (t - 1)
  omega

theorem popcount_succForm (s : Nat) {t : Nat} (h : Nat) (ht : 1 ≤ t) :
    popcount (succForm s t h) = t + popcount h := by
  rw [succForm, popcount_two_pow_mul_add _ _ _ (run_le_block s ht), popcount_two_pow_sub_one,
    popcount_two_mul_add_one]
  omega

/-- A form, split at the zero above its run. -/
theorem form_add (s t h : Nat) : form s t h + 2 ^ s = 2 ^ (s + t) * (2 * h + 1) := by
  have hpos := Nat.two_pow_pos t
  have hrun : 2 ^ t - 1 + 2 ^ (t + 1) * h + 1 = 2 ^ t * (2 * h + 1) := by
    have hsum : 2 ^ t * (2 * h + 1) = 2 ^ (t + 1) * h + 2 ^ t := by
      rw [Nat.pow_succ]
      ring
    omega
  calc form s t h + 2 ^ s = 2 ^ s * (2 ^ t - 1 + 2 ^ (t + 1) * h + 1) := by
        rw [form]
        ring
    _ = 2 ^ (s + t) * (2 * h + 1) := by
        rw [hrun, Nat.pow_add]
        ring

theorem form_lt_succForm (s t h : Nat) : form s t h < succForm s t h := by
  have hform := form_add s t h
  have hpos := Nat.two_pow_pos s
  rw [succForm]
  omega

/-- Nothing of the same count lies strictly between a form and its successor. -/
theorem succForm_le {s t h z : Nat} (ht : 1 ≤ t) (hz : form s t h < z)
    (hcount : popcount z = t + popcount h) : succForm s t h ≤ z := by
  have hform := form_add s t h
  have hblock := Nat.two_pow_pos (s + t)
  have hrun := run_le_block s ht
  obtain ⟨q, r, hr, rfl⟩ : ∃ q r, r < 2 ^ (s + t) ∧ z = 2 ^ (s + t) * q + r :=
    ⟨z / 2 ^ (s + t), z % 2 ^ (s + t), Nat.mod_lt _ hblock, (Nat.div_add_mod _ _).symm⟩
  rw [popcount_two_pow_mul_add _ _ _ hr] at hcount
  rw [succForm]
  rcases Nat.lt_trichotomy q (2 * h + 1) with hlt | heq | hgt
  · -- the upper part is at most that of the form: the lower part is not large enough
    exfalso
    rcases Nat.lt_or_eq_of_le (Nat.le_of_lt_succ hlt) with hlt' | heq'
    · have hmul : 2 ^ (s + t) * (q + 1) ≤ 2 ^ (s + t) * (2 * h) := Nat.mul_le_mul_left _ hlt'
      have hle : 2 ^ s ≤ 2 ^ (s + t) := Nat.pow_le_pow_right (by decide) (by omega)
      rw [Nat.mul_succ] at hmul
      rw [Nat.mul_succ] at hform
      omega
    · rw [heq', popcount_two_mul] at hcount
      have htop := add_two_pow_sub_popcount_le (s + t) r hr
      have hexp : s + t - popcount r = s := by omega
      rw [hexp] at htop
      rw [heq'] at hz
      rw [Nat.mul_succ] at hform
      omega
  · -- the same upper part as the successor: its lower part is the least of its count
    rw [heq, popcount_two_mul_add_one] at hcount
    have hlow := two_pow_popcount_le r
    have hexp : popcount r = t - 1 := by omega
    rw [hexp] at hlow
    rw [heq]
    omega
  · have hmul : 2 ^ (s + t) * (2 * h + 1 + 1) ≤ 2 ^ (s + t) * q := Nat.mul_le_mul_left _ hgt
    rw [Nat.mul_succ (2 ^ (s + t)) (2 * h + 1)] at hmul
    omega

/-! ## The word trick -/

/-- `x & -x` in `w` bits. -/
theorem and_neg_two_pow_mul_odd {w s k : Nat} (hw : 2 ^ s * (2 * k + 1) < 2 ^ w) :
    2 ^ s * (2 * k + 1) &&& (2 ^ w - 2 ^ s * (2 * k + 1)) = 2 ^ s := by
  have hodd : 2 ^ s * 1 ≤ 2 ^ s * (2 * k + 1) := Nat.mul_le_mul_left _ (by omega)
  have hs : s < w := by
    rw [← Nat.pow_lt_pow_iff_right (a := 2) (by decide)]
    omega
  obtain ⟨n, rfl⟩ : ∃ n, w = s + (n + 1) := ⟨w - s - 1, by omega⟩
  have hk : k < 2 ^ n := by
    have hlt : 2 ^ s * (2 * k + 1) < 2 ^ s * 2 ^ (n + 1) := by rwa [← Nat.pow_add]
    have hlt' := Nat.lt_of_mul_lt_mul_left hlt
    rw [Nat.pow_succ] at hlt'
    omega
  have hneg : 2 ^ (s + (n + 1)) - 2 ^ s * (2 * k + 1) = 2 ^ s * (2 * (2 ^ n - (k + 1)) + 1) := by
    rw [Nat.pow_add, ← Nat.mul_sub]
    congr 1
    rw [Nat.pow_succ]
    omega
  -- above the lowest one the two carry complementary bits
  have hbits : (2 * k + 1) &&& (2 * (2 ^ n - (k + 1)) + 1) = 1 := by
    apply Nat.eq_of_testBit_eq
    intro i
    rcases i with _ | i
    · simp [Nat.testBit_zero]
    · have hlow : (2 * k + 1) / 2 = k := by omega
      have hhigh : (2 * (2 ^ n - (k + 1)) + 1) / 2 = 2 ^ n - (k + 1) := by omega
      rw [Nat.testBit_and, Nat.testBit_succ, Nat.testBit_succ, Nat.testBit_succ, hlow, hhigh,
        Nat.testBit_two_pow_sub_succ hk]
      cases k.testBit i <;> simp
  rw [hneg, Nat.mul_comm (2 ^ s) (2 * k + 1), Nat.mul_comm (2 ^ s), ← Nat.shiftLeft_eq,
    ← Nat.shiftLeft_eq, ← Nat.shiftLeft_and_distrib, hbits, Nat.shiftLeft_eq, Nat.one_mul]

/-- The lowest one of a form. -/
theorem and_neg_form {w s t h : Nat} (ht : 1 ≤ t) (hw : form s t h < 2 ^ w) :
    form s t h &&& (2 ^ w - form s t h) = 2 ^ s := by
  obtain ⟨u, rfl⟩ : ∃ u, t = u + 1 := ⟨t - 1, by omega⟩
  have hodd : form s (u + 1) h = 2 ^ s * (2 * (2 ^ u - 1 + 2 ^ (u + 1) * h) + 1) := by
    have hpos := Nat.two_pow_pos u
    have hrun : 2 ^ (u + 1) - 1 = 2 * (2 ^ u - 1) + 1 := by
      rw [Nat.pow_succ]
      omega
    rw [form, hrun, Nat.pow_succ 2 (u + 1)]
    ring
  rw [hodd] at hw ⊢
  exact and_neg_two_pow_mul_odd hw

/-- Adding the lowest one flips the run and the zero above it. -/
theorem ripple_xor_form (s t h : Nat) :
    (form s t h + 2 ^ s) ^^^ form s t h = 2 ^ s * (2 ^ (t + 1) - 1) := by
  have hpos := Nat.two_pow_pos t
  have hlt : 2 ^ t < 2 ^ (t + 1) := by
    rw [Nat.pow_succ]
    omega
  have hlt' : 2 ^ t - 1 < 2 ^ (t + 1) := by omega
  have hripple : form s t h + 2 ^ s = (2 ^ (t + 1) * h + 2 ^ t) * 2 ^ s := by
    rw [form_add, Nat.pow_add, Nat.pow_succ]
    ring
  have hform : form s t h = (2 ^ (t + 1) * h + (2 ^ t - 1)) * 2 ^ s := by
    rw [form]
    ring
  rw [hripple, hform, ← Nat.shiftLeft_eq, ← Nat.shiftLeft_eq, ← Nat.shiftLeft_xor_distrib,
    Nat.mul_comm (2 ^ s), ← Nat.shiftLeft_eq]
  congr 1
  apply Nat.eq_of_testBit_eq
  intro i
  rw [Nat.testBit_xor, Nat.testBit_two_pow_mul_add _ hlt, Nat.testBit_two_pow_mul_add _ hlt',
    Nat.testBit_two_pow_sub_one]
  by_cases hi : i < t + 1
  · rw [if_pos hi, if_pos hi, Nat.testBit_two_pow, Nat.testBit_two_pow_sub_one]
    by_cases heq : t = i
    · simp [heq]
    · have hlt : i < t := by omega
      simp [heq, hlt, hi]
  · simp [hi]

/-- `(((r ^ x) >> 2) / c) | r` with `c = x & -x` and `r = x + c`. -/
theorem word_succ_form {s t h : Nat} (ht : 1 ≤ t) :
    (((form s t h + 2 ^ s) ^^^ form s t h) >>> 2) / 2 ^ s ||| (form s t h + 2 ^ s) =
      succForm s t h := by
  obtain ⟨u, rfl⟩ : ∃ u, t = u + 1 := ⟨t - 1, by omega⟩
  have hrun : 2 ^ s * (2 ^ (u + 1 + 1) - 1) / 2 ^ 2 / 2 ^ s = 2 ^ u - 1 := by
    have hpos := Nat.two_pow_pos u
    rw [Nat.div_div_eq_div_mul, Nat.mul_comm (2 ^ 2), ← Nat.div_div_eq_div_mul,
      Nat.mul_div_cancel_left _ (Nat.two_pow_pos s), Nat.pow_succ, Nat.pow_succ]
    omega
  rw [ripple_xor_form, Nat.shiftRight_eq_div_pow, hrun, form_add, succForm, Nat.or_comm,
    Nat.two_pow_add_eq_or_of_lt (run_le_block s ht)]
  rfl

/-! ## Iterating below a limit -/

/-- `while x < limit { push(x); x = next(x) }`, for at most `fuel` rounds. -/
def iterateBelow (next : Nat → Nat) (limit : Nat) : Nat → Nat → List Nat
  | 0, _ => []
  | fuel + 1, x => if x < limit then x :: iterateBelow next limit fuel (next x) else []

/-- `next` steps to the least larger member of a class, as far as `limit` can tell. -/
structure StepsThrough (next : Nat → Nat) (limit : Nat) (member : Nat → Prop) : Prop where
  increases : ∀ x, member x → x < limit → x < next x
  stays : ∀ x, member x → x < limit → next x < limit → member (next x)
  least : ∀ x z, member x → x < z → member z → z < limit → next x ≤ z

section Iterate

variable {next : Nat → Nat} {limit : Nat} {member : Nat → Prop}

/-- With fuel for every number up to the limit the loop lists the class from `x` on. -/
theorem StepsThrough.mem_iterateBelow (hnext : StepsThrough next limit member) (fuel : Nat) :
    ∀ x, (x < limit → member x) → limit ≤ x + fuel →
      ∀ z, z ∈ iterateBelow next limit fuel x ↔ member z ∧ x ≤ z ∧ z < limit := by
  induction fuel with
  | zero =>
    intro x _ hfuel z
    simp only [iterateBelow, List.not_mem_nil, false_iff]
    omega
  | succ fuel ih =>
    intro x hx hfuel z
    rw [iterateBelow]
    by_cases hlt : x < limit
    · have hinc := hnext.increases x (hx hlt) hlt
      have hrest := ih (next x) (hnext.stays x (hx hlt) hlt) (by omega) z
      rw [if_pos hlt, List.mem_cons, hrest]
      constructor
      · rintro (rfl | ⟨hz, hle, hzlt⟩)
        · exact ⟨hx hlt, Nat.le_refl _, hlt⟩
        · exact ⟨hz, by omega, hzlt⟩
      · rintro ⟨hz, hle, hzlt⟩
        rcases Nat.lt_or_eq_of_le hle with hxz | hxz
        · exact .inr ⟨hz, hnext.least x z (hx hlt) hxz hz hzlt, hzlt⟩
        · exact .inl hxz.symm
    · rw [if_neg hlt]
      simp only [List.not_mem_nil, false_iff]
      omega

/-- The list ascends. -/
theorem StepsThrough.pairwise_iterateBelow (hnext : StepsThrough next limit member)
    (fuel : Nat) : ∀ x, (x < limit → member x) → limit ≤ x + fuel →
      (iterateBelow next limit fuel x).Pairwise (· < ·) := by
  induction fuel with
  | zero =>
    intro x _ _
    exact List.Pairwise.nil
  | succ fuel ih =>
    intro x hx hfuel
    rw [iterateBelow]
    by_cases hlt : x < limit
    · have hinc := hnext.increases x (hx hlt) hlt
      have hstays := hnext.stays x (hx hlt) hlt
      rw [if_pos hlt]
      refine List.Pairwise.cons ?_ (ih (next x) hstays (by omega))
      intro z hz
      rw [hnext.mem_iterateBelow fuel (next x) hstays (by omega)] at hz
      omega
    · rw [if_neg hlt]
      exact List.Pairwise.nil

end Iterate

end Sanmill.Gosper
