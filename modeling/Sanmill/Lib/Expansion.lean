import Mathlib.Data.List.Lex
import Mathlib.Data.Set.Card
import Sanmill.Lib.Fallible

/-!
# Trees that are unfolded step by step

A state of an expansion is an end, with a result or an error, or has states below it; working
out what is below may fail as well. `leaves` lists the ends below a state from left to right,
down to a depth, and `gather` collects their results until the first error or until there are
too many. Collecting while the tree is walked is collecting from the list of its leaves.
-/

namespace Sanmill

/-- A tree that is built while it is walked: where it ends, what is below, and the error of a depth
that is used up. -/
structure Expansion (σ ε ρ : Type) where
  finished : σ → Option (Except ε ρ)
  below : σ → Except ε (List σ)
  /-- What is reported where the depth is used up. -/
  cut : ε

namespace Expansion

variable {σ ε ρ : Type} (x : Expansion σ ε ρ)

/-- The ends below a state, from left to right. -/
def leaves : Nat → σ → List (Except ε ρ)
  | n, s =>
    match x.finished s with
    | some result => [result]
    | none =>
      match n with
      | 0 => [.error x.cut]
      | n + 1 =>
        match x.below s with
        | .error e => [.error e]
        | .ok states => states.flatMap (leaves n)

/-- The results in turn, up to the first error; one more than `cap` is the error `full`. -/
def gather (cap : Nat) (full : ε) : List (Except ε ρ) → List ρ → Except ε (List ρ)
  | [], found => .ok found
  | .error e :: _, _ => .error e
  | .ok result :: rest, found =>
    if cap ≤ found.length then .error full else gather cap full rest (found ++ [result])

/-- The walk that collects as it goes. -/
def collect (cap : Nat) (full : ε) : Nat → σ → List ρ → Except ε (List ρ)
  | n, s, found =>
    match x.finished s with
    | some (.error e) => .error e
    | some (.ok result) => if cap ≤ found.length then .error full else .ok (found ++ [result])
    | none =>
      match n with
      | 0 => .error x.cut
      | n + 1 =>
        match x.below s with
        | .error e => .error e
        | .ok states => states.foldlM (fun found s => collect cap full n s found) found

/-- The walk that always takes the first state. -/
def leftmost : Nat → σ → Except ε ρ
  | n, s =>
    match x.finished s with
    | some result => result
    | none =>
      match n with
      | 0 => .error x.cut
      | n + 1 =>
        match x.below s with
        | .error e => .error e
        | .ok [] => .error x.cut
        | .ok (first :: _) => leftmost n first

/-- A way down to a result. -/
inductive Leads : σ → ρ → Prop
  | here {s : σ} {result : ρ} (h : x.finished s = some (.ok result)) : Leads s result
  | step {s next : σ} {states : List σ} {result : ρ} (h : x.finished s = none)
      (hbelow : x.below s = .ok states) (hnext : next ∈ states) (rest : Leads next result) :
      Leads s result

variable {x} {cap n : Nat} {full e : ε} {found results : List ρ} {s : σ} {result : ρ}

/-! ## Collecting from a list -/

theorem gather_cons (result : ρ) (rest : List (Except ε ρ)) :
    gather cap full (.ok result :: rest) found
      = if cap ≤ found.length then .error full else gather cap full rest (found ++ [result]) :=
  rfl

theorem gather_append (xs ys : List (Except ε ρ)) (found : List ρ) :
    gather cap full (xs ++ ys) found
      = gather cap full xs found >>= fun found => gather cap full ys found := by
  induction xs generalizing found with
  | nil => rfl
  | cons end_ rest ih =>
    cases end_ with
    | error e => rfl
    | ok result =>
      rw [List.cons_append, gather_cons, gather_cons]
      by_cases hfull : cap ≤ found.length
      · rw [if_pos hfull, if_pos hfull]
        rfl
      · rw [if_neg hfull, if_neg hfull]
        exact ih _

theorem gather_ok (results : List ρ) (hcap : found.length + results.length ≤ cap) :
    gather cap full (results.map .ok) found = .ok (found ++ results) := by
  induction results generalizing found with
  | nil =>
    rw [List.append_nil]
    rfl
  | cons result rest ih =>
    rw [List.length_cons] at hcap
    rw [List.map_cons, gather_cons, if_neg (by omega),
      ih (by rw [List.length_append, List.length_singleton]; omega),
      List.append_assoc, List.singleton_append]

/-- The leaves are results up to the first error. -/
theorem split_leaves (xs : List (Except ε ρ)) :
    (∃ results : List ρ, xs = results.map .ok)
      ∨ ∃ (results : List ρ) (e : ε) (rest : List (Except ε ρ)),
        xs = results.map .ok ++ .error e :: rest := by
  induction xs with
  | nil => exact .inl ⟨[], rfl⟩
  | cons end_ rest ih =>
    cases end_ with
    | error e => exact .inr ⟨[], e, rest, rfl⟩
    | ok result =>
      rcases ih with ⟨results, rfl⟩ | ⟨results, e, later, rfl⟩
      · exact .inl ⟨result :: results, rfl⟩
      · exact .inr ⟨result :: results, e, later, rfl⟩

theorem gather_full (results : List ρ) (rest : List (Except ε ρ))
    (hcap : cap < found.length + results.length) (hfound : found.length ≤ cap) :
    gather cap full (results.map .ok ++ rest) found = .error full := by
  induction results generalizing found with
  | nil =>
    rw [List.length_nil] at hcap
    omega
  | cons result later ih =>
    rw [List.length_cons] at hcap
    rw [List.map_cons, List.cons_append, gather_cons]
    by_cases hfull : cap ≤ found.length
    · rw [if_pos hfull]
    · rw [if_neg hfull]
      refine ih ?_ ?_
      · rw [List.length_append, List.length_singleton]
        omega
      · rw [List.length_append, List.length_singleton]
        omega

theorem gather_too_many (results : List ρ) (rest : List (Except ε ρ)) (h : ¬results.length ≤ cap) :
    gather cap full (results.map .ok ++ rest) [] = .error full :=
  gather_full results rest (by rw [List.length_nil]; omega) (Nat.zero_le _)

/-- **Everything is collected exactly when every leaf is a result and there are not too many.** -/
theorem gather_eq_ok_iff {xs : List (Except ε ρ)} :
    gather cap full xs [] = .ok results ↔ xs = results.map .ok ∧ results.length ≤ cap := by
  constructor
  · intro h
    rcases split_leaves xs with ⟨all, rfl⟩ | ⟨all, e, rest, rfl⟩
    · by_cases hcap : all.length ≤ cap
      · rw [gather_ok all (by simpa using hcap)] at h
        obtain rfl : all = results := by simpa using h
        exact ⟨rfl, hcap⟩
      · rw [← List.append_nil (List.map Except.ok all), gather_too_many all [] hcap] at h
        cases h
    · by_cases hcap : all.length ≤ cap
      · rw [gather_append, gather_ok all (by simpa using hcap)] at h
        cases h
      · rw [gather_too_many all _ hcap] at h
        cases h
  · intro h
    rw [h.1, gather_ok results (by simpa using h.2), List.nil_append]

/-- An error that is not the bound comes from the first leaf that is none. -/
theorem gather_eq_error_iff {xs : List (Except ε ρ)} (he : e ≠ full) :
    gather cap full xs [] = .error e
      ↔ ∃ (results : List ρ) (rest : List (Except ε ρ)), xs = results.map .ok ++ .error e :: rest
        ∧ results.length ≤ cap := by
  constructor
  · intro h
    rcases split_leaves xs with ⟨all, rfl⟩ | ⟨all, e', rest, rfl⟩
    · by_cases hcap : all.length ≤ cap
      · rw [gather_ok all (by simpa using hcap)] at h
        cases h
      · rw [← List.append_nil (List.map Except.ok all), gather_too_many all [] hcap] at h
        exact absurd (Except.error.inj h).symm he
    · by_cases hcap : all.length ≤ cap
      · rw [gather_append, gather_ok all (by simpa using hcap)] at h
        obtain rfl : e' = e := Except.error.inj h
        exact ⟨all, rest, rfl, hcap⟩
      · rw [gather_too_many all _ hcap] at h
        exact absurd (Except.error.inj h).symm he
  · intro h
    obtain ⟨results, rest, rfl, hcap⟩ := h
    rw [gather_append, gather_ok results (by simpa using hcap)]
    rfl

/-! ## Collecting from a list with an order -/

section

variable {κ : Type} {k : κ} {end_ : Except ε ρ} {xs before after : List (κ × Except ε ρ)}

/-- The labelled leaves are results up to the first error. -/
theorem split_labelled (xs : List (κ × Except ε ρ)) :
    (∀ found ∈ xs, ∃ result, found.2 = .ok result)
      ∨ ∃ before k e after, xs = before ++ (k, .error e) :: after
        ∧ ∀ found ∈ before, ∃ result, found.2 = .ok result := by
  induction xs with
  | nil =>
    refine .inl ?_
    intro found hfound
    cases hfound
  | cons first rest ih =>
    obtain ⟨k, end_⟩ := first
    cases end_ with
    | error e =>
      refine .inr ⟨[], k, e, rest, rfl, ?_⟩
      intro found hfound
      cases hfound
    | ok result =>
      have hfirst : ∀ {later : List (κ × Except ε ρ)},
          (∀ found ∈ later, ∃ result, found.2 = .ok result) →
            ∀ found ∈ (k, .ok result) :: later, ∃ result, found.2 = .ok result := by
        intro later hlater found hfound
        rcases List.mem_cons.1 hfound with rfl | hfound
        · exact ⟨result, rfl⟩
        · exact hlater found hfound
      rcases ih with hall | ⟨before, k', e, after, rfl, hbefore⟩
      · exact .inl (hfirst hall)
      · exact .inr ⟨(k, .ok result) :: before, k', e, after, rfl, hfirst hbefore⟩

theorem map_snd_of_ok (hall : ∀ found ∈ xs, ∃ result, found.2 = .ok result) :
    ∃ results : List ρ, xs.map Prod.snd = results.map .ok ∧ results.length = xs.length := by
  rcases split_leaves (xs.map Prod.snd) with ⟨results, h⟩ | ⟨results, e, rest, h⟩
  · refine ⟨results, h, ?_⟩
    have hlength := congrArg List.length h
    rw [List.length_map, List.length_map] at hlength
    exact hlength.symm
  · have hmem : .error e ∈ xs.map Prod.snd := by
      rw [h]
      exact List.mem_append_right _ List.mem_cons_self
    obtain ⟨found, hfound, he⟩ := List.mem_map.1 hmem
    obtain ⟨result, hresult⟩ := hall found hfound
    cases he.symm.trans hresult

variable [LinearOrder κ]

/-- What comes earlier in the order stands before. -/
theorem mem_before_iff
    (hsorted : (before ++ (k, end_) :: after).Pairwise fun left right => left.1 < right.1)
    {found : κ × Except ε ρ} :
    found ∈ before ++ (k, end_) :: after ∧ found.1 < k ↔ found ∈ before := by
  obtain ⟨-, hrest, hacross⟩ := List.pairwise_append.1 hsorted
  constructor
  · intro h
    obtain ⟨hmem, hlt⟩ := h
    rcases List.mem_append.1 hmem with hbefore | hlater
    · exact hbefore
    · rcases List.mem_cons.1 hlater with rfl | hafter
      · exact absurd hlt (lt_irrefl _)
      · exact absurd (hlt.trans ((List.pairwise_cons.1 hrest).1 found hafter)) (lt_irrefl _)
  · intro h
    exact ⟨List.mem_append_left _ h, hacross found h (k, end_) List.mem_cons_self⟩

theorem encard_before
    (hsorted : (before ++ (k, end_) :: after).Pairwise fun left right => left.1 < right.1)
    (hbefore : ∀ found ∈ before, ∃ result, found.2 = .ok result) :
    {j | j < k ∧ ∃ result, (j, .ok result) ∈ before ++ (k, end_) :: after}.encard
      = before.length := by
  have hset : {j | j < k ∧ ∃ result, (j, .ok result) ∈ before ++ (k, end_) :: after}
      = ((before.map Prod.fst).toFinset : Set κ) := by
    ext j
    rw [Finset.mem_coe, List.mem_toFinset, List.mem_map, Set.mem_ofPred_eq]
    constructor
    · intro h
      obtain ⟨hlt, result, hmem⟩ := h
      exact ⟨(j, .ok result), (mem_before_iff hsorted).1 ⟨hmem, hlt⟩, rfl⟩
    · intro h
      obtain ⟨⟨j, end'⟩, hfound, rfl⟩ := h
      obtain ⟨hmem, hlt⟩ := (mem_before_iff hsorted).2 hfound
      obtain ⟨result, rfl⟩ := hbefore _ hfound
      exact ⟨hlt, result, hmem⟩
  have hnodup : (before.map Prod.fst).Nodup :=
    (List.pairwise_map.2 (List.pairwise_append.1 hsorted).1).imp fun hlt => ne_of_lt hlt
  rw [hset, Set.encard_coe_eq_coe_finsetCard, List.toFinset_card_of_nodup hnodup, List.length_map]

/--
**When an error is not reported**: before each leaf with it there is another error, or there
are more results than allowed.
-/
theorem gather_ne_error_iff (hsorted : xs.Pairwise fun left right => left.1 < right.1)
    (he : e ≠ full) :
    gather cap full (xs.map Prod.snd) [] ≠ .error e
      ↔ ∀ k, (k, .error e) ∈ xs → (∃ j < k, ∃ e', e' ≠ e ∧ (j, .error e') ∈ xs)
        ∨ cap < {j | j < k ∧ ∃ result, (j, .ok result) ∈ xs}.encard := by
  constructor
  · intro hother k hk
    by_contra hneither
    obtain ⟨hearlier, hfew⟩ := not_or.1 hneither
    rcases split_labelled xs with hall | ⟨before, k₀, e₀, after, rfl, hbefore⟩
    · obtain ⟨result, hresult⟩ := hall _ hk
      cases hresult
    · -- the first error stands at `k` or before it
      have hfirst : e₀ = e ∧ k₀ ≤ k := by
        rcases List.mem_append.1 hk with hin | hin
        · obtain ⟨result, hresult⟩ := hbefore _ hin
          cases hresult
        · rcases List.mem_cons.1 hin with heq | hafter
          · cases heq
            exact ⟨rfl, le_refl _⟩
          · have hlt : k₀ < k :=
              (List.pairwise_cons.1 (List.pairwise_append.1 hsorted).2.1).1 _ hafter
            refine ⟨?_, hlt.le⟩
            by_contra hne
            exact hearlier ⟨k₀, hlt, e₀, hne, List.mem_append_right _ List.mem_cons_self⟩
      obtain ⟨rfl, hle⟩ := hfirst
      obtain ⟨results, hresults, hlength⟩ := map_snd_of_ok hbefore
      refine hother ((gather_eq_error_iff he).2 ⟨results, after.map Prod.snd, ?_, ?_⟩)
      · rw [List.map_append, hresults]
        rfl
      · have hmono := Set.encard_le_encard (show
          {j | j < k₀ ∧ ∃ result, (j, .ok result) ∈ before ++ (k₀, .error e₀) :: after}
            ⊆ {j | j < k ∧ ∃ result, (j, .ok result) ∈ before ++ (k₀, .error e₀) :: after} from
          fun j hj => ⟨hj.1.trans_le hle, hj.2⟩)
        rw [encard_before hsorted hbefore] at hmono
        rw [hlength]
        exact ENat.natCast_le_natCast.1 (hmono.trans (not_lt.1 hfew))
  · intro hall hgather
    obtain ⟨results, rest, hxs, hcap⟩ := (gather_eq_error_iff he).1 hgather
    obtain ⟨before, later, rfl, hbefore, hlater⟩ := List.map_eq_append_iff.1 hxs
    obtain ⟨⟨k, end_⟩, after, rfl, hend, -⟩ := List.map_eq_cons_iff.1 hlater
    obtain rfl : end_ = .error e := hend
    have hok : ∀ found ∈ before, ∃ result, found.2 = .ok result := by
      intro found hfound
      have hmem : found.2 ∈ results.map Except.ok := hbefore ▸ List.mem_map_of_mem hfound
      obtain ⟨result, -, heq⟩ := List.mem_map.1 hmem
      exact ⟨result, heq.symm⟩
    rcases hall k (List.mem_append_right _ List.mem_cons_self) with ⟨j, hlt, e', -, hmem⟩ | hmany
    · obtain ⟨result, hresult⟩ := hok _ ((mem_before_iff hsorted).1 ⟨hmem, hlt⟩)
      cases hresult
    · rw [encard_before hsorted hok, ENat.natCast_lt_natCast] at hmany
      have hlength := congrArg List.length hbefore
      rw [List.length_map, List.length_map] at hlength
      omega

end

/-! ## Collecting while walking -/

theorem gather_flatMap (f : σ → List (Except ε ρ)) (states : List σ) (found : List ρ) :
    gather cap full (states.flatMap f) found
      = states.foldlM (fun found s => gather cap full (f s) found) found := by
  induction states generalizing found with
  | nil => rfl
  | cons s rest ih =>
    rw [List.flatMap_cons, gather_append, List.foldlM_cons]
    cases gather cap full (f s) found with
    | error e => rfl
    | ok found => exact ih found

/-- **The walk collects from the leaves.** -/
theorem collect_eq (n : Nat) (s : σ) (found : List ρ) :
    x.collect cap full n s found = gather cap full (x.leaves n s) found := by
  induction n generalizing s found with
  | zero =>
    unfold collect leaves
    cases x.finished s with
    | none => rfl
    | some result =>
      cases result with
      | error e => rfl
      | ok result =>
        show _ = if cap ≤ found.length then .error full else gather cap full [] (found ++ [result])
        rfl
  | succ n ih =>
    unfold collect leaves
    cases x.finished s with
    | none =>
      dsimp only
      cases x.below s with
      | error e => rfl
      | ok states =>
        dsimp only
        rw [gather_flatMap]
        exact congrArg (fun step => states.foldlM step found)
          (funext fun found => funext fun s => ih s found)
    | some result =>
      cases result with
      | error e => rfl
      | ok result => rfl

theorem collect_below (h : x.finished s = none) (found : List ρ) :
    x.collect cap full (n + 1) s found = x.below s >>= fun states =>
      states.foldlM (fun found s => x.collect cap full n s found) found := by
  conv_lhs => unfold collect
  rw [h]
  dsimp only
  cases x.below s with
  | error e => rfl
  | ok states => rfl

theorem leftmost_below (h : x.finished s = none) :
    x.leftmost (n + 1) s = x.below s >>= fun states =>
      match states with
      | [] => .error x.cut
      | first :: _ => x.leftmost n first := by
  conv_lhs => unfold leftmost
  rw [h]
  dsimp only
  cases x.below s with
  | error e => rfl
  | ok states =>
    cases states with
    | nil => rfl
    | cons first rest => rfl

theorem leftmost_of_first {first : σ} {rest : List σ} (h : x.finished s = none)
    (hbelow : x.below s = .ok (first :: rest)) : x.leftmost (n + 1) s = x.leftmost n first := by
  rw [leftmost_below h, hbelow]
  rfl

theorem leftmost_of_error (h : x.finished s = none) (hbelow : x.below s = .error e) :
    x.leftmost (n + 1) s = .error e := by
  rw [leftmost_below h, hbelow]
  rfl

/-- The leftmost walk ends in the first leaf. -/
theorem head?_leaves (hbelow : ∀ s, x.below s ≠ .ok []) (n : Nat) (s : σ) :
    (x.leaves n s).head? = some (x.leftmost n s) := by
  induction n generalizing s with
  | zero =>
    unfold leaves leftmost
    cases x.finished s with
    | none => rfl
    | some result => rfl
  | succ n ih =>
    unfold leaves leftmost
    cases x.finished s with
    | some result => rfl
    | none =>
      dsimp only
      cases h : x.below s with
      | error e => rfl
      | ok states =>
        cases states with
        | nil => exact absurd h (hbelow s)
        | cons first rest =>
          dsimp only
          rw [List.flatMap_cons, List.head?_append, ih first]
          rfl

/-! ## The results are those that are led to -/

theorem leads_of_mem_leaves (h : .ok result ∈ x.leaves n s) : x.Leads s result := by
  induction n generalizing s with
  | zero =>
    unfold leaves at h
    cases hfinished : x.finished s with
    | none =>
      rw [hfinished] at h
      cases List.mem_singleton.1 h
    | some end_ =>
      rw [hfinished] at h
      obtain rfl := List.mem_singleton.1 h
      exact .here hfinished
  | succ n ih =>
    unfold leaves at h
    cases hfinished : x.finished s with
    | some end_ =>
      rw [hfinished] at h
      obtain rfl := List.mem_singleton.1 h
      exact .here hfinished
    | none =>
      rw [hfinished] at h
      cases hbelow : x.below s with
      | error e =>
        rw [hbelow] at h
        cases List.mem_singleton.1 h
      | ok states =>
        rw [hbelow] at h
        obtain ⟨next, hnext, hmem⟩ := List.mem_flatMap.1 h
        exact .step hfinished hbelow hnext (ih hmem)

theorem leaves_of_below {states : List σ} (h : x.finished s = none)
    (hbelow : x.below s = .ok states) :
    x.leaves (n + 1) s = states.flatMap (x.leaves n) := by
  unfold leaves
  rw [h, hbelow]

/-! ## The way to an end -/

/-- Which of the states below is taken in turn, from a state to another. -/
inductive Way (x : Expansion σ ε ρ) : σ → List Nat → σ → Prop
  | here {s : σ} : Way x s [] s
  | down {s next t : σ} {states : List σ} {i : Nat} {way : List Nat} (h : x.finished s = none)
      (hbelow : x.below s = .ok states) (hnext : states[i]? = some next) (rest : Way x next way t) :
      Way x s (i :: way) t

/-- The end that a state is, when `left` steps down are allowed from there. -/
def endAt (x : Expansion σ ε ρ) (left : Nat) (s : σ) : Option (Except ε ρ) :=
  match x.finished s with
  | some result => some result
  | none =>
    match left with
    | 0 => some (.error x.cut)
    | _ + 1 =>
      match x.below s with
      | .error e => some (.error e)
      | .ok _ => none

theorem endAt_of_finished {result : Except ε ρ} (h : x.finished s = some result) :
    x.endAt n s = some result := by
  unfold endAt
  rw [h]

theorem endAt_zero (h : x.finished s = none) : x.endAt 0 s = some (.error x.cut) := by
  unfold endAt
  rw [h]

theorem endAt_succ_iff {end_ : Except ε ρ} (h : x.finished s = none) :
    x.endAt (n + 1) s = some end_ ↔ ∃ e, x.below s = .error e ∧ end_ = .error e := by
  unfold endAt
  rw [h]
  dsimp only
  cases x.below s with
  | error e =>
    constructor
    · intro h
      exact ⟨e, rfl, (Option.some.inj h).symm⟩
    · intro h
      obtain ⟨e', he, rfl⟩ := h
      rw [Except.error.inj he]
  | ok states =>
    constructor
    · intro h
      cases h
    · intro h
      obtain ⟨e, he, -⟩ := h
      cases he

/-- A way down ends with `end_`. -/
def Ends (x : Expansion σ ε ρ) (n : Nat) (s : σ) (way : List Nat) (end_ : Except ε ρ) : Prop :=
  ∃ t, x.Way s way t ∧ way.length ≤ n ∧ x.endAt (n - way.length) t = some end_

/-- The ends below a state, each with the way to it. -/
def ways (x : Expansion σ ε ρ) : Nat → σ → List (List Nat × Except ε ρ)
  | n, s =>
    match x.finished s with
    | some result => [([], result)]
    | none =>
      match n with
      | 0 => [([], .error x.cut)]
      | n + 1 =>
        match x.below s with
        | .error e => [([], .error e)]
        | .ok states =>
          states.zipIdx.flatMap fun taken =>
            (ways x n taken.1).map fun found => (taken.2 :: found.1, found.2)

theorem ways_of_below {states : List σ} (h : x.finished s = none)
    (hbelow : x.below s = .ok states) :
    x.ways (n + 1) s = states.zipIdx.flatMap fun taken =>
      (x.ways n taken.1).map fun found => (taken.2 :: found.1, found.2) := by
  conv_lhs => unfold ways
  rw [h, hbelow]

/-- A state from which nothing leads down. -/
theorem ways_of_end {end_ : Except ε ρ} (h : x.endAt n s = some end_) :
    x.ways n s = [([], end_)] := by
  unfold endAt at h
  unfold ways
  cases hfinished : x.finished s with
  | some result =>
    rw [hfinished] at h
    exact congrArg (fun end_ => [([], end_)]) (Option.some.inj h)
  | none =>
    rw [hfinished] at h
    cases n with
    | zero => exact congrArg (fun end_ => [([], end_)]) (Option.some.inj h)
    | succ m =>
      dsimp only at h ⊢
      cases hbelow : x.below s with
      | error e =>
        rw [hbelow] at h
        exact congrArg (fun end_ => [([], end_)]) (Option.some.inj h)
      | ok states =>
        rw [hbelow] at h
        cases h

theorem endAt_eq_none (h : x.endAt n s = none) :
    ∃ m states, n = m + 1 ∧ x.finished s = none ∧ x.below s = .ok states := by
  unfold endAt at h
  cases hfinished : x.finished s with
  | some result =>
    rw [hfinished] at h
    cases h
  | none =>
    rw [hfinished] at h
    cases n with
    | zero => cases h
    | succ m =>
      dsimp only at h
      cases hbelow : x.below s with
      | error e =>
        rw [hbelow] at h
        cases h
      | ok states => exact ⟨m, states, rfl, rfl, rfl⟩

/-- The leaves are the ends. -/
theorem map_snd_ways (n : Nat) (s : σ) : (x.ways n s).map Prod.snd = x.leaves n s := by
  induction n generalizing s with
  | zero =>
    unfold ways leaves
    cases x.finished s with
    | some result => rfl
    | none => rfl
  | succ n ih =>
    cases hfinished : x.finished s with
    | some result =>
      unfold ways leaves
      rw [hfinished]
      rfl
    | none =>
      cases hbelow : x.below s with
      | error e =>
        unfold ways leaves
        rw [hfinished, hbelow]
        rfl
      | ok states =>
        rw [ways_of_below hfinished hbelow, leaves_of_below hfinished hbelow, List.map_flatMap]
        have hsnd : ∀ taken : σ × Nat, ((x.ways n taken.1).map fun found =>
            (taken.2 :: found.1, found.2)).map Prod.snd = x.leaves n taken.1 := by
          intro taken
          rw [List.map_map, ← ih taken.1]
          rfl
        rw [List.flatMap_congr fun taken _ => hsnd taken, ← List.flatMap_map Prod.fst,
          List.zipIdx_map_fst]

/-- The ends are those of the ways down. -/
theorem mem_ways_iff {way : List Nat} {end_ : Except ε ρ} :
    (way, end_) ∈ x.ways n s ↔ x.Ends n s way end_ := by
  induction way generalizing n s with
  | nil =>
    cases hend : x.endAt n s with
    | some found =>
      rw [ways_of_end hend, List.mem_singleton]
      constructor
      · intro h
        obtain rfl : end_ = found := congrArg Prod.snd h
        exact ⟨s, .here, Nat.zero_le n, hend⟩
      · intro h
        obtain ⟨t, hway, -, ht⟩ := h
        cases hway
        rw [Option.some.inj (hend.symm.trans ht)]
    | none =>
      obtain ⟨m, states, rfl, hfinished, hbelow⟩ := endAt_eq_none hend
      -- the empty way ends only at a stopped state, and here the state is not
      constructor
      · intro h
        rw [ways_of_below hfinished hbelow] at h
        obtain ⟨taken, -, hfound⟩ := List.mem_flatMap.1 h
        obtain ⟨found, -, heq⟩ := List.mem_map.1 hfound
        cases congrArg Prod.fst heq
      · intro h
        obtain ⟨t, hway, -, ht⟩ := h
        cases hway
        cases hend.symm.trans ht
  | cons i way ih =>
    cases hend : x.endAt n s with
    | some found =>
      rw [ways_of_end hend, List.mem_singleton]
      -- a stopped state has no children, so no way goes on from it
      constructor
      · intro h
        cases congrArg Prod.fst h
      · intro h
        obtain ⟨t, hway, hlength, -⟩ := h
        cases hway with
        | down h hbelow _ _ =>
          rw [List.length_cons] at hlength
          obtain ⟨m, rfl⟩ : ∃ m, n = m + 1 := ⟨n - 1, by omega⟩
          unfold endAt at hend
          rw [h, hbelow] at hend
          cases hend
    | none =>
      obtain ⟨m, states, rfl, hfinished, hbelow⟩ := endAt_eq_none hend
      rw [ways_of_below hfinished hbelow]
      constructor
      · intro h
        obtain ⟨⟨next, j⟩, htaken, hfound⟩ := List.mem_flatMap.1 h
        obtain ⟨⟨way', end'⟩, hmem, heq⟩ := List.mem_map.1 hfound
        obtain ⟨⟨rfl, rfl⟩, rfl⟩ : (j = i ∧ way' = way) ∧ end' = end_ := by simpa using heq
        obtain ⟨t, hway, hlength, ht⟩ := ih.1 hmem
        -- one step down costs one of the depth; the rest of the way is the hypothesis at the child
        refine ⟨t, .down hfinished hbelow (List.mem_zipIdx_iff_getElem?.1 htaken) hway, ?_, ?_⟩
        · exact Nat.succ_le_succ hlength
        · rw [List.length_cons, Nat.succ_sub_succ]
          exact ht
      · intro h
        obtain ⟨t, hway, hlength, ht⟩ := h
        cases hway with
        | @down _ next _ states' _ _ _ hbelow' hnext rest =>
          obtain rfl := Except.ok.inj (hbelow.symm.trans hbelow')
          rw [List.length_cons, Nat.succ_sub_succ] at ht
          refine List.mem_flatMap.2 ⟨(next, i), List.mem_zipIdx_iff_getElem?.2 hnext, ?_⟩
          exact List.mem_map.2 ⟨(way, end_),
            ih.2 ⟨t, rest, Nat.le_of_succ_le_succ hlength, ht⟩, rfl⟩

/-- From left to right is in the order of the ways. -/
theorem pairwise_ways (n : Nat) (s : σ) :
    (x.ways n s).Pairwise fun left right => left.1 < right.1 := by
  induction n generalizing s with
  | zero =>
    cases hend : x.endAt 0 s with
    | some end_ =>
      rw [ways_of_end hend]
      exact List.pairwise_singleton _ _
    | none =>
      obtain ⟨m, states, h, -, -⟩ := endAt_eq_none hend
      cases h
  | succ n ih =>
    cases hend : x.endAt (n + 1) s with
    | some end_ =>
      rw [ways_of_end hend]
      exact List.pairwise_singleton _ _
    | none =>
      obtain ⟨m, states, hn, hfinished, hbelow⟩ := endAt_eq_none hend
      rw [ways_of_below hfinished hbelow, List.pairwise_flatMap]
      constructor
      -- two ways through one child are compared by their tails
      · intro taken _
        refine List.pairwise_map.2 ((ih taken.1).imp ?_)
        intro left right hlt
        exact List.cons_lt_cons_self.2 hlt
      -- two ways through different children, by the numbers of these
      · have hsorted : (states.zipIdx.map Prod.snd).Pairwise (· < ·) := by
          rw [List.zipIdx_map_snd]
          exact List.pairwise_lt_range'
        refine (List.pairwise_map.1 hsorted).imp ?_
        intro left right hlt found hfound other hother
        obtain ⟨-, -, rfl⟩ := List.mem_map.1 hfound
        obtain ⟨-, -, rfl⟩ := List.mem_map.1 hother
        exact List.cons_lt_cons_iff.2 (.inl hlt)

/--
**When an error is not reported**, by ways: to the left of each end with it another error is
met, or more results than allowed.
-/
theorem gather_leaves_ne_error_iff (he : e ≠ full) :
    gather cap full (x.leaves n s) [] ≠ .error e
      ↔ ∀ way, x.Ends n s way (.error e) →
        (∃ earlier < way, ∃ e', e' ≠ e ∧ x.Ends n s earlier (.error e'))
          ∨ cap < {earlier | earlier < way ∧ ∃ result, x.Ends n s earlier (.ok result)}.encard := by
  rw [← map_snd_ways, gather_ne_error_iff (pairwise_ways n s) he]
  simp only [mem_ways_iff]

/-- No leaf below the state is an error. -/
def Flawless (x : Expansion σ ε ρ) (n : Nat) (s : σ) : Prop :=
  ∀ end_ ∈ x.leaves n s, ∃ result, end_ = .ok result

/-- Where no leaf is an error, there is something below a state that is not an end. -/
theorem Flawless.below (hall : x.Flawless n s) (h : x.finished s = none) :
    ∃ m states, n = m + 1 ∧ x.below s = .ok states ∧ ∀ next ∈ states, x.Flawless m next := by
  cases n with
  | zero =>
    unfold Flawless leaves at hall
    rw [h] at hall
    obtain ⟨result, hresult⟩ := hall _ (List.mem_singleton_self _)
    cases hresult
  | succ m =>
    cases hbelow : x.below s with
    | error e =>
      unfold Flawless leaves at hall
      rw [h, hbelow] at hall
      obtain ⟨result, hresult⟩ := hall _ (List.mem_singleton_self _)
      cases hresult
    | ok states =>
      refine ⟨m, states, rfl, rfl, ?_⟩
      intro next hnext end_ hend
      apply hall
      rw [leaves_of_below h hbelow]
      exact List.mem_flatMap.2 ⟨next, hnext, hend⟩

/-- Then nothing is cut, and whatever is led to is a leaf. -/
theorem Leads.mem_leaves (hleads : x.Leads s result) (hall : x.Flawless n s) :
    .ok result ∈ x.leaves n s := by
  induction hleads generalizing n with
  | here h =>
    unfold leaves
    rw [h]
    exact List.mem_singleton_self _
  | @step s next states result h hbelow hnext _ ih =>
    obtain ⟨m, states', rfl, hstates, hlater⟩ := hall.below h
    obtain rfl := Except.ok.inj (hstates.symm.trans hbelow)
    rw [leaves_of_below h hbelow]
    exact List.mem_flatMap.2 ⟨next, hnext, ih (hlater next hnext)⟩

theorem flawless_of_gather (h : gather cap full (x.leaves n s) [] = .ok results) :
    x.Flawless n s := by
  intro end_ hend
  rw [(gather_eq_ok_iff.1 h).1] at hend
  obtain ⟨result, -, heq⟩ := List.mem_map.1 hend
  exact ⟨result, heq.symm⟩

/-- **When everything is collected, the results are those that the state leads to.** -/
theorem mem_gathered_iff (h : gather cap full (x.leaves n s) [] = .ok results) (result : ρ) :
    result ∈ results ↔ x.Leads s result := by
  obtain ⟨hleaves, -⟩ := gather_eq_ok_iff.1 h
  have hmem : .ok result ∈ x.leaves n s ↔ result ∈ results := by
    rw [hleaves]
    constructor
    · intro hmem
      obtain ⟨found, hfound, heq⟩ := List.mem_map.1 hmem
      rwa [← Except.ok.inj heq]
    · intro hmem
      exact List.mem_map_of_mem hmem
  rw [← hmem]
  constructor
  · exact leads_of_mem_leaves
  · intro hleads
    exact hleads.mem_leaves (flawless_of_gather h)

end Expansion

end Sanmill
