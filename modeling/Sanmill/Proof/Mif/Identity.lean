import Sanmill.Lib.SortedMap
import Sanmill.Lib.SparseMerkle
import Sanmill.Mif.Identity

/-!
# The root of the repetition history is a sparse Merkle root

The nodes that the loop computes level by level are those of the tree defined from the
root down, so the root depends on the capped counts alone. It determines them as far as
SHA-256 tells apart the inputs that the two computations hash.
-/

namespace Sanmill.Mif

open Std (TreeMap)
open LittleEndian (Byte)
open SparseMerkle

/-! ## Bits of a path -/

theorem isRight_eq (path : Digest) (i : Nat) :
    isRight path i = (byteAt path i).getLsbD (7 - i % 8) := by
  unfold isRight
  have hmask : mask i = BitVec.twoPow 8 (7 - i % 8) := rfl
  have hone : BitVec.twoPow 8 (7 - i % 8) ≠ 0#8 := by
    intro hzero
    have hbit := congrArg (fun x : Byte => x.getLsbD (7 - i % 8)) hzero
    rw [BitVec.getLsbD_twoPow] at hbit
    simp at hbit
    omega
  rw [hmask, BitVec.and_twoPow]
  cases (byteAt path i).getLsbD (7 - i % 8) with
  | true => simpa using hone
  | false => simp

def setBit (path : Digest) (bitIndex : Nat) : Digest :=
  path.setIfInBounds (bitIndex / 8) (byteAt path bitIndex ||| mask bitIndex)

theorem byteAt_set {path : Digest} {i j : Nat} (hi : i < 256) (b : Byte) :
    byteAt (path.setIfInBounds (i / 8) b) j = if i / 8 = j / 8 then b else byteAt path j := by
  unfold byteAt
  have hin : i / 8 < 32 := by omega
  rw [Vector.getElem?_setIfInBounds]
  by_cases hbyte : i / 8 = j / 8
  · rw [if_pos hbyte, if_pos hin, if_pos hbyte]
    rfl
  · rw [if_neg hbyte, if_neg hbyte]

theorem isRight_clearBit {path : Digest} {i j : Nat} (hi : i < 256) :
    isRight (clearBit path i) j = (!decide (i = j) && isRight path j) := by
  rw [isRight_eq, isRight_eq]
  unfold clearBit
  rw [byteAt_set hi]
  have hmask : mask i = BitVec.twoPow 8 (7 - i % 8) := rfl
  by_cases hbyte : i / 8 = j / 8
  · have hsame : byteAt path i = byteAt path j := by
      unfold byteAt
      rw [hbyte]
    have hbit : (7 - i % 8 = 7 - j % 8) ↔ i = j := by omega
    have hlt : 7 - j % 8 < 8 := by omega
    have hlt' : 7 - i % 8 < 8 := by omega
    rw [if_pos hbyte, hsame, hmask, BitVec.getLsbD_and, BitVec.getLsbD_not, BitVec.getLsbD_twoPow,
      decide_eq_true hlt, decide_eq_true hlt', Bool.true_and, Bool.true_and, Bool.and_comm]
    congr 2
    exact decide_eq_decide.2 hbit
  · have hne : i ≠ j := by
      intro heq
      exact hbyte (by rw [heq])
    rw [if_neg hbyte, decide_eq_false hne]
    rfl

theorem isRight_setBit {path : Digest} {i j : Nat} (hi : i < 256) :
    isRight (setBit path i) j = (decide (i = j) || isRight path j) := by
  rw [isRight_eq, isRight_eq]
  unfold setBit
  rw [byteAt_set hi]
  have hmask : mask i = BitVec.twoPow 8 (7 - i % 8) := rfl
  by_cases hbyte : i / 8 = j / 8
  · have hsame : byteAt path i = byteAt path j := by
      unfold byteAt
      rw [hbyte]
    have hbit : (7 - i % 8 = 7 - j % 8) ↔ i = j := by omega
    have hlt' : 7 - i % 8 < 8 := by omega
    rw [if_pos hbyte, hsame, hmask, BitVec.getLsbD_or, BitVec.getLsbD_twoPow,
      decide_eq_true hlt', Bool.true_and, Bool.or_comm]
    congr 1
    exact decide_eq_decide.2 hbit
  · have hne : i ≠ j := by
      intro heq
      exact hbyte (by rw [heq])
    rw [if_neg hbyte, decide_eq_false hne]
    rfl

/-- A path is its bits. -/
theorem path_ext {p q : Digest} (h : ∀ i < 256, isRight p i = isRight q i) : p = q := by
  apply Vector.ext
  intro k hk
  apply BitVec.eq_of_getLsbD_eq
  intro b hb
  have hbit := h (8 * k + (7 - b)) (by omega)
  have hbyte : (8 * k + (7 - b)) / 8 = k := by omega
  have hlow : 7 - (8 * k + (7 - b)) % 8 = b := by omega
  rw [isRight_eq, isRight_eq, hlow] at hbit
  unfold byteAt at hbit
  rw [hbyte] at hbit
  simpa [hk] using hbit

theorem setBit_clearBit {p : Digest} {i : Nat} (hi : i < 256) (h : isRight p i = true) :
    setBit (clearBit p i) i = p := by
  apply path_ext
  intro j hj
  rw [isRight_setBit hi, isRight_clearBit hi]
  by_cases hij : i = j
  · rw [← hij, h, decide_eq_true rfl]
    rfl
  · rw [decide_eq_false hij]
    rfl

theorem clearBit_eq_self {p : Digest} {i : Nat} (hi : i < 256) (h : isRight p i = false) :
    clearBit p i = p := by
  apply path_ext
  intro j hj
  rw [isRight_clearBit hi]
  by_cases hij : i = j
  · rw [← hij, h, Bool.and_false]
  · rw [decide_eq_false hij]
    rfl

theorem clearBit_setBit {p : Digest} {i : Nat} (hi : i < 256) (h : isRight p i = false) :
    clearBit (setBit p i) i = p := by
  apply path_ext
  intro j hj
  rw [isRight_clearBit hi, isRight_setBit hi]
  by_cases hij : i = j
  · rw [← hij, h, decide_eq_true rfl]
    rfl
  · rw [decide_eq_false hij]
    rfl

/-- The subtree of this height at a path fixes the bits above it; those within are clear. -/
def Aligned (height : Nat) (path : Digest) : Prop :=
  height ≤ 256 ∧ ∀ i < 256, 256 ≤ i + height → isRight path i = false

/-- The paths of the repetition tree. -/
def digestSpace : Space Digest where
  right := fun height path => setBit path (255 - height)
  Aligned := Aligned
  aligned_left := by
    intro height path h
    exact ⟨by have := h.1; omega, fun i hi hin => h.2 i hi (by omega)⟩
  aligned_right := by
    intro height path h
    have hheight := h.1
    refine ⟨by omega, ?_⟩
    intro i hi hin
    have hne : 255 - height ≠ i := by omega
    rw [isRight_setBit (by omega), decide_eq_false hne, Bool.false_or]
    exact h.2 i hi (by omega)

theorem aligned_succ_iff {height : Nat} {path : Digest} (h : height < 256) :
    Aligned (height + 1) path ↔ Aligned height path ∧ isRight path (255 - height) = false := by
  constructor
  · intro haligned
    exact ⟨digestSpace.aligned_left haligned, haligned.2 _ (by omega) (by omega)⟩
  · intro hboth
    refine ⟨by omega, ?_⟩
    intro i hi hin
    by_cases hlast : i = 255 - height
    · rw [hlast]
      exact hboth.2
    · exact hboth.1.2 i hi (by omega)

/-- The path all of whose bits are clear. -/
def origin : Digest := Vector.replicate 32 0

theorem isRight_origin {i : Nat} (hi : i < 256) : isRight origin i = false := by
  rw [isRight_eq]
  unfold byteAt origin
  have hin : i / 8 < 32 := by omega
  simp [hin]

theorem aligned_top_iff {path : Digest} : Aligned 256 path ↔ path = origin := by
  constructor
  · intro h
    apply path_ext
    intro i hi
    rw [h.2 i hi (by omega), isRight_origin hi]
  · intro h
    rw [h]
    exact ⟨le_refl _, fun i hi _ => isRight_origin hi⟩

/-- Every path lies below the one with its low bits cleared. -/
theorem exists_aligned_below (q : Digest) {height : Nat} (h : height ≤ 256) :
    ∃ p, Aligned height p ∧ digestSpace.Below height p q := by
  induction height with
  | zero => exact ⟨q, ⟨Nat.zero_le _, fun i hi hin => by omega⟩, .here⟩
  | succ height ih =>
    obtain ⟨p, haligned, hbelow⟩ := ih (by omega)
    have hlast : 255 - height < 256 := by omega
    cases hbit : isRight p (255 - height) with
    | false => exact ⟨p, (aligned_succ_iff h).2 ⟨haligned, hbit⟩, .left hbelow⟩
    | true =>
      refine ⟨clearBit p (255 - height), ?_, .right ?_⟩
      · refine (aligned_succ_iff h).2 ⟨⟨haligned.1, ?_⟩, ?_⟩
        · intro i hi hin
          rw [isRight_clearBit hlast, haligned.2 i hi hin, Bool.and_false]
        · rw [isRight_clearBit hlast, decide_eq_true rfl]
          rfl
      · show digestSpace.Below height (setBit (clearBit p (255 - height)) (255 - height)) q
        rw [setBit_clearBit hlast hbit]
        exact hbelow

theorem below_origin (q : Digest) : digestSpace.Below 256 origin q := by
  obtain ⟨p, haligned, hbelow⟩ := exists_aligned_below q (le_refl 256)
  rwa [aligned_top_iff.1 haligned] at hbelow

/-! ## One round -/

/-- The hashes of the repetition tree. -/
def digestScheme (sha256 : List Byte → Digest) : Scheme (List Byte) Digest where
  hash := sha256
  emptyInput := [0]
  nodeInput := nodeInput

section

variable {sha256 : List Byte → Digest}

/-- What the pairs hold once the nodes of a list are paired: each parent has the nodes at
its two halves. -/
structure Pairs (bitIndex : Nat) (nodes : List (Digest × Digest))
    (parents : TreeMap Digest NodePair) : Prop where
  left : ∀ q d, (parents.getD q (none, none)).1 = some d
    ↔ isRight q bitIndex = false ∧ (q, d) ∈ nodes
  right : ∀ q d, (parents.getD q (none, none)).2 = some d
    ↔ isRight q bitIndex = false ∧ (setBit q bitIndex, d) ∈ nodes
  inhabited : ∀ q : Digest, parents[q]? ≠ some (none, none)

/-- The parent of a node on the left is the node's path; one on the right has its bit set. -/
theorem clearBit_eq_iff {p q : Digest} {i : Nat} (hi : i < 256) :
    clearBit p i = q
      ↔ isRight q i = false ∧ (if isRight p i then p = setBit q i else p = q) := by
  have hclear : isRight (clearBit p i) i = false := by
    rw [isRight_clearBit hi, decide_eq_true rfl]
    rfl
  cases hp : isRight p i with
  | true =>
    rw [if_pos rfl]
    constructor
    · intro heq
      rw [← heq, setBit_clearBit hi hp]
      exact ⟨hclear, rfl⟩
    · rintro ⟨hq, heq⟩
      rw [heq, clearBit_setBit hi hq]
  | false =>
    rw [if_neg Bool.false_ne_true, clearBit_eq_self hi hp]
    constructor
    · intro heq
      rw [← heq]
      exact ⟨hp, rfl⟩
    · intro h
      exact h.2

theorem pairs_append {bitIndex : Nat} (hi : bitIndex < 256) {nodes : List (Digest × Digest)}
    {node : Digest × Digest} (hfresh : node.1 ∉ nodes.map Prod.fst)
    {parents : TreeMap Digest NodePair} (h : Pairs bitIndex nodes parents) :
    Pairs bitIndex (nodes ++ [node])
      (parents.insert (clearBit node.1 bitIndex)
        (if isRight node.1 bitIndex
          then ((parents.getD (clearBit node.1 bitIndex) (none, none)).1, some node.2)
          else (some node.2, (parents.getD (clearBit node.1 bitIndex) (none, none)).2))) := by
  have hnot : ∀ d, (node.1, d) ∉ nodes := by
    intro d hmem
    exact hfresh (List.mem_map.2 ⟨_, hmem, rfl⟩)
  refine ⟨?_, ?_, ?_⟩
  -- the new node is a left child: it fills the left half of its pair and no other
  · intro q d
    rw [Std.TreeMap.getD_insert, List.mem_append, List.mem_singleton]
    by_cases hq : clearBit node.1 bitIndex = q
    · have hq' := (clearBit_eq_iff hi).1 hq
      rw [if_pos (Std.compare_eq_iff_eq.2 hq)]
      cases hside : isRight node.1 bitIndex with
      | true =>
        have hne : (q, d) ≠ node := by
          intro heq
          rw [← heq, hq'.1] at hside
          cases hside
        rw [if_pos rfl, hq, h.left]
        exact ⟨fun hd => ⟨hd.1, .inl hd.2⟩, fun hd => ⟨hd.1, hd.2.resolve_right hne⟩⟩
      | false =>
        rw [hside, if_neg Bool.false_ne_true] at hq'
        rw [if_neg Bool.false_ne_true, Option.some.injEq]
        constructor
        · intro hd
          exact ⟨hq'.1, .inr (Prod.ext hq'.2.symm hd.symm)⟩
        · rintro ⟨-, hmem | heq⟩
          · rw [← hq'.2] at hmem
            exact absurd hmem (hnot d)
          · rw [← heq]
    · rw [if_neg (fun hcmp => hq (Std.compare_eq_iff_eq.1 hcmp)), h.left]
      constructor
      · intro hd
        exact ⟨hd.1, .inl hd.2⟩
      · rintro ⟨hbit, hmem | heq⟩
        · exact ⟨hbit, hmem⟩
        · rw [← heq] at hq
          exact absurd (clearBit_eq_self hi hbit) hq
  -- the same for the right halves
  · intro q d
    rw [Std.TreeMap.getD_insert, List.mem_append, List.mem_singleton]
    by_cases hq : clearBit node.1 bitIndex = q
    · have hq' := (clearBit_eq_iff hi).1 hq
      rw [if_pos (Std.compare_eq_iff_eq.2 hq)]
      cases hside : isRight node.1 bitIndex with
      | true =>
        rw [hside, if_pos rfl] at hq'
        rw [if_pos rfl, Option.some.injEq]
        constructor
        · intro hd
          exact ⟨hq'.1, .inr (Prod.ext hq'.2.symm hd.symm)⟩
        · rintro ⟨-, hmem | heq⟩
          · rw [← hq'.2] at hmem
            exact absurd hmem (hnot d)
          · rw [← heq]
      | false =>
        have hne : (setBit q bitIndex, d) ≠ node := by
          intro heq
          rw [← heq, isRight_setBit hi, decide_eq_true rfl] at hside
          cases hside
        rw [if_neg Bool.false_ne_true, hq, h.right]
        exact ⟨fun hd => ⟨hd.1, .inl hd.2⟩, fun hd => ⟨hd.1, hd.2.resolve_right hne⟩⟩
    · rw [if_neg (fun hcmp => hq (Std.compare_eq_iff_eq.1 hcmp)), h.right]
      constructor
      · intro hd
        exact ⟨hd.1, .inl hd.2⟩
      · rintro ⟨hbit, hmem | heq⟩
        · exact ⟨hbit, hmem⟩
        · rw [← heq] at hq
          exact absurd (clearBit_setBit hi hbit) hq
  -- a pair in the map has at least the half that was just written
  · intro q
    rw [Std.TreeMap.getElem?_insert]
    split
    · intro heq
      split at heq
      · cases congrArg Prod.snd (Option.some.inj heq)
      · cases congrArg Prod.fst (Option.some.inj heq)
    · exact h.inhabited q

theorem pairs_pairNodes {bitIndex : Nat} (hi : bitIndex < 256) (nodes : TreeMap Digest Digest) :
    Pairs bitIndex nodes.toList (pairNodes bitIndex nodes) := by
  have hlist : ∀ list : List (Digest × Digest), (list.map Prod.fst).Nodup →
      Pairs bitIndex list (list.foldl
        (fun parents node =>
          parents.insert (clearBit node.1 bitIndex)
            (if isRight node.1 bitIndex
              then ((parents.getD (clearBit node.1 bitIndex) (none, none)).1, some node.2)
              else (some node.2, (parents.getD (clearBit node.1 bitIndex) (none, none)).2)))
            ∅) := by
    intro list
    induction list using List.reverseRecOn with
    | nil =>
      intro _
      refine ⟨?_, ?_, ?_⟩
      · intro q d
        simp
      · intro q d
        simp
      · intro q
        simp
    | append_singleton list node ih =>
      intro hkeys
      rw [List.map_append, List.nodup_append] at hkeys
      rw [List.foldl_append]
      refine pairs_append hi ?_ (ih hkeys.1)
      intro hmem
      exact hkeys.2.2 _ hmem node.1 (by simp) rfl
  exact hlist nodes.toList (SortedMap.nodup_keys nodes)

/-- One round of the loop records the level above. -/
theorem levelHolds_levelUp {leaf : Digest → Option (List Byte)} {height : Nat}
    (hheight : height < 256) (listing : Listing (Digest × NodePair))
    {nodes : TreeMap Digest Digest}
    (h : LevelHolds (digestScheme sha256) digestSpace leaf height fun p => nodes[p]?) :
    LevelHolds (digestScheme sha256) digestSpace leaf (height + 1) fun p =>
      (levelUp sha256 listing ((digestScheme sha256).emptyAt height) (255 - height) nodes)[p]? := by
  have hi : 255 - height < 256 := by omega
  have hpairs := pairs_pairNodes hi nodes
  have hlisted := listing.perm (pairNodes (255 - height) nodes).toList
  have hkeys : ((listing.list (pairNodes (255 - height) nodes).toList).map Prod.fst).Nodup :=
    (hlisted.map Prod.fst).nodup_iff.2 (SortedMap.nodup_keys _)
  refine h.step ?_
  intro p d
  -- what the loop inserts
  have hinsert : (levelUp sha256 listing ((digestScheme sha256).emptyAt height) (255 - height)
        nodes)[p]? = some d
      ↔ ∃ pair, (pairNodes (255 - height) nodes)[p]? = some pair
        ∧ sha256 (nodeInput (pair.1.getD ((digestScheme sha256).emptyAt height))
            (pair.2.getD ((digestScheme sha256).emptyAt height))) = d := by
    have hcollect : levelUp sha256 listing ((digestScheme sha256).emptyAt height) (255 - height)
          nodes
        = SortedMap.collect ((listing.list (pairNodes (255 - height) nodes).toList).map
            fun entry => (entry.1, sha256
              (nodeInput (entry.2.1.getD ((digestScheme sha256).emptyAt height))
                (entry.2.2.getD ((digestScheme sha256).emptyAt height))))) := by
      unfold levelUp SortedMap.collect
      rw [List.foldl_map]
    have hmapped : ((listing.list (pairNodes (255 - height) nodes).toList).map
        fun entry => (entry.1, sha256
          (nodeInput (entry.2.1.getD ((digestScheme sha256).emptyAt height))
            (entry.2.2.getD ((digestScheme sha256).emptyAt height))))).map Prod.fst
        = (listing.list (pairNodes (255 - height) nodes).toList).map Prod.fst := by
      rw [List.map_map]
      rfl
    rw [hcollect, SortedMap.getElem?_collect (by rw [hmapped]; exact hkeys), List.mem_map]
    constructor
    · rintro ⟨⟨q, pair⟩, hmem, heq⟩
      cases heq
      exact ⟨pair, SortedMap.mem_toList.1 (hlisted.mem_iff.1 hmem), rfl⟩
    · rintro ⟨pair, hpair, heq⟩
      exact ⟨(p, pair), hlisted.mem_iff.2 (SortedMap.mem_toList.2 hpair), by rw [heq]⟩
  -- what a pair holds
  have hchild : ∀ q : Digest, (nodes[q]? ≠ none) → Aligned height q := by
    intro q hq
    obtain ⟨e, he⟩ := Option.ne_none_iff_exists'.1 hq
    exact ((h q e).1 he).1
  have hleft : isRight p (255 - height) = false →
      ((pairNodes (255 - height) nodes).getD p (none, none)).1 = nodes[p]? := by
    intro hp
    apply Option.ext
    intro e
    rw [hpairs.left, SortedMap.mem_toList]
    exact ⟨fun he => he.2, fun he => ⟨hp, he⟩⟩
  have hright : isRight p (255 - height) = false →
      ((pairNodes (255 - height) nodes).getD p (none, none)).2
        = nodes[setBit p (255 - height)]? := by
    intro hp
    apply Option.ext
    intro e
    rw [hpairs.right, SortedMap.mem_toList]
    exact ⟨fun he => he.2, fun he => ⟨hp, he⟩⟩
  show _ ↔ Aligned (height + 1) p
    ∧ (digestScheme sha256).parent height (nodes[p]?, nodes[setBit p (255 - height)]?) = some d
  rw [hinsert, aligned_succ_iff hheight]
  unfold Scheme.parent
  constructor
  · rintro ⟨pair, hpair, hd⟩
    have hgetD : (pairNodes (255 - height) nodes).getD p (none, none) = pair := by
      rw [Std.TreeMap.getD_eq_getD_getElem?, hpair]
      rfl
    have hsome : pair.1.isSome ∨ pair.2.isSome := by
      by_contra hnone
      rw [not_or, Option.not_isSome_iff_eq_none, Option.not_isSome_iff_eq_none] at hnone
      apply hpairs.inhabited p
      rw [hpair]
      exact congrArg some (Prod.ext hnone.1 hnone.2)
    have hbit : isRight p (255 - height) = false := by
      rcases hsome with hside | hside
      · obtain ⟨e, he⟩ := Option.isSome_iff_exists.1 hside
        exact ((hpairs.left p e).1 (by rw [hgetD]; exact he)).1
      · obtain ⟨e, he⟩ := Option.isSome_iff_exists.1 hside
        exact ((hpairs.right p e).1 (by rw [hgetD]; exact he)).1
    have hl : pair.1 = nodes[p]? := by rw [← hleft hbit, hgetD]
    have hr : pair.2 = nodes[setBit p (255 - height)]? := by rw [← hright hbit, hgetD]
    rw [hl, hr] at hd hsome
    have haligned : Aligned height p := by
      rcases hsome with hside | hside
      · exact hchild p (Option.ne_none_iff_isSome.2 hside)
      · have hset := hchild _ (Option.ne_none_iff_isSome.2 hside)
        refine ⟨hset.1, ?_⟩
        intro i hi' hin
        have hbits := hset.2 i hi' hin
        rw [isRight_setBit hi, Bool.or_eq_false_iff] at hbits
        exact hbits.2
    refine ⟨⟨haligned, hbit⟩, ?_⟩
    rw [if_pos hsome]
    exact congrArg some hd
  · rintro ⟨⟨-, hbit⟩, hparent⟩
    split at hparent
    · rename_i hsome
      refine ⟨(pairNodes (255 - height) nodes).getD p (none, none), ?_, ?_⟩
      · rw [Std.TreeMap.getD_eq_getD_getElem?]
        cases hentry : (pairNodes (255 - height) nodes)[p]? with
        | some pair => rfl
        | none =>
          have hgetD : (pairNodes (255 - height) nodes).getD p (none, none) = (none, none) := by
            rw [Std.TreeMap.getD_eq_getD_getElem?, hentry]
            rfl
          rw [← hleft hbit, ← hright hbit, hgetD] at hsome
          rcases hsome with hside | hside <;> cases hside
      · rw [hleft hbit, hright hbit]
        exact Option.some.inj hparent
    · cases hparent

/-! ## All rounds -/

theorem emptyHashes_eq : emptyHashes sha256
    = (List.range 257).map (digestScheme sha256).emptyAt := by
  have hfold : ∀ n : Nat, (List.range n).foldl
      (fun values height => values
        ++ [sha256 (nodeInput (values.getD height (sha256 [0])) (values.getD height (sha256 [0])))])
      [sha256 [0]] = (List.range (n + 1)).map (digestScheme sha256).emptyAt := by
    intro n
    induction n with
    | zero => rfl
    | succ n ih =>
      rw [List.range_succ, List.foldl_append, ih, List.range_succ (n := n + 1), List.map_append]
      have hlast : ((List.range (n + 1)).map (digestScheme sha256).emptyAt).getD n (sha256 [0])
          = (digestScheme sha256).emptyAt n := by
        simp
      show _ ++ [_] = _ ++ [_]
      rw [hlast]
      rfl
  exact hfold 256

/-- The nodes after the first rounds. -/
theorem levelHolds_levelsUp {leaf : Digest → Option (List Byte)}
    (listing : Nat → Listing (Digest × NodePair)) {leaves : TreeMap Digest Digest}
    (h : LevelHolds (digestScheme sha256) digestSpace leaf 0 fun p => leaves[p]?) :
    LevelHolds (digestScheme sha256) digestSpace leaf 256 fun p =>
      (levelsUp sha256 listing leaves)[p]? := by
  have hrounds : ∀ n ≤ 256, LevelHolds (digestScheme sha256) digestSpace leaf n fun p =>
      ((List.range n).foldl
        (fun nodes height => levelUp sha256 (listing height)
          ((digestScheme sha256).emptyAt height) (255 - height) nodes) leaves)[p]? := by
    intro n
    induction n with
    | zero =>
      intro _
      exact h
    | succ n ih =>
      intro hn
      rw [List.range_succ, List.foldl_append]
      exact levelHolds_levelUp (by omega) (listing n) (ih (by omega))
  have hlevels : ((emptyHashes sha256).take 256).zipIdx
      = (List.range 256).map fun height => ((digestScheme sha256).emptyAt height, height) := by
    rw [emptyHashes_eq, ← List.map_take, List.take_range]
    apply List.ext_getElem
    · simp
    · intro i hi hi'
      simp
  unfold levelsUp
  rw [hlevels, List.foldl_map]
  exact hrounds 256 (le_refl _)

/-- The node that is left is the root of the tree. -/
theorem head_levelsUp {leaf : Digest → Option (List Byte)}
    (listing : Nat → Listing (Digest × NodePair)) {leaves : TreeMap Digest Digest}
    (h : LevelHolds (digestScheme sha256) digestSpace leaf 0 fun p => leaves[p]?) :
    ((levelsUp sha256 listing leaves).toList.head?.map Prod.snd).getD
        ((emptyHashes sha256).getD 256 (sha256 [0]))
      = (digestScheme sha256).root digestSpace leaf 256 origin := by
  -- at the top only the origin is aligned, so the list has at most one entry
  have htop := levelHolds_levelsUp listing h
  have hempty : (emptyHashes sha256).getD 256 (sha256 [0])
      = (digestScheme sha256).emptyAt 256 := by
    rw [emptyHashes_eq]
    simp
  cases hlist : (levelsUp sha256 listing leaves).toList with
  | nil =>
    have hnone : (levelsUp sha256 listing leaves)[origin]? = none := by
      cases hentry : (levelsUp sha256 listing leaves)[origin]? with
      | none => rfl
      | some d =>
        have hmem := SortedMap.mem_toList.2 hentry
        rw [hlist] at hmem
        cases hmem
    have hroot := htop.getD_eq (p := origin) (aligned_top_iff.2 rfl)
    rw [hnone] at hroot
    rw [hempty]
    exact hroot
  | cons node rest =>
    have hmem : (node.1, node.2) ∈ (levelsUp sha256 listing leaves).toList := by
      rw [hlist]
      exact List.mem_cons_self
    have hnode := (htop node.1 node.2).1 (SortedMap.mem_toList.1 hmem)
    have horigin : node.1 = origin := aligned_top_iff.1 hnode.1
    show node.2 = _
    rw [hnode.2.2, horigin]

end

/-! ## What the history counts -/

section

variable (sha256 : List Byte → Digest) (jcsBytes : Json → List Byte)

/-- The canonical text of the observation of an entry. -/
def keyBytes (entry : Json) : Option (List Byte) := (entry.get "key").map jcsBytes

/-- How often an observation occurs, capped; `none` for one that does not occur. -/
def keyCount (history : List Json) (threshold : UInt64) (bytes : List Byte) : Option Nat :=
  if history.countP (fun entry => keyBytes jcsBytes entry = some bytes) = 0 then none
  else some (min (history.countP fun entry => keyBytes jcsBytes entry = some bytes)
    threshold.toNat)

/-- The leaf map of the history: from digests of observations to capped counts. -/
def leafMap (history : List Json) (threshold : UInt64) (path : Digest) : Option Nat :=
  if history.countP (fun entry => (keyBytes jcsBytes entry).map sha256 = some path) = 0 then none
  else some (min (history.countP fun entry => (keyBytes jcsBytes entry).map sha256 = some path)
    threshold.toNat)

/-- The inputs of the leaves. -/
def leafInputs (history : List Json) (threshold : UInt64) (path : Digest) : Option (List Byte) :=
  (leafMap sha256 jcsBytes history threshold path).map (leafInput path)

/-- The root of the sparse Merkle tree of 256 levels over the leaf map. -/
def merkleRoot (history : List Json) (threshold : UInt64) : Digest :=
  (digestScheme sha256).root digestSpace (leafInputs sha256 jcsBytes history threshold) 256 origin

/-- Everything that is hashed for the root of a history. -/
def hashed (history : List Json) (threshold : UInt64) : Set (List Byte) :=
  {bytes | ∃ entry ∈ history, keyBytes jcsBytes entry = some bytes}
    ∪ (digestScheme sha256).inputs digestSpace (leafInputs sha256 jcsBytes history threshold)
        256 origin

/-- Every entry has an observation, and different observations have different digests. -/
structure Readable (history : List Json) : Prop where
  keyed : ∀ entry ∈ history, (keyBytes jcsBytes entry).isSome
  collisionFree : ∀ entry ∈ history, ∀ other ∈ history,
    (keyBytes jcsBytes entry).map sha256 = (keyBytes jcsBytes other).map sha256 →
      keyBytes jcsBytes entry = keyBytes jcsBytes other

end

section

variable {sha256 : List Byte → Digest} {jcsBytes : Json → List Byte}

/-- What the loop knows of the entries it has read. -/
structure Observed (sha256 : List Byte → Digest) (jcsBytes : Json → List Byte)
    (before : List Json) (counts : TreeMap Digest Nat)
    (observations : TreeMap Digest (List Byte)) : Prop where
  readable : Readable sha256 jcsBytes before
  count : ∀ path, counts.getD path 0
    = before.countP fun entry => (keyBytes jcsBytes entry).map sha256 = some path
  mem : ∀ path : Digest, path ∈ counts
    ↔ ∃ entry ∈ before, (keyBytes jcsBytes entry).map sha256 = some path
  observation : ∀ (path : Digest) bytes, observations[path]? = some bytes
    ↔ sha256 bytes = path ∧ ∃ entry ∈ before, keyBytes jcsBytes entry = some bytes

theorem observed_nil : Observed sha256 jcsBytes [] ∅ ∅ where
  readable := ⟨fun entry h => absurd h (List.not_mem_nil),
    fun entry h => absurd h (List.not_mem_nil)⟩
  count := by
    intro path
    simp
  mem := by
    intro path
    simp
  observation := by
    intro path bytes
    simp

/-- An entry whose digest is new, or stands for the same text, is counted. -/
theorem Observed.snoc {before : List Json} {counts : TreeMap Digest Nat}
    {observations : TreeMap Digest (List Byte)}
    (h : Observed sha256 jcsBytes before counts observations)
    {entry : Json} {bytes : List Byte} (hentry : keyBytes jcsBytes entry = some bytes)
    (hprior : ∀ prior, observations[sha256 bytes]? = some prior → prior = bytes) :
    Observed sha256 jcsBytes (before ++ [entry])
      (counts.insert (sha256 bytes) (counts.getD (sha256 bytes) 0 + 1))
      (observations.insert (sha256 bytes) bytes) := by
  -- a text with the digest of the new one is the new one: the map has remembered it
  have hsame : ∀ other ∈ before, ∀ text, keyBytes jcsBytes other = some text →
      sha256 text = sha256 bytes → text = bytes := by
    intro other hother text htext hsha
    exact hprior text ((h.observation _ _).2 ⟨hsha, other, hother, htext⟩)
  refine ⟨⟨?_, ?_⟩, ?_, ?_, ?_⟩
  · intro other hother
    rcases List.mem_append.1 hother with hbefore | hlast
    · exact h.readable.keyed other hbefore
    · rw [List.mem_singleton.1 hlast, hentry]
      rfl
  · have hcross : ∀ other ∈ before,
        (keyBytes jcsBytes other).map sha256 = some (sha256 bytes) →
          keyBytes jcsBytes other = some bytes := by
      intro other hother hsha
      obtain ⟨text, htext, htextSha⟩ := Option.map_eq_some_iff.1 hsha
      rw [htext, hsame other hother text htext htextSha]
    -- two entries with one digest: both old, or one of them the new one
    intro a ha b hb hsha
    rcases List.mem_append.1 ha with ha | ha
    · rcases List.mem_append.1 hb with hb | hb
      · exact h.readable.collisionFree a ha b hb hsha
      · rw [List.mem_singleton.1 hb, hentry] at hsha ⊢
        exact hcross a ha hsha
    · rcases List.mem_append.1 hb with hb | hb
      · rw [List.mem_singleton.1 ha, hentry] at hsha ⊢
        exact (hcross b hb hsha.symm).symm
      · rw [List.mem_singleton.1 ha, List.mem_singleton.1 hb]
  · intro path
    rw [Std.TreeMap.getD_insert, List.countP_append, h.count]
    by_cases hpath : sha256 bytes = path
    · rw [if_pos (Std.compare_eq_iff_eq.2 hpath), ← hpath]
      simp [hentry]
    · rw [if_neg (fun hcmp => hpath (Std.compare_eq_iff_eq.1 hcmp)), h.count]
      simp [hentry, hpath]
  · intro path
    rw [Std.TreeMap.mem_insert, h.mem, Std.compare_eq_iff_eq]
    constructor
    · rintro (hpath | ⟨other, hother, hsha⟩)
      · exact ⟨entry, by simp, by rw [hentry, ← hpath]; rfl⟩
      · exact ⟨other, by simp [hother], hsha⟩
    · rintro ⟨other, hother, hsha⟩
      rcases List.mem_append.1 hother with hbefore | hlast
      · exact .inr ⟨other, hbefore, hsha⟩
      · rw [List.mem_singleton.1 hlast, hentry] at hsha
        exact .inl (Option.some.inj hsha)
  · intro path text
    rw [Std.TreeMap.getElem?_insert]
    by_cases hpath : sha256 bytes = path
    · rw [if_pos (Std.compare_eq_iff_eq.2 hpath), Option.some.injEq]
      constructor
      · intro htext
        rw [← htext]
        exact ⟨hpath, entry, by simp, hentry⟩
      · rintro ⟨hsha, other, hother, htext⟩
        rcases List.mem_append.1 hother with hbefore | hlast
        · exact (hsame other hbefore text htext (by rw [hsha, hpath])).symm
        · rw [List.mem_singleton.1 hlast, hentry] at htext
          exact Option.some.inj htext
    · rw [if_neg (fun hcmp => hpath (Std.compare_eq_iff_eq.1 hcmp)), h.observation]
      apply and_congr_right
      intro hsha
      constructor
      · rintro ⟨other, hother, htext⟩
        exact ⟨other, by simp [hother], htext⟩
      · rintro ⟨other, hother, htext⟩
        rcases List.mem_append.1 hother with hbefore | hlast
        · exact ⟨other, hbefore, htext⟩
        · rw [List.mem_singleton.1 hlast, hentry] at htext
          rw [← Option.some.inj htext] at hsha
          exact absurd hsha hpath

/-- The loop reads exactly the readable histories, and counts them. -/
theorem observe_spec (rest : List Json) : ∀ {before : List Json} {counts : TreeMap Digest Nat}
    {observations : TreeMap Digest (List Byte)},
    Observed sha256 jcsBytes before counts observations →
    (∀ result, observe sha256 jcsBytes rest counts observations = .ok result →
      ∃ seen, Observed sha256 jcsBytes (before ++ rest) result seen)
    ∧ (Readable sha256 jcsBytes (before ++ rest) →
      ∃ result, observe sha256 jcsBytes rest counts observations = .ok result) := by
  -- the maps hold what was observed of the entries before; the induction is on the rest
  induction rest with
  | nil =>
    intro before counts observations h
    rw [List.append_nil]
    refine ⟨?_, fun _ => ⟨counts, rfl⟩⟩
    intro result hresult
    cases hresult
    exact ⟨observations, h⟩
  | cons entry rest ih =>
    intro before counts observations h
    have happend : before ++ entry :: rest = (before ++ [entry]) ++ rest := by simp
    rw [observe, happend]
    cases hkey : entry.get "key" with
    | none =>
      refine ⟨?_, ?_⟩
      · intro result hresult
        cases hresult
      · intro hreadable
        have hkeyed := hreadable.keyed entry (by simp)
        unfold keyBytes at hkeyed
        rw [hkey] at hkeyed
        cases hkeyed
    | some key =>
      have hentry : keyBytes jcsBytes entry = some (jcsBytes key) := by
        unfold keyBytes
        rw [hkey]
        rfl
      dsimp only
      by_cases hclash : (observations[sha256 (jcsBytes key)]?.any (· != jcsBytes key)) = true
      -- two texts of one digest are refused
      · rw [if_pos hclash]
        refine ⟨?_, ?_⟩
        · intro result hresult
          cases hresult
        · intro hreadable
          rw [Option.any_eq_true] at hclash
          obtain ⟨prior, hprior, hne⟩ := hclash
          obtain ⟨hsha, other, hother, htext⟩ := (h.observation _ _).1 hprior
          have heq := hreadable.collisionFree other (by simp [hother]) entry (by simp)
            (by rw [htext, hentry, Option.map_some, Option.map_some, hsha])
          rw [htext, hentry] at heq
          rw [Option.some.inj heq] at hne
          simp at hne
      · rw [if_neg hclash]
        refine ih (h.snoc hentry ?_)
        intro prior hprior
        rw [hprior] at hclash
        simpa using hclash

/-- The leaves of the loop are those of the leaf map. -/
theorem levelHolds_leafNodes {history : List Json} {counts : TreeMap Digest Nat}
    {seen : TreeMap Digest (List Byte)} (threshold : UInt64)
    (h : Observed sha256 jcsBytes history counts seen) :
    LevelHolds (digestScheme sha256) digestSpace (leafInputs sha256 jcsBytes history threshold) 0
      fun p => (leafNodes sha256 threshold counts)[p]? := by
  -- the loop that inserts the leaves makes a map of distinct keys
  have hcollect : leafNodes sha256 threshold counts
      = SortedMap.collect (counts.toList.map fun entry =>
          (entry.1, sha256 (leafInput entry.1 (min entry.2 threshold.toNat)))) := by
    unfold leafNodes SortedMap.collect
    rw [List.foldl_map]
  have hkeys : ((counts.toList.map fun entry =>
      (entry.1, sha256 (leafInput entry.1 (min entry.2 threshold.toNat)))).map Prod.fst).Nodup := by
    rw [List.map_map]
    exact SortedMap.nodup_keys counts
  intro p d
  have hleaf : (leafNodes sha256 threshold counts)[p]? = some d
      ↔ ∃ n, counts[p]? = some n ∧ sha256 (leafInput p (min n threshold.toNat)) = d := by
    rw [hcollect, SortedMap.getElem?_collect hkeys, List.mem_map]
    constructor
    · rintro ⟨⟨q, n⟩, hmem, heq⟩
      cases heq
      exact ⟨n, SortedMap.mem_toList.1 hmem, rfl⟩
    · rintro ⟨n, hn, heq⟩
      exact ⟨(p, n), SortedMap.mem_toList.2 hn, by rw [heq]⟩
  have hcount := h.count p
  rw [Std.TreeMap.getD_eq_getD_getElem?] at hcount
  have hmem := h.mem p
  rw [Std.TreeMap.mem_iff_isSome_getElem?] at hmem
  show (leafNodes sha256 threshold counts)[p]? = some d ↔ _
  rw [hleaf, occupied_zero_iff, Scheme.root]
  unfold leafInputs leafMap
  -- a position that was never counted has no leaf, one that was has its count, cut at the threshold
  cases hentry : counts[p]? with
  | none =>
    rw [hentry] at hcount
    have hzero : history.countP
        (fun entry => (keyBytes jcsBytes entry).map sha256 = some p) = 0 := hcount.symm
    rw [if_pos hzero]
    constructor
    · rintro ⟨n, hn, -⟩
      cases hn
    · rintro ⟨-, hsome, -⟩
      cases hsome
  | some n =>
    rw [hentry] at hcount hmem
    have hpos : 0 < n := by
      show 0 < (some n).getD 0
      rw [hcount, List.countP_pos_iff]
      obtain ⟨entry, hin, hsha⟩ := hmem.1 rfl
      exact ⟨entry, hin, by simpa using hsha⟩
    have hn : n = _ := hcount
    rw [← hn, if_neg (by omega)]
    constructor
    · rintro ⟨m, hm, hd⟩
      cases hm
      exact ⟨⟨Nat.zero_le _, fun i hi hin => by omega⟩, rfl, hd.symm⟩
    · rintro ⟨-, -, hd⟩
      exact ⟨n, rfl, hd.symm⟩

/-- The root is returned for the readable histories. -/
theorem repetitionRoot_eq_ok_iff (listing : Nat → Listing (Digest × NodePair))
    (history : List Json) (threshold : UInt64) (text : Text) :
    repetitionRoot sha256 jcsBytes listing history threshold = .ok text
      ↔ Readable sha256 jcsBytes history
        ∧ text = "sha256:".toList ++ hex (merkleRoot sha256 jcsBytes history threshold).toList := by
  obtain ⟨hread, hok⟩ := observe_spec history (observed_nil : Observed sha256 jcsBytes [] ∅ ∅)
  rw [List.nil_append] at hok
  -- once the history is counted, the root is that of the tree, in whatever order a level is listed
  have hroot : ∀ counts, observe sha256 jcsBytes history ∅ ∅ = .ok counts →
      repetitionRoot sha256 jcsBytes listing history threshold
        = .ok ("sha256:".toList
            ++ hex (merkleRoot sha256 jcsBytes history threshold).toList) := by
    intro counts hcounts
    obtain ⟨seen, hseen⟩ := hread counts hcounts
    rw [List.nil_append] at hseen
    have hhead := head_levelsUp listing (levelHolds_leafNodes threshold hseen)
    have hbind : repetitionRoot sha256 jcsBytes listing history threshold
        = observe sha256 jcsBytes history ∅ ∅ >>= fun counts => .ok ("sha256:".toList ++ hex
          (((levelsUp sha256 listing (leafNodes sha256 threshold counts)).toList.head?.map
            Prod.snd).getD ((emptyHashes sha256).getD 256 (sha256 [0]))).toList) := rfl
    rw [hbind, hcounts]
    exact congrArg (fun root : Digest => Except.ok ("sha256:".toList ++ hex root.toList)) hhead
  constructor
  · intro htext
    cases hcounts : observe sha256 jcsBytes history ∅ ∅ with
    | error diagnostic =>
      unfold repetitionRoot at htext
      rw [hcounts] at htext
      cases htext
    | ok counts =>
      obtain ⟨seen, hseen⟩ := hread counts hcounts
      rw [List.nil_append] at hseen
      rw [hroot counts hcounts] at htext
      exact ⟨hseen.readable, (Except.ok.inj htext).symm⟩
  · rintro ⟨hreadable, htext⟩
    obtain ⟨counts, hcounts⟩ := hok hreadable
    rw [hroot counts hcounts, htext]

/-! ## The texts of digests and counts -/

theorem digits_injective {a b : Nat} (ha : a < 16) (hb : b < 16)
    (h : DIGITS.getD a '0' = DIGITS.getD b '0') : a = b := by
  have hall : ∀ x y : Fin 16, DIGITS.getD x.val '0' = DIGITS.getD y.val '0' → x = y := by decide
  exact congrArg Fin.val (hall ⟨a, ha⟩ ⟨b, hb⟩ h)

theorem hex_injective {a b : List Byte} (h : hex a = hex b) : a = b := by
  induction a generalizing b with
  | nil =>
    cases b with
    | nil => rfl
    | cons y ys => cases h
  | cons x xs ih =>
    cases b with
    | nil => cases h
    | cons y ys =>
      have hcons : ∀ (z : Byte) zs, hex (z :: zs) = DIGITS.getD (z >>> 4).toNat '0'
          :: DIGITS.getD (z &&& 0x0f).toNat '0' :: hex zs := fun z zs => rfl
      rw [hcons, hcons, List.cons.injEq, List.cons.injEq] at h
      have hhigh : ∀ z : Byte, (z >>> 4).toNat = z.toNat / 16 := by
        intro z
        rw [BitVec.toNat_ushiftRight, Nat.shiftRight_eq_div_pow]
      have hlow : ∀ z : Byte, (z &&& 0x0f).toNat = z.toNat % 16 := by
        intro z
        rw [BitVec.toNat_and]
        exact Nat.and_two_pow_sub_one_eq_mod z.toNat 4
      have hx := x.isLt
      have hy := y.isLt
      rw [hhigh, hhigh, hlow, hlow] at h
      have h₁ := digits_injective (by omega) (by omega) h.1
      have h₂ := digits_injective (by omega) (by omega) h.2.1
      have hxy : x = y := BitVec.eq_of_toNat_eq (by omega)
      rw [hxy, ih h.2.2]

theorem leafInput_injective {path : Digest} {n m : Nat} (hn : n < 2 ^ 64) (hm : m < 2 ^ 64)
    (h : leafInput path n = leafInput path m) : n = m := by
  unfold leafInput toBeBytes at h
  rw [List.cons.injEq, List.append_right_inj, List.reverse_inj] at h
  have hpow : (2 : Nat) ^ 64 = 256 ^ 8 := by decide
  rw [hpow] at hn hm
  calc n = LittleEndian.decode (LittleEndian.encode 8 n) := (LittleEndian.decode_encode hn).symm
    _ = LittleEndian.decode (LittleEndian.encode 8 m) := by rw [h.2]
    _ = m := LittleEndian.decode_encode hm

theorem nodeInput_injective : Function.Injective2 nodeInput := by
  intro l l' r r' h
  unfold nodeInput at h
  rw [List.cons.injEq] at h
  have hlen : l.toList.length = l'.toList.length := by
    rw [Vector.length_toList, Vector.length_toList]
  obtain ⟨hl, hr⟩ := List.append_inj h.2 hlen
  exact ⟨Vector.toList_inj.1 hl, Vector.toList_inj.1 hr⟩

/-! ## Counts by observation and by digest -/

theorem leafMap_eq_none_iff {history : List Json} {threshold : UInt64} {path : Digest} :
    leafMap sha256 jcsBytes history threshold path = none
      ↔ ∀ entry ∈ history, (keyBytes jcsBytes entry).map sha256 ≠ some path := by
  unfold leafMap
  constructor
  · intro h
    split at h
    · rename_i hzero
      rw [List.countP_eq_zero] at hzero
      intro entry hentry hsha
      exact hzero entry hentry (decide_eq_true hsha)
    · cases h
  · intro h
    rw [if_pos]
    rw [List.countP_eq_zero]
    intro entry hentry hsha
    exact h entry hentry (of_decide_eq_true hsha)

theorem keyCount_eq_none_iff {history : List Json} {threshold : UInt64} {bytes : List Byte} :
    keyCount jcsBytes history threshold bytes = none
      ↔ ∀ entry ∈ history, keyBytes jcsBytes entry ≠ some bytes := by
  unfold keyCount
  constructor
  · intro h
    split at h
    · rename_i hzero
      rw [List.countP_eq_zero] at hzero
      intro entry hentry hbytes
      exact hzero entry hentry (decide_eq_true hbytes)
    · cases h
  · intro h
    rw [if_pos]
    rw [List.countP_eq_zero]
    intro entry hentry hbytes
    exact h entry hentry (of_decide_eq_true hbytes)

/-- An observation that occurs is counted under its digest. -/
theorem leafMap_eq_keyCount {history : List Json} (threshold : UInt64)
    (h : Readable sha256 jcsBytes history) {entry : Json} {bytes : List Byte}
    (hentry : entry ∈ history) (hbytes : keyBytes jcsBytes entry = some bytes) :
    leafMap sha256 jcsBytes history threshold (sha256 bytes)
      = keyCount jcsBytes history threshold bytes := by
  have hcount : history.countP (fun other =>
        (keyBytes jcsBytes other).map sha256 = some (sha256 bytes))
      = history.countP fun other => keyBytes jcsBytes other = some bytes := by
    apply List.countP_congr
    intro other hother
    rw [decide_eq_true_iff, decide_eq_true_iff]
    constructor
    · intro hsha
      rw [← hbytes]
      exact h.collisionFree other hother entry hentry (by rw [hsha, hbytes]; rfl)
    · intro hsame
      rw [hsame]
      rfl
  unfold leafMap keyCount
  rw [hcount]

/-- Equal counts of the observations are equal counts of the digests. -/
theorem leafMap_congr {history history' : List Json} {threshold : UInt64}
    (h : Readable sha256 jcsBytes history) (h' : Readable sha256 jcsBytes history')
    (hcounts : ∀ bytes, keyCount jcsBytes history threshold bytes
      = keyCount jcsBytes history' threshold bytes) (path : Digest) :
    leafMap sha256 jcsBytes history threshold path
      = leafMap sha256 jcsBytes history' threshold path := by
  by_cases hocc : ∃ bytes, sha256 bytes = path ∧ keyCount jcsBytes history threshold bytes ≠ none
  · obtain ⟨bytes, hpath, hsome⟩ := hocc
    have hsome' := hsome
    rw [hcounts] at hsome'
    rw [Ne, keyCount_eq_none_iff] at hsome hsome'
    push Not at hsome hsome'
    obtain ⟨entry, hentry, hbytes⟩ := hsome
    obtain ⟨entry', hentry', hbytes'⟩ := hsome'
    rw [← hpath, leafMap_eq_keyCount threshold h hentry hbytes,
      leafMap_eq_keyCount threshold h' hentry' hbytes', hcounts]
  · -- no observation of either history has this digest
    have hnone : ∀ list : List Json, (∀ bytes, keyCount jcsBytes list threshold bytes
          = keyCount jcsBytes history threshold bytes) →
        leafMap sha256 jcsBytes list threshold path = none := by
      intro list hlist
      rw [leafMap_eq_none_iff]
      intro entry hentry hsha
      obtain ⟨bytes, hbytes, hpath⟩ := Option.map_eq_some_iff.1 hsha
      refine hocc ⟨bytes, hpath, ?_⟩
      rw [← hlist, Ne, keyCount_eq_none_iff]
      intro hall
      exact hall entry hentry hbytes
    rw [hnone history fun _ => rfl, hnone history' fun bytes => (hcounts bytes).symm]

/-- Where the observations of both histories have different digests, equal counts of the
digests are equal counts of the observations. -/
theorem keyCount_congr {history history' : List Json} {threshold : UInt64}
    (h : Readable sha256 jcsBytes history) (h' : Readable sha256 jcsBytes history')
    (hleaves : ∀ path, leafMap sha256 jcsBytes history threshold path
      = leafMap sha256 jcsBytes history' threshold path)
    (hinj : ∀ entry ∈ history, ∀ other ∈ history', ∀ x y, keyBytes jcsBytes entry = some x →
      keyBytes jcsBytes other = some y → sha256 x = sha256 y → x = y) (bytes : List Byte) :
    keyCount jcsBytes history threshold bytes = keyCount jcsBytes history' threshold bytes := by
  -- a text of the first history has a leaf, so an entry of the second one has its digest, and its
  -- bytes
  by_cases hocc : ∃ entry ∈ history, keyBytes jcsBytes entry = some bytes
  · obtain ⟨entry, hentry, hbytes⟩ := hocc
    have hleaf : leafMap sha256 jcsBytes history' threshold (sha256 bytes) ≠ none := by
      rw [← hleaves, Ne, leafMap_eq_none_iff]
      intro hall
      exact hall entry hentry (by rw [hbytes]; rfl)
    rw [Ne, leafMap_eq_none_iff] at hleaf
    push Not at hleaf
    obtain ⟨other, hother, hsha⟩ := hleaf
    obtain ⟨text, htext, htextSha⟩ := Option.map_eq_some_iff.1 hsha
    have hsame := hinj entry hentry other hother bytes text hbytes htext htextSha.symm
    rw [← hsame] at htext
    rw [← leafMap_eq_keyCount threshold h hentry hbytes, hleaves,
      leafMap_eq_keyCount threshold h' hother htext]
  -- no text of the second history alone can have these bytes either
  · by_cases hocc' : ∃ other ∈ history', keyBytes jcsBytes other = some bytes
    · obtain ⟨other, hother, hbytes⟩ := hocc'
      have hleaf : leafMap sha256 jcsBytes history threshold (sha256 bytes) ≠ none := by
        rw [hleaves, Ne, leafMap_eq_none_iff]
        intro hall
        exact hall other hother (by rw [hbytes]; rfl)
      rw [Ne, leafMap_eq_none_iff] at hleaf
      push Not at hleaf
      obtain ⟨entry, hentry, hsha⟩ := hleaf
      obtain ⟨text, htext, htextSha⟩ := Option.map_eq_some_iff.1 hsha
      have hsame := hinj entry hentry other hother text bytes htext hbytes htextSha
      rw [hsame] at htext
      exact absurd ⟨entry, hentry, htext⟩ hocc
    · push Not at hocc hocc'
      rw [keyCount_eq_none_iff.2 hocc, keyCount_eq_none_iff.2 hocc']

theorem Readable.perm {history history' : List Json} (h : Readable sha256 jcsBytes history)
    (hperm : history.Perm history') : Readable sha256 jcsBytes history' where
  keyed := fun entry hentry => h.keyed entry (hperm.mem_iff.2 hentry)
  collisionFree := fun entry hentry other hother =>
    h.collisionFree entry (hperm.mem_iff.2 hentry) other (hperm.mem_iff.2 hother)

theorem keyCount_perm {history history' : List Json} (hperm : history.Perm history')
    (threshold : UInt64) (bytes : List Byte) :
    keyCount jcsBytes history threshold bytes = keyCount jcsBytes history' threshold bytes := by
  unfold keyCount
  rw [hperm.countP_eq]

theorem merkleRoot_congr {history history' : List Json} {threshold : UInt64}
    (h : ∀ path, leafMap sha256 jcsBytes history threshold path
      = leafMap sha256 jcsBytes history' threshold path) :
    merkleRoot sha256 jcsBytes history threshold
      = merkleRoot sha256 jcsBytes history' threshold := by
  apply root_congr
  intro q _
  unfold leafInputs
  rw [h]

/-- Equal roots have equal leaf maps, where SHA-256 tells the hashed inputs apart. -/
theorem leafMap_eq_of_merkleRoot_eq {history history' : List Json} {threshold : UInt64}
    (hinj : ∀ x ∈ hashed sha256 jcsBytes history threshold,
      ∀ y ∈ hashed sha256 jcsBytes history' threshold, sha256 x = sha256 y → x = y)
    (h : merkleRoot sha256 jcsBytes history threshold
      = merkleRoot sha256 jcsBytes history' threshold) (path : Digest) :
    leafMap sha256 jcsBytes history threshold path
      = leafMap sha256 jcsBytes history' threshold path := by
  -- leaves and empty nodes are hashed under different tags
  have htagged : ∀ (list : List Json) q,
      leafInputs sha256 jcsBytes list threshold q ≠ some [0] := by
    intro list q heq
    unfold leafInputs at heq
    obtain ⟨n, -, hn⟩ := Option.map_eq_some_iff.1 heq
    unfold leafInput at hn
    cases congrArg List.head? hn
  have hleaves := leaf_eq_of_root_eq (S := digestScheme sha256) nodeInput_injective
    (htagged history) (htagged history')
    (fun x hx y hy => hinj x (.inr hx) y (.inr hy)) h path (below_origin path)
  -- a count that was cut at the threshold fits its eight bytes
  have hbound : ∀ (list : List Json) n,
      leafMap sha256 jcsBytes list threshold path = some n → n < 2 ^ 64 := by
    intro list n hn
    unfold leafMap at hn
    split at hn
    · cases hn
    · rw [← Option.some.inj hn]
      exact Nat.lt_of_le_of_lt (Nat.min_le_right _ _) threshold.toNat_lt
  unfold leafInputs at hleaves
  cases hl : leafMap sha256 jcsBytes history threshold path with
  | none =>
    rw [hl] at hleaves
    exact (Option.map_eq_none_iff.1 hleaves.symm).symm
  | some n =>
    rw [hl] at hleaves
    obtain ⟨m, hm, hinput⟩ := Option.map_eq_some_iff.1 hleaves.symm
    rw [hm, leafInput_injective (hbound _ _ hm) (hbound _ _ hl) hinput]

end

/-- The root of the history is that of the sparse Merkle tree over the capped counts. It does
not depend on the order of the entries nor on anything but these counts, and it determines
them, unless SHA-256 collides on two of the inputs that are hashed for the two roots. -/
theorem repetitionRoot_determines_counts (sha256 : List Byte → Digest)
    (jcsBytes : Json → List Byte) (threshold : UInt64) :
    (∀ listing history text, repetitionRoot sha256 jcsBytes listing history threshold = .ok text
      ↔ Readable sha256 jcsBytes history
        ∧ text = "sha256:".toList ++ hex (merkleRoot sha256 jcsBytes history threshold).toList)
    ∧ (∀ listing listing' history history' text, List.Perm history history' →
      repetitionRoot sha256 jcsBytes listing history threshold = .ok text →
      repetitionRoot sha256 jcsBytes listing' history' threshold = .ok text)
    ∧ (∀ listing listing' history history' text text',
      repetitionRoot sha256 jcsBytes listing history threshold = .ok text →
      repetitionRoot sha256 jcsBytes listing' history' threshold = .ok text' →
      (∀ bytes, keyCount jcsBytes history threshold bytes
        = keyCount jcsBytes history' threshold bytes) → text = text')
    ∧ (∀ listing listing' history history' text,
      repetitionRoot sha256 jcsBytes listing history threshold = .ok text →
      repetitionRoot sha256 jcsBytes listing' history' threshold = .ok text →
      ((∀ path, leafMap sha256 jcsBytes history threshold path
          = leafMap sha256 jcsBytes history' threshold path)
        ∧ ∀ bytes, keyCount jcsBytes history threshold bytes
          = keyCount jcsBytes history' threshold bytes)
      ∨ ∃ x ∈ hashed sha256 jcsBytes history threshold,
        ∃ y ∈ hashed sha256 jcsBytes history' threshold, x ≠ y ∧ sha256 x = sha256 y) := by
  refine ⟨fun listing history text => repetitionRoot_eq_ok_iff listing history threshold text,
    ?_, ?_, ?_⟩
  · intro listing listing' history history' text hperm htext
    rw [repetitionRoot_eq_ok_iff] at htext ⊢
    have hreadable := htext.1.perm hperm
    have hleaves := leafMap_congr htext.1 hreadable (keyCount_perm hperm threshold)
    refine ⟨hreadable, ?_⟩
    rw [htext.2, merkleRoot_congr hleaves]
  · intro listing listing' history history' text text' htext htext' hcounts
    rw [repetitionRoot_eq_ok_iff] at htext htext'
    rw [htext.2, htext'.2, merkleRoot_congr (leafMap_congr htext.1 htext'.1 hcounts)]
  · intro listing listing' history history' text htext htext'
    rw [repetitionRoot_eq_ok_iff] at htext htext'
    have hroots : merkleRoot sha256 jcsBytes history threshold
        = merkleRoot sha256 jcsBytes history' threshold := by
      have hsame := htext.2.symm.trans htext'.2
      exact Vector.toList_inj.1 (hex_injective (List.append_cancel_left hsame))
    -- either nothing hashed for one root collides with what was hashed for the other, or a
    -- collision is at hand
    by_cases hinj : ∀ x ∈ hashed sha256 jcsBytes history threshold,
        ∀ y ∈ hashed sha256 jcsBytes history' threshold, sha256 x = sha256 y → x = y
    · left
      have hleaves := leafMap_eq_of_merkleRoot_eq hinj hroots
      refine ⟨hleaves, keyCount_congr htext.1 htext'.1 hleaves ?_⟩
      intro entry hentry other hother x y hx hy hsha
      exact hinj x (.inl ⟨entry, hentry, hx⟩) y (.inl ⟨other, hother, hy⟩) hsha
    · right
      push Not at hinj
      obtain ⟨x, hx, y, hy, hsha, hne⟩ := hinj
      exact ⟨x, hx, y, hy, hne, hsha⟩

end Sanmill.Mif
