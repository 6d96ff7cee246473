import Mathlib.Data.List.Nodup
import Mathlib.Data.Rat.Defs
import Sanmill.Lib.Text

/-!
# JSON values

What a JSON parser returns. An object lists its members, each name once and in the order
of the names; an absent member reads as `none`. A number is an integer or was written
with a fraction or an exponent. The readers accept a value of one type.
-/

namespace Sanmill

/-- A JSON value; a number keeps whether it was written as an integer. -/
inductive Json where
  | null
  | bool (value : Bool)
  | int (value : Int)
  | float (value : ℚ)
  | str (value : Text)
  | arr (items : List Json)
  | obj (members : List (Text × Json))

namespace Json

/-! ## Equality -/

mutual

/-- Equality, decided member by member. -/
def beq : Json → Json → Bool
  | .null, .null => true
  | .bool a, .bool b => a = b
  | .int a, .int b => a = b
  | .float a, .float b => a = b
  | .str a, .str b => a = b
  | .arr a, .arr b => beqItems a b
  | .obj a, .obj b => beqMembers a b
  | _, _ => false

/-- Equality of arrays. -/
def beqItems : List Json → List Json → Bool
  | [], [] => true
  | a :: as, b :: bs => a.beq b && beqItems as bs
  | _, _ => false

/-- Equality of objects; the members keep their order. -/
def beqMembers : List (Text × Json) → List (Text × Json) → Bool
  | [], [] => true
  | (m, a) :: as, (n, b) :: bs => decide (m = n) && a.beq b && beqMembers as bs
  | _, _ => false

end

mutual

theorem beq_iff : ∀ a b : Json, a.beq b = true ↔ a = b
  | .null, b => by cases b <;> simp [beq]
  | .bool _, b => by cases b <;> simp [beq]
  | .int _, b => by cases b <;> simp [beq]
  | .float _, b => by cases b <;> simp [beq]
  | .str _, b => by cases b <;> simp [beq]
  | .arr a, .arr b => by rw [beq, beqItems_iff a b, Json.arr.injEq]
  | .obj a, .obj b => by rw [beq, beqMembers_iff a b, Json.obj.injEq]
  | .arr _, .null | .arr _, .bool _ | .arr _, .int _ | .arr _, .float _ | .arr _, .str _
  | .arr _, .obj _ => by simp [beq]
  | .obj _, .null | .obj _, .bool _ | .obj _, .int _ | .obj _, .float _ | .obj _, .str _
  | .obj _, .arr _ => by simp [beq]

theorem beqItems_iff : ∀ a b : List Json, beqItems a b = true ↔ a = b
  | [], [] => by simp [beqItems]
  | a :: as, b :: bs => by
    rw [beqItems, Bool.and_eq_true, beq_iff a b, beqItems_iff as bs, List.cons.injEq]
  | [], _ :: _ | _ :: _, [] => by simp [beqItems]

theorem beqMembers_iff : ∀ a b : List (Text × Json), beqMembers a b = true ↔ a = b
  | [], [] => by simp [beqMembers]
  | (m, a) :: as, (n, b) :: bs => by
    rw [beqMembers, Bool.and_eq_true, Bool.and_eq_true, decide_eq_true_iff, beq_iff a b,
      beqMembers_iff as bs, List.cons.injEq, Prod.mk.injEq]
  | [], _ :: _ | _ :: _, [] => by simp [beqMembers]

end

instance : DecidableEq Json := fun a b => decidable_of_iff _ (beq_iff a b)

/-! ## Reading -/

/-- The members of an object. -/
abbrev Members : Type := List (Text × Json)

/-- The first member of the name. -/
def Members.get (members : Members) (name : String) : Option Json :=
  members.lookup name.toList

/-- The members, if the value is an object. -/
def asObject : Json → Option Members
  | .obj members => some members
  | _ => none

/-- The items, if the value is an array. -/
def asArray : Json → Option (List Json)
  | .arr items => some items
  | _ => none

/-- The text, if the value is a string. -/
def asString : Json → Option Text
  | .str value => some value
  | _ => none

/-- The truth value, if it is one. -/
def asBool : Json → Option Bool
  | .bool value => some value
  | _ => none

/-- The number, however it was written. -/
def asNumber : Json → Option ℚ
  | .int value => some value
  | .float value => some value
  | _ => none

/-- A number without a fraction. -/
def asInteger (value : Json) : Option Int :=
  value.asNumber.bind fun q => if q.den = 1 then some q.num else none

/-- A number written as an integer that fits 64 bits without a sign. -/
def asU64 : Json → Option Nat
  | .int value => if 0 ≤ value ∧ value < 2 ^ 64 then some value.toNat else none
  | _ => none

/-- A member of an object. -/
def get (value : Json) (name : String) : Option Json :=
  value.asObject.bind fun members => members.get name

/-- The value at the end of a path of members. -/
def pointer (value : Json) (path : List String) : Option Json :=
  path.foldlM get value

/-- An array holds the string. -/
def listsString (items : List Json) (value : Text) : Bool :=
  items.any fun item => item.asString = some value

/-! ## Writing -/

/-- A member takes its place in the order of the names, or that of its older value. -/
def Members.insert (name : Text) (value : Json) : Members → Members
  | [] => [(name, value)]
  | (other, old) :: rest =>
    if name = other then (name, value) :: rest
    else if name < other then (name, value) :: (other, old) :: rest
    else (other, old) :: Members.insert name value rest

/-- The object with these members. -/
def ofMembers (members : List (String × Json)) : Json :=
  .obj (members.foldl (fun made member => Members.insert member.1.toList member.2 made) [])

/-- The object with one member set. -/
def set (value : Json) (name : String) (new : Json) : Json :=
  .obj (Members.insert name.toList new (value.asObject.getD []))

theorem lookup_cons_ite (key : Text) (member : Text × Json) (rest : Members) :
    List.lookup key (member :: rest) =
      if key = member.1 then some member.2 else rest.lookup key := by
  rw [List.lookup_cons]
  by_cases h : key = member.1
  · rw [if_pos h, beq_iff_eq.2 h]
  · rw [if_neg h, beq_eq_false_iff_ne.2 h]

theorem Members.get_insert (members : Members) (name : Text) (value : Json) (other : String) :
    Members.get (Members.insert name value members) other
      = if other.toList = name then some value else members.get other := by
  unfold Members.get
  induction members with
  | nil => exact lookup_cons_ite _ _ _
  | cons member rest ih =>
    obtain ⟨first, old⟩ := member
    unfold Members.insert
    split
    · rename_i hfirst
      subst hfirst
      rw [lookup_cons_ite, lookup_cons_ite]
      split
      · rfl
      · rfl
    split
    · exact lookup_cons_ite _ _ _
    · rename_i hfirst _
      rw [lookup_cons_ite, lookup_cons_ite, ih]
      by_cases hname : other.toList = name
      · rw [if_neg fun h => hfirst (hname.symm.trans h), if_pos hname, if_pos hname]
      · rw [if_neg hname, if_neg hname]

/-- The members of a new object: the last one under a name counts. -/
theorem get_ofMembers (members : List (String × Json)) (name : String) :
    (ofMembers members).get name
      = (members.reverse.find? fun member => member.1 = name).map Prod.snd := by
  suffices h : ∀ made : Members,
      Members.get (members.foldl (fun made member =>
        Members.insert member.1.toList member.2 made) made)
          name
        = ((members.reverse.find? fun member => member.1 = name).map Prod.snd).or (made.get name) by
    exact (h []).trans Option.or_none
  induction members with
  | nil =>
    intro made
    rfl
  | cons member rest ih =>
    intro made
    rw [List.foldl_cons, ih, Members.get_insert, List.reverse_cons, List.find?_append]
    cases (List.find? (fun member => decide (member.1 = name)) rest.reverse) with
    | some found => simp
    | none =>
      by_cases hname : member.1 = name
      · simp [hname]
      · have hlist : name.toList ≠ member.1.toList :=
          fun h => hname (String.toList_injective h).symm
        simp [hname, hlist]

/-- What holds of the members that were given holds of all that can be read. -/
theorem forall_get_ofMembers {members : List (String × Json)} {P : String → Json → Prop}
    (hdistinct : (members.map Prod.fst).Nodup) :
    (∀ name value, (ofMembers members).get name = some value → P name value)
      ↔ ∀ member ∈ members, P member.1 member.2 := by
  have hread : ∀ name value, (ofMembers members).get name = some value
      ↔ (name, value) ∈ members := by
    intro name value
    rw [get_ofMembers, Option.map_eq_some_iff]
    constructor
    · rintro ⟨member, hfound, rfl⟩
      have hname : member.1 = name := by simpa using List.find?_some hfound
      rw [← hname]
      exact List.mem_reverse.1 (List.mem_of_find?_eq_some hfound)
    · intro hmem
      obtain ⟨found, hfound⟩ : ∃ found, members.reverse.find? (fun member => member.1 = name)
          = some found :=
        Option.isSome_iff_exists.1 (List.find?_isSome.2
          ⟨_, List.mem_reverse.2 hmem, decide_eq_true rfl⟩)
      have hname : found.1 = name := by simpa using List.find?_some hfound
      have hin : found ∈ members := List.mem_reverse.1 (List.mem_of_find?_eq_some hfound)
      rw [List.inj_on_of_nodup_map hdistinct hin hmem hname] at hfound
      exact ⟨_, hfound, rfl⟩
  constructor
  · intro h member hmem
    exact h _ _ ((hread _ _).2 hmem)
  · intro h name value hget
    exact h _ ((hread _ _).1 hget)

/-- A string. -/
def ofString (value : String) : Json := .str value.toList

/-- A value, or `null`. -/
def ofOption (value : Option Json) : Json := value.getD .null

end Json

end Sanmill
