import Sanmill.Lib.Numerals
import Mathlib.Data.Nat.Notation

/-!
# The repetition tracker

A ring buffer of position keys with a count threshold, `repetition.rs`. Positions in the
ring are 16 bits wide. An addition that leaves them panics in a build with overflow checks
and wraps in a build without; a panic is `none`.
-/

namespace Sanmill

/-- `a + b` on `u16`. -/
def addU16 (overflowChecks : Bool) (a b : UInt16) : Option UInt16 :=
  if overflowChecks && 65536 ≤ a.toNat + b.toNat then none else some (a + b)

/-- `RepetitionTracker<THRESHOLD, CAP>`. -/
structure RepetitionTracker (CAP : Nat) where
  keys : Vector UInt64 CAP
  len : UInt16
  head : UInt16

namespace RepetitionTracker

variable {CAP : Nat}

/-- `RepetitionTracker::new`, past its two assertions. -/
def new (CAP : Nat) : RepetitionTracker CAP where
  keys := Vector.replicate CAP 0
  len := 0
  head := 0

/-- `RepetitionTracker::clear`. -/
def clear (t : RepetitionTracker CAP) : RepetitionTracker CAP :=
  { t with len := 0, head := 0 }

/-- The counting loop of `push` over the slots that are left. -/
def countLoop (THRESHOLD : Nat) (keys : Vector UInt64 CAP) (key : UInt64) :
    List Nat → Nat → Option Bool
  | [], _ => some false
  | i :: slots, count => do
    let seen ← keys[i]?
    if seen == key then
      if THRESHOLD ≤ count + 1 then some true
      else countLoop THRESHOLD keys key slots (count + 1)
    else countLoop THRESHOLD keys key slots count

/-- The write position after a write at `head`. -/
def advanceHead (overflowChecks : Bool) (cap head : UInt16) : Option UInt16 :=
  (addU16 overflowChecks head 1).map fun advanced => if advanced = cap then 0 else advanced

/-- The number of populated slots after a write. -/
def growLen (overflowChecks : Bool) (CAP : Nat) (len : UInt16) : Option UInt16 :=
  if len.toNat < CAP then addU16 overflowChecks len 1 else some len

/-- `RepetitionTracker::push`. -/
def push (overflowChecks : Bool) (THRESHOLD : Nat) (t : RepetitionTracker CAP) (key : UInt64) :
    Option (Bool × RepetitionTracker CAP) := do
  -- `CAP as u16` keeps the low sixteen bits
  let cap : UInt16 := UInt16.ofNat CAP
  let slot := t.head.toNat
  if hslot : slot < CAP then
    let keys := t.keys.set slot key
    let head ← advanceHead overflowChecks cap t.head
    let len ← growLen overflowChecks CAP t.len
    let seen ← countLoop THRESHOLD keys key (List.range len.toNat) 0
    return (seen, { keys, len, head })
  else none

/-- `RepetitionTracker::count`. -/
def count (t : RepetitionTracker CAP) (key : UInt64) : Nat :=
  (t.keys.toList.take t.len.toNat).count key

end RepetitionTracker

/-- What a game does to its tracker. -/
inductive TrackerOp where
  | push (key : UInt64)
  | clear
deriving Repr, DecidableEq

namespace RepetitionTracker

variable {CAP : Nat}

/-- The answers of the pushes of a run, and the tracker it leaves. -/
def run (overflowChecks : Bool) (THRESHOLD : Nat) :
    List TrackerOp → RepetitionTracker CAP → Option (List Bool × RepetitionTracker CAP)
  | [], t => some ([], t)
  | .clear :: rest, t => run overflowChecks THRESHOLD rest t.clear
  | .push key :: rest, t => do
    let (seen, t) ← t.push overflowChecks THRESHOLD key
    let (answers, t) ← run overflowChecks THRESHOLD rest t
    return (seen :: answers, t)

end RepetitionTracker
end Sanmill
