import StrandScript.Fault
import StrandScript.Index

/-!
# The Fibonacci program written out by hand

Three lists and three steps: `seed` fills the lists, `iterate` adds up the sequence until its
counter reaches the target and takes the last round back, and the first list holds the result.
Places that a list does not have are a fault; what was written before stays.
-/

namespace StrandScript.Fibonacci

/-- The three lists. -/
structure Lists where
  first : List Int
  second : List Int
  third : List Int
deriving Repr, DecidableEq

/-- A computation on the three lists. -/
abbrev Work := EStateM Fault Lists

/-- The number at a place of a list. -/
def read (xs : List Int) (i : Nat) : Work Int :=
  match xs[i]? with
  | some n => pure n
  | none => throw .outOfRange

/-- Writes a place of the second list. -/
def writeSecond (i : Nat) (n : Int) : Work Unit := do
  if i < (← get).second.length then modify fun l => { l with second := l.second.set i n }
  else throw .outOfRange

/-- Writes a place of the third list. -/
def writeThird (i : Nat) (n : Int) : Work Unit := do
  if i < (← get).third.length then modify fun l => { l with third := l.third.set i n }
  else throw .outOfRange

/-- Appends the first number, the two numbers to add, the counter and the target. -/
def seed (l : Lists) : Lists :=
  ⟨l.first ++ [0], l.second ++ [0, 1, 0, 10], l.third ++ [0, 0]⟩

/-- One round: the next number of the sequence is appended, and the distance to the target is left
in the third list. -/
def round : Work Unit := do
  writeThird 0 (← read (← get).second 0)
  let a ← read (← get).second 0
  let b ← read (← get).second 1
  writeSecond 0 (a + b)
  writeSecond 1 (← read (← get).third 0)
  writeSecond 2 ((← read (← get).second 2) + 1)
  let n ← read (← get).second 0
  modify fun l => { l with first := l.first ++ [n] }
  writeThird 1 (← read (← get).second 3)
  let t ← read (← get).third 1
  writeThird 1 (t - (← read (← get).second 2))

/-- Rounds until the distance to the target is used up, at most `fuel` of them; the last round is
taken back. -/
def rounds : Nat → Work Unit
  | 0 => return
  | fuel + 1 => do
    let before ← get
    round
    if (← read (← get).third 1) ≤ 0 then set before else rounds fuel

/-- More rounds than the target leaves room for. -/
def enough (l : Lists) : Nat := ((l.second[3]?).getD 0 - (l.second[2]?).getD 0).toNat + 1

/-- Rounds until the counter reaches the target. -/
def iterate : Work Unit := do rounds (enough (← get))

/-- Writes a place of one of the three lists, counted from either end. -/
def assign (list : Nat) (i : Int) (n : Int) : Work Unit := do
  let l ← get
  let xs := if list = 1 then l.first else if list = 2 then l.second else l.third
  match Index.set? xs i n with
  | none => throw .outOfRange
  | some xs =>
    set (if list = 1 then { l with first := xs }
      else if list = 2 then { l with second := xs }
      else { l with third := xs })

/-- The first list as text. -/
def text (l : Lists) : String := "[" ++ ", ".intercalate (l.first.map toString) ++ "]\n"

end StrandScript.Fibonacci
