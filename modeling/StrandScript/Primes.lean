import StrandScript.Grid

/-!
# The table of primes

Rows and columns are numbered by `1` and the primes after it. A table of `n` numbers is searched
among the numbers below `n * n`.

* `Primes.table n`: the table.
* `Primes.ofGrids`: the table for a program, as long as the longest side of any of its glyphs.
-/

namespace StrandScript.Primes

/-- Whether none of the `fuel` numbers from `i` on divides `n`, those beyond its square root
left out. -/
def noDivisor (n : Nat) : Nat → Nat → Bool
  | 0, _ => true
  | fuel + 1, i => if n < i * i then true else if n % i = 0 then false else noDivisor n fuel (i + 1)

/-- Whether a number from `2` on is a prime. -/
def isPrime (n : Nat) : Bool := noDivisor n n 2

/-- The first `want` primes among the `fuel` numbers from `n` on. -/
def search : Nat → Nat → Nat → List Nat
  | 0, _, _ => []
  | _, _, 0 => []
  | fuel + 1, n, want + 1 =>
    if isPrime n then n :: search fuel (n + 1) want else search fuel (n + 1) (want + 1)

/-- The table of `n` numbers: `1`, and then the primes found below `n * n`. -/
def table (n : Nat) : List Nat := 1 :: search (n * n - 2) 2 (n - 1)

/-- The length of the first row of a grid. -/
def firstWidth (g : Grid) : Except Fault Nat :=
  match g with
  | [] => .error .outOfRange
  | r :: _ => .ok r.length

/-- The longest side of any grid: the number of its rows or the length of its first row. -/
def longestSide : List Grid → Except Fault Nat
  | [] => .ok 0
  | g :: gs => do
    let w ← firstWidth g
    return max (max g.length w) (← longestSide gs)

/-- The table for some grids. Without any grid there is no longest side. -/
def ofGrids (gs : List Grid) : Except Fault (List Nat) := do
  if gs.isEmpty then throw .wrongKind
  return table (← longestSide gs)

/-- The number of a row or column. -/
def number (ps : List Nat) (i : Nat) : Except Fault Int :=
  match ps[i]? with
  | some p => .ok p
  | none => .error .outOfRange

end StrandScript.Primes
