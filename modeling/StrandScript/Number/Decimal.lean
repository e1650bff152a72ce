import StrandScript.Number.Binary

/-!
# Decimal text of doubles

A finite double other than zero is written with the fewest digits that read back as the same
double; of several such decimals the nearest one is taken, and an exact tie goes to the even last
digit. How the digits are laid out is a separate choice, a `Layout`.

* `shortest`: the digits and the decimal exponent.
* `significant`: the digits at a fixed precision.
* `Layout.text`: a double as text.
* `read?`: a decimal text as its nearest double.
-/

/-- The number `digits * 10 ^ exp`. -/
structure StrandScript.Decimal where
  digits : Nat
  exp : Int
deriving Repr, DecidableEq

namespace StrandScript.Decimal

open Binary

/-- Drops the zeros at the end, at most `fuel` of them. -/
def stripZeros : Nat → Decimal → Decimal
  | 0, d => d
  | fuel + 1, d =>
    if d.digits ≠ 0 ∧ d.digits % 10 = 0 then stripZeros fuel ⟨d.digits / 10, d.exp + 1⟩ else d

/-- The number of decimal digits of a natural number, one for zero. -/
def width (n : Nat) : Nat := (Nat.toDigits 10 n).length

/-- The exponent `k` with `10 ^ (k - 1) ≤ num / den < 10 ^ k`, for a positive fraction. -/
def magnitude (num den : Nat) : Int :=
  if den ≤ num then (width (num / den) : Int)
  else 1 - (width ((den + num - 1) / num - 1) : Int)

/-- The interval of reals that round to one double, as fractions of the unit `2 ^ unit`: the
value, its two ends, and whether the ends belong to it. -/
structure Cell where
  value : Nat
  low : Nat
  high : Nat
  closed : Bool
  unit : Int

/-- The rounding interval of `mant * 2 ^ exp`. Below a power of two the doubles lie closer, so the
lower half of the interval is narrower there. -/
def Cell.of (mant : Nat) (exp : Int) : Cell where
  value := 4 * mant
  low := if mant = Nat.pow 2 52 ∧ -1074 < exp then 4 * mant - 1 else 4 * mant - 2
  high := 4 * mant + 2
  closed := mant % 2 == 0
  unit := exp - 2

/-- Whether `d * 10 ^ exp` lies in the interval. -/
def Cell.holds (c : Cell) (d : Nat) (exp : Int) : Bool :=
  let (n, m) := shiftTen d 1 (-exp)
  let (n, m) := shiftDown n m c.unit
  if c.closed then c.low * m ≤ n && n ≤ c.high * m else c.low * m < n && n < c.high * m

/-- The decimal nearest to the interval's value on the grid `10 ^ exp`, if one of the value's two
neighbours there lies in the interval. -/
def Cell.onGrid? (c : Cell) (exp : Int) : Option Decimal :=
  let (num, den) := shiftDown c.value 1 (-c.unit)
  let (num, den) := shiftTen num den exp
  let d := num / den
  let twice := 2 * (num % den)
  let nearer := if twice > den ∨ (twice = den ∧ d % 2 = 1) then d + 1 else d
  let farther := if nearer = d then d + 1 else d
  if c.holds nearer exp then some ⟨nearer, exp⟩
  else if c.holds farther exp then some ⟨farther, exp⟩
  else none

/-- The first of the grids with `n`, `n + 1`, ... digits that has a decimal in the interval, within
`fuel` attempts. -/
def Cell.firstGrid? (c : Cell) (k : Int) : Nat → Nat → Option Decimal
  | 0, _ => none
  | fuel + 1, n => (c.onGrid? (k - n)).orElse fun _ => c.firstGrid? k fuel (n + 1)

/-- The fewest digits that read back as `mant * 2 ^ exp`. Seventeen always suffice. -/
def shortest (mant : Nat) (exp : Int) : Decimal :=
  if mant = 0 then ⟨0, 0⟩
  else
    let (num, den) := shiftDown mant 1 (-exp)
    let c := Cell.of mant exp
    stripZeros 20 ((c.firstGrid? (magnitude num den) 17 1).getD ⟨mant, 0⟩)

/-- The value of `mant * 2 ^ exp` rounded to `n` significant digits. -/
def significant (n : Nat) (mant : Nat) (exp : Int) : Decimal :=
  if mant = 0 then ⟨0, 0⟩
  else
    let (num, den) := shiftDown mant 1 (-exp)
    let e := magnitude num den - n
    let (num, den) := shiftTen num den e
    stripZeros (n + 1) ⟨roundDiv num den, e⟩

/-- How digits become text: the decimal exponents from `low` to `high` are written positionally,
all others with an exponent mark, and `point` says whether a whole number keeps a final `.0`. -/
structure Layout where
  low : Int
  high : Int
  point : Bool

/-- The layout of a number standing alone. -/
def plain : Layout := ⟨-4, 15, true⟩

/-- The layout of one part of a complex number. -/
def part : Layout := ⟨-4, 15, false⟩

/-- The layout of a measurement of twelve significant digits. -/
def measured : Layout := ⟨-4, 11, false⟩

/-- An exponent mark: a sign and at least two digits. -/
def exponentText (e : Int) : String :=
  let n := toString e.natAbs
  "e" ++ (if e < 0 then "-" else "+") ++ (if n.length < 2 then "0" ++ n else n)

/-- A text of `n` zeros. -/
def zeros (n : Nat) : String := String.ofList (List.replicate n '0')

/-- A decimal laid out. -/
def Layout.decimal (l : Layout) (d : Decimal) : String :=
  let ds := Nat.toDigits 10 d.digits
  let len : Int := ds.length
  -- the decimal point stands after the first `k` digits
  let k := if d.digits = 0 then 1 else len + d.exp
  if l.low ≤ k - 1 ∧ k - 1 ≤ l.high then
    if k ≤ 0 then "0." ++ zeros (-k).toNat ++ String.ofList ds
    else if len ≤ k then
      String.ofList ds ++ zeros (k - len).toNat ++ (if l.point then ".0" else "")
    else String.ofList (ds.take k.toNat) ++ "." ++ String.ofList (ds.drop k.toNat)
  else
    match ds with
    | [] => exponentText (k - 1)
    | [c] => String.ofList [c] ++ exponentText (k - 1)
    | c :: rest => String.ofList [c] ++ "." ++ String.ofList rest ++ exponentText (k - 1)

/-- A double laid out, its digits chosen by `digits`. -/
def Layout.write (l : Layout) (digits : Nat → Int → Decimal) (x : Float) : String :=
  match Shape.of x with
  | .nan => "nan"
  | .infinite neg => if neg then "-inf" else "inf"
  | .finite neg m e => (if neg then "-" else "") ++ l.decimal (digits m e)

/-- A double with its fewest digits. -/
def text (x : Float) : String := plain.write shortest x

/-- A double at twelve significant digits. -/
def measure (x : Float) : String := measured.write (significant 12) x

/-- The double nearest to `x` rounded to `places` decimals, a half going to the even digit. -/
def roundTo (places : Nat) (x : Float) : Float :=
  match Shape.of x with
  | .finite neg m e =>
    let (num, den) := shiftDown m 1 (-e)
    (nearest? neg (roundDiv (num * Nat.pow 10 places) den) (Nat.pow 10 places)).getD x
  | _ => x

/-! ## Reading -/

/-- The value of a list of decimal digits, if they all are. -/
def natOf? (cs : List Char) : Option Nat :=
  if cs.isEmpty then none
  else cs.foldlM (fun n c => if c.isDigit then some (10 * n + (c.toNat - '0'.toNat)) else none) 0

/-- An exponent: an optional sign and digits. -/
def exponentOf? : List Char → Option Int
  | '-' :: cs => (natOf? cs).map fun n => -(n : Int)
  | '+' :: cs => (natOf? cs).map fun n => (n : Int)
  | cs => (natOf? cs).map fun n => (n : Int)

/-- The double nearest to an unsigned decimal text. -/
def unsigned? (neg : Bool) (cs : List Char) : Option Float := do
  let mant := cs.takeWhile (· != 'e')
  let e ← match cs.dropWhile (· != 'e') with
    | [] => some 0
    | _ :: rest => exponentOf? rest
  let whole := mant.takeWhile (· != '.')
  let frac := (mant.dropWhile (· != '.')).drop 1
  let digits ← natOf? (whole ++ frac)
  let (num, den) := shiftTen digits 1 (-(e - frac.length))
  nearest? neg num den

/-- The double that a decimal text names. -/
def read? (s : String) : Option Float :=
  match s with
  | "nan" => some nan
  | "inf" => some (1.0 / 0.0)
  | "-inf" => some (-1.0 / 0.0)
  | _ =>
    match s.toList with
    | '-' :: cs => unsigned? true cs
    | cs => unsigned? false cs

end StrandScript.Decimal
