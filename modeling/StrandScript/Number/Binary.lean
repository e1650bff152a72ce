/-!
# Binary floating-point numbers as exact fractions

A double is `± mant * 2 ^ exp`, an infinity, or not a number. This file moves between a double and
that form, and rounds an exact fraction to its nearest double.

* `Shape.of`: the exact form of a double.
* `nearest?`: the double nearest to a fraction, a half going to the even mantissa, and nothing when
  the fraction lies beyond the largest double.
* `remainder`: the exact remainder of one double by another, with the sign of the first.
-/

namespace StrandScript.Binary

/-- The exact form of a double. -/
inductive Shape where
  | nan
  | infinite (neg : Bool)
  | finite (neg : Bool) (mant : Nat) (exp : Int)
deriving Repr, DecidableEq

/-- Reads sign, exponent and mantissa off the 64 bits. -/
def Shape.ofBits (bits : Nat) : Shape :=
  let neg : Bool := bits / Nat.pow 2 63 % 2 == 1
  let e : Nat := bits / Nat.pow 2 52 % 2048
  let f := bits % Nat.pow 2 52
  if e = 2047 then
    if f = 0 then .infinite neg else .nan
  else if e = 0 then .finite neg f (-1074)
  else .finite neg (Nat.pow 2 52 + f) ((e : Int) - 1075)

/-- The exact form of a double. -/
def Shape.of (x : Float) : Shape := Shape.ofBits x.toBits.toNat

/-- The integer nearest to `num / den`, a half going to the even one. -/
def roundDiv (num den : Nat) : Nat :=
  let q := num / den
  let r := num % den
  if 2 * r > den ∨ (2 * r = den ∧ q % 2 = 1) then q + 1 else q

/-- The fraction `num / den` divided by `2 ^ e`. -/
def shiftDown (num den : Nat) (e : Int) : Nat × Nat :=
  if 0 ≤ e then (num, den * Nat.pow 2 e.toNat) else (num * Nat.pow 2 (-e).toNat, den)

/-- The fraction `num / den` divided by `10 ^ e`. -/
def shiftTen (num den : Nat) (e : Int) : Nat × Nat :=
  if 0 ≤ e then (num, den * Nat.pow 10 e.toNat) else (num * Nat.pow 10 (-e).toNat, den)

/-- The bits of `mant * 2 ^ exp` for a mantissa of at most `2 ^ 53`, unless the number is too
large. A mantissa below `2 ^ 52` comes with the least exponent only. -/
def bits? (neg : Bool) (mant : Nat) (exp : Int) : Option Nat :=
  let sign := if neg then Nat.pow 2 63 else 0
  let (mant, exp) := if mant = Nat.pow 2 53 then (Nat.pow 2 52, exp + 1) else (mant, exp)
  if mant < Nat.pow 2 52 then some (sign + mant)
  else if exp + 1075 ≥ 2047 then none
  else some (sign + (exp + 1075).toNat * Nat.pow 2 52 + (mant - Nat.pow 2 52))

/-- The exponent of the last mantissa bit of `num / den`: the mantissa then has 53 bits, unless the
number is so small that the least exponent leaves it fewer. -/
def lastBit (num den : Nat) : Int :=
  let e : Int := (num.log2 : Int) - (den.log2 : Int) - 53
  let (n, d) := shiftDown num den e
  let e := if n / d ≥ Nat.pow 2 53 then e + 1 else e
  max e (-1074)

/-- The bits of the double nearest to `num / den`. -/
def nearestBits? (neg : Bool) (num den : Nat) : Option Nat :=
  if num = 0 then bits? neg 0 (-1074)
  else
    let e := lastBit num den
    let (n, d) := shiftDown num den e
    bits? neg (roundDiv n d) e

/-- The double nearest to `num / den`, a half going to the even mantissa; nothing when the number
is too large. -/
def nearest? (neg : Bool) (num den : Nat) : Option Float :=
  (nearestBits? neg num den).map fun b => Float.ofBits b.toUInt64

/-- The double nearest to an integer, if it is not too large. -/
def ofInt? (n : Int) : Option Float := nearest? (n < 0) n.natAbs 1

/-- Whether a double is negative, the negative zero included. -/
def isNeg (x : Float) : Bool := x.toBits.toNat / Nat.pow 2 63 % 2 == 1

/-- Zero with a chosen sign. -/
def signedZero (neg : Bool) : Float := if neg then -0.0 else 0.0

/-- The not-a-number. -/
def nan : Float := 0.0 / 0.0

/-- The exact remainder of `x` by `y`, as large as possible below `|y|` and with the sign of
`x`. -/
def remainder (x y : Float) : Float :=
  match Shape.of x, Shape.of y with
  | .finite neg m e, .finite _ n f =>
    if n = 0 then nan
    else
      let low := min e f
      let r := (m * Nat.pow 2 (e - low).toNat) % (n * Nat.pow 2 (f - low).toNat)
      let (num, den) := shiftDown r 1 (-low)
      (nearest? neg num den).getD nan
  | .finite .., .infinite _ => x
  | _, _ => nan

/-- Whether a double is an odd integer. -/
def isOdd (x : Float) : Bool :=
  match Shape.of x with
  | .finite _ m e =>
    if 0 ≤ e then e == 0 && m % 2 == 1
    else
      let unit := Nat.pow 2 (-e).toNat
      m % unit == 0 && (m / unit) % 2 == 1
  | _ => false

end StrandScript.Binary
