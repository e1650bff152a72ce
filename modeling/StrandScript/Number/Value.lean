import StrandScript.Fault
import StrandScript.Number.Decimal

/-!
# Values

A cell holds a whole number of any size, a double, a complex number, or nothing. Whole numbers stay
whole under addition, subtraction, multiplication, remainder and natural powers; a quotient is
always a double, correctly rounded; a negative number to a broken power is complex. Arithmetic on
nothing, and order or remainder of complex numbers, is a fault.

* `Value.add`, `sub`, `mul`, `div`, `mod`, `pow`: the arithmetic.
* `Value.isPositive`: the test of a question.
* `Value.text`: a value as text, for whole numbers of at most 4300 digits.
-/

namespace StrandScript

/-- What a cell holds. -/
inductive Value where
  | int (n : Int)
  | real (x : Float)
  | complex (re im : Float)
  | empty
deriving Repr, Inhabited

namespace Value

/-- Two operands brought to a common kind. -/
inductive Pair where
  | ints (a b : Int)
  | reals (a b : Float)
  | complexes (a b : Float × Float)

/-- The double nearest to a whole number; one beyond the range of doubles overflows. -/
def floatOfInt (n : Int) : Except Fault Float :=
  match Binary.ofInt? n with
  | some x => .ok x
  | none => .error .overflow

/-- A number as a complex one. -/
def toComplex : Value → Except Fault (Float × Float)
  | .int n => (floatOfInt n).map fun x => (x, 0.0)
  | .real x => .ok (x, 0.0)
  | .complex re im => .ok (re, im)
  | .empty => .error .wrongKind

/-- Brings two operands to the wider of their kinds. -/
def pair : Value → Value → Except Fault Pair
  | .empty, _ | _, .empty => .error .wrongKind
  | .int a, .int b => .ok (.ints a b)
  | .int a, .real b => (floatOfInt a).map fun x => .reals x b
  | .real a, .int b => (floatOfInt b).map fun y => .reals a y
  | .real a, .real b => .ok (.reals a b)
  | v, w => do
    let a ← v.toComplex
    let b ← w.toComplex
    return .complexes a b

/-! ## Complex numbers -/

/-- The product of two complex numbers. -/
def complexMul (a b : Float × Float) : Float × Float :=
  (a.1 * b.1 - a.2 * b.2, a.1 * b.2 + a.2 * b.1)

/-- The quotient of two complex numbers, divided through by the larger part of the divisor. -/
def complexDiv (a b : Float × Float) : Except Fault (Float × Float) :=
  let re := b.1.abs
  let im := b.2.abs
  if re ≥ im then
    if re == 0.0 then .error .divisionByZero
    else
      let ratio := b.2 / b.1
      let denom := b.1 + b.2 * ratio
      .ok ((a.1 + a.2 * ratio) / denom, (a.2 - a.1 * ratio) / denom)
  else if im ≥ re then
    let ratio := b.1 / b.2
    let denom := b.1 * ratio + b.2
    .ok ((a.1 * ratio + a.2) / denom, (a.2 * ratio - a.1) / denom)
  else .ok (Binary.nan, Binary.nan)

/-- The `n`-th power by repeated squaring, along the `fuel` low bits of `n`. -/
def complexPowNat (x : Float × Float) (n : Nat) : Nat → Float × Float → Float × Float
  | 0, r => r
  | fuel + 1, r =>
    if n = 0 then r
    else
      let r := if n % 2 = 1 then complexMul r x else r
      complexPowNat (complexMul x x) (n / 2) fuel r

/-- The length of a complex number. -/
def modulus (a : Float × Float) : Float :=
  let re := a.1.abs
  let im := a.2.abs
  if im == 0.0 then re
  else if re == 0.0 then im
  else
    let big := if re < im then im else re
    let small := if re < im then re else im
    let r := small / big
    big * (1.0 + r * r).sqrt

/-- A power in polar form. -/
def complexPowPolar (a b : Float × Float) : Except Fault (Float × Float) :=
  if b.1 == 0.0 && b.2 == 0.0 then .ok (1.0, 0.0)
  else if a.1 == 0.0 && a.2 == 0.0 then
    if b.2 != 0.0 || b.1 < 0.0 then .error .divisionByZero else .ok (0.0, 0.0)
  else
    let vabs := modulus a
    let len := vabs.pow b.1
    let angle := Float.atan2 a.2 a.1
    let phase := angle * b.1
    let (len, phase) :=
      if b.2 != 0.0 then (len / (angle * b.2).exp, phase + b.2 * vabs.log) else (len, phase)
    .ok (len * phase.cos, len * phase.sin)

/-- A power of complex numbers: by multiplication for small whole exponents, in polar form for
others. An infinite part overflows. -/
def complexPow (a b : Float × Float) : Except Fault (Float × Float) := do
  let p ←
    if b.2 == 0.0 && b.1 == b.1.floor && b.1.abs ≤ 100.0 then
      let n := b.1.abs.toUInt64.toNat
      let p := complexPowNat a n 7 (1.0, 0.0)
      if b.1 > 0.0 then .ok p else complexDiv (1.0, 0.0) p
    else complexPowPolar a b
  if p.1.isInf || p.2.isInf then .error .overflow else .ok p

/-! ## Doubles -/

/-- The remainder of two doubles, with the sign of the divisor. -/
def realMod (a b : Float) : Except Fault Float :=
  if b == 0.0 then .error .divisionByZero
  else
    let r := Binary.remainder a b
    if r == 0.0 then .ok (Binary.signedZero (Binary.isNeg b))
    else if (b < 0.0) != (r < 0.0) then .ok (r + b)
    else .ok r

/-- A power of doubles. Zero to a negative power is a division by zero, a negative base to a broken
power is complex, and an infinite result of finite operands overflows. -/
def realPow (a b : Float) : Except Fault Value :=
  if b == 0.0 then .ok (.real 1.0)
  else if a.isNaN then .ok (.real a)
  else if b.isNaN then .ok (.real (if a == 1.0 then 1.0 else b))
  else if b.isInf then
    let m := a.abs
    if m == 1.0 then .ok (.real 1.0)
    else if (b > 0.0) == (m > 1.0) then .ok (.real b.abs)
    else .ok (.real 0.0)
  else if a.isInf then
    if b > 0.0 then .ok (.real (if Binary.isOdd b then a else a.abs))
    else .ok (.real (if Binary.isOdd b then Binary.signedZero (Binary.isNeg a) else 0.0))
  else if a == 0.0 then
    if b < 0.0 then .error .divisionByZero
    else .ok (.real (if Binary.isOdd b then a else 0.0))
  else if a < 0.0 && b != b.floor then
    (complexPow (a, 0.0) (b, 0.0)).map fun p => .complex p.1 p.2
  else
    let negate := a < 0.0 && Binary.isOdd b
    let m := a.abs
    if m == 1.0 then .ok (.real (if negate then -1.0 else 1.0))
    else
      let r := m.pow b
      if r.isInf then .error .overflow else .ok (.real (if negate then -r else r))

/-! ## Arithmetic -/

/-- The sum. -/
def add (v w : Value) : Except Fault Value := do
  match ← pair v w with
  | .ints a b => return .int (a + b)
  | .reals a b => return .real (a + b)
  | .complexes a b => return .complex (a.1 + b.1) (a.2 + b.2)

/-- The difference. -/
def sub (v w : Value) : Except Fault Value := do
  match ← pair v w with
  | .ints a b => return .int (a - b)
  | .reals a b => return .real (a - b)
  | .complexes a b => return .complex (a.1 - b.1) (a.2 - b.2)

/-- The product. -/
def mul (v w : Value) : Except Fault Value := do
  match ← pair v w with
  | .ints a b => return .int (a * b)
  | .reals a b => return .real (a * b)
  | .complexes a b =>
    let p := complexMul a b
    return .complex p.1 p.2

/-- The quotient of two whole numbers, correctly rounded. -/
def intDiv (a b : Int) : Except Fault Float :=
  if b = 0 then .error .divisionByZero
  else
    match Binary.nearest? (decide (a < 0) != decide (b < 0)) a.natAbs b.natAbs with
    | some x => .ok x
    | none => .error .overflow

/-- The quotient, never a whole number. -/
def div (v w : Value) : Except Fault Value := do
  match ← pair v w with
  | .ints a b => return .real (← intDiv a b)
  | .reals a b => if b == 0.0 then throw .divisionByZero else return .real (a / b)
  | .complexes a b =>
    let p ← complexDiv a b
    return .complex p.1 p.2

/-- The remainder, with the sign of the divisor. -/
def mod (v w : Value) : Except Fault Value := do
  match v, w with
  | .complex .., _ | _, .complex .. => throw .wrongKind
  | _, _ =>
    match ← pair v w with
    | .ints a b => if b = 0 then throw .divisionByZero else return .int (Int.fmod a b)
    | .reals a b => return .real (← realMod a b)
    | .complexes .. => throw .wrongKind

/-- The power. A whole number to a negative whole power is a double. -/
def pow (v w : Value) : Except Fault Value := do
  match ← pair v w with
  | .ints a b =>
    if 0 ≤ b then return .int (Int.pow a b.toNat)
    else realPow (← floatOfInt a) (← floatOfInt b)
  | .reals a b => realPow a b
  | .complexes a b =>
    let p ← complexPow a b
    return .complex p.1 p.2

/-- Whether a number is greater than zero. -/
def isPositive : Value → Except Fault Bool
  | .int n => .ok (0 < n)
  | .real x => .ok (x > 0.0)
  | .complex .. | .empty => .error .wrongKind

/-! ## Text -/

/-- The least number of more than 4300 digits. -/
def tooLong : Nat := Nat.pow 10 4300

/-- Whether a whole number has at most 4300 digits. -/
def fits (n : Int) : Bool := n.natAbs < tooLong

/-- A whole number as text; one of more than 4300 digits is not written. -/
def intText (n : Int) : Except Fault String :=
  if fits n then .ok (toString n) else .error .badValue

/-- A complex number as text: a positive zero before the imaginary part is left out. -/
def complexText (re im : Float) : String :=
  let imText := Decimal.part.write Decimal.shortest im
  if re == 0.0 && !Binary.isNeg re then imText ++ "j"
  else
    let sign := if Binary.isNeg im && !im.isNaN then "" else "+"
    "(" ++ Decimal.part.write Decimal.shortest re ++ sign ++ imText ++ "j)"

/-- A value as text. -/
def text : Value → Except Fault String
  | .int n => intText n
  | .real x => .ok (Decimal.text x)
  | .complex re im => .ok (complexText re im)
  | .empty => .ok "None"

/-- Whether a value can be saved: a complex number is of the wrong kind for that, and a whole number
of more than 4300 digits is too long. -/
def saveable : Value → Except Fault Unit
  | .int n => if fits n then .ok () else .error .badValue
  | .complex .. => .error .wrongKind
  | .real _ | .empty => .ok ()

end Value

end StrandScript
