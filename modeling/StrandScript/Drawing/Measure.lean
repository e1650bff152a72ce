import StrandScript.Number.Value

/-!
# Measures

Lengths of a drawing are computed with few operations, so that they can be taken over any kind of
number that has them. Drawings are written with whole numbers and doubles, where the order of the
operations settles the last digit.
-/

namespace StrandScript

/-- Numbers that lengths can be computed with. -/
class Measure (α : Type) where
  ofInt : Int → α
  half : α
  minusHalf : α
  unit : α
  add : α → α → Except Fault α
  sub : α → α → Except Fault α
  mul : α → α → Except Fault α
  div : α → α → Except Fault α
  isUnit : α → Bool

namespace Value

/-- Whether a value equals one. -/
def isOne : Value → Bool
  | .int n => n == 1
  | .real x => x == 1.0
  | .complex re im => re == 1.0 && im == 0.0
  | .empty => false

instance : Measure Value where
  ofInt := .int
  half := .real 0.5
  minusHalf := .real (-0.5)
  unit := .real 1.0
  add := Value.add
  sub := Value.sub
  mul := Value.mul
  div := Value.div
  isUnit := isOne

end Value

end StrandScript
