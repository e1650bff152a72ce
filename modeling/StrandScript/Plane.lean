/-!
# The plane of a drawing

Columns grow to the right and rows downward. `Pos` is a place, `Dir` one of the four directions
between neighbouring places.
-/

namespace StrandScript

/-- A direction between neighbouring cells. -/
inductive Dir where
  | up | down | left | right
deriving Repr, DecidableEq, Inhabited

namespace Dir

/-- The direction back. -/
def opposite : Dir → Dir
  | up => down
  | down => up
  | left => right
  | right => left

/-- Whether the direction runs along a row. -/
def isHorizontal : Dir → Bool
  | left | right => true
  | up | down => false

/-- The word for a direction. -/
def name : Dir → String
  | up => "up"
  | down => "down"
  | left => "left"
  | right => "right"

/-- The direction that a word names. -/
def ofName? : String → Option Dir
  | "up" => some up
  | "down" => some down
  | "left" => some left
  | "right" => some right
  | _ => none

@[simp] theorem opposite_opposite (d : Dir) : d.opposite.opposite = d := by cases d <;> rfl

theorem opposite_ne (d : Dir) : d.opposite ≠ d := by cases d <;> decide

theorem ofName?_name (d : Dir) : ofName? d.name = some d := by cases d <;> rfl

end Dir

/-- A place in the plane. -/
structure Pos where
  x : Int
  y : Int
deriving Repr, DecidableEq, Inhabited

namespace Pos

/-- The neighbouring place in a direction. -/
def step (p : Pos) : Dir → Pos
  | .up => ⟨p.x, p.y - 1⟩
  | .down => ⟨p.x, p.y + 1⟩
  | .left => ⟨p.x - 1, p.y⟩
  | .right => ⟨p.x + 1, p.y⟩

@[simp] theorem step_step_opposite (p : Pos) (d : Dir) : (p.step d).step d.opposite = p := by
  cases d <;> simp [step, Dir.opposite]

/-- Reading order: by rows from the top, each row from the left. -/
def rowMajor (p q : Pos) : Bool := p.y < q.y || (p.y == q.y && p.x ≤ q.x)

/-- Column order: by columns from the left, each column from the top. -/
def columnMajor (p q : Pos) : Bool := p.x < q.x || (p.x == q.x && p.y ≤ q.y)

end Pos

end StrandScript
