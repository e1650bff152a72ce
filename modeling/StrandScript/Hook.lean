import StrandScript.Grid

/-!
# Hooks

A strand begins at its hook: a sign that may start a strand and is joined by exactly one neighbour.
The direction to that neighbour settles the kind of the strand.
-/

namespace StrandScript

/-- The first sign of a strand, with the direction in which the strand leaves it. -/
structure Hook where
  sign : Sign
  pos : Pos
  dir : Dir
  kind : Kind
deriving Repr, DecidableEq

namespace Grid

/-- The hook at a place, if there is one. -/
def hookAt (g : Grid) (p : Pos) (c : Char) : Except Fault (Option Hook) := do
  match Sign.ofChar? c with
  | none => return none
  | some s =>
    if s.hasPlace .start then
      match ← g.links p s.readings with
      | some [d] => return (s.startKind? d).map fun k => ⟨s, p, d, k⟩
      | _ => return none
    else return none

/-- The hooks at some places. -/
def hooksAt (g : Grid) : List (Pos × Char) → Except Fault (List Hook)
  | [] => .ok []
  | (p, c) :: rest => do
    let here ← g.hookAt p c
    let later ← g.hooksAt rest
    return here.toList ++ later

/-- The hooks of a grid, in reading order. -/
def hooks (g : Grid) : Except Fault (List Hook) := g.hooksAt g.cells

end Grid

end StrandScript
