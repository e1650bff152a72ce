import StrandScript.Drawing.Measure
import StrandScript.Strand

/-!
# Paths

The line of a strand is drawn cell by cell: from the middle of the edge where the strand enters a
cell to the middle of the edge where it leaves. Corners are curves, or two straight lines for the
sharp forms.

* `PathCommand.text`: a command as text.
* `Pen.piece`: what is drawn in one cell.
* `Pen.cell`: one cell of a strand, with the column the line has reached.
* `Pen.strand`: a strand from its hook to its end.
-/

namespace StrandScript

/-- A command of a path: a move, a line or a curve. All but `moveTo` are relative. -/
inductive PathCommand (α : Type) where
  | moveTo (x y : α)
  | moveBy (x y : α)
  | across (x : α)
  | down (y : α)
  | curve (cx cy x y : α)
deriving Repr

/-- A command of a path as text: its letter and its numbers. -/
def PathCommand.text (c : PathCommand Value) : Except Fault String := do
  let numbers (vs : List Value) : Except Fault String := do
    return String.join ((← vs.mapM Value.text).map (" " ++ ·))
  match c with
  | .moveTo x y => return "M" ++ (← numbers [x, y])
  | .moveBy x y => return "m" ++ (← numbers [x, y])
  | .across x => return "h" ++ (← numbers [x])
  | .down y => return "v" ++ (← numbers [y])
  | .curve cx cy x y => return "q" ++ (← numbers [cx, cy, x, y])

/-- What is drawn in a cell: a sign, and for corners whether it is the sharp form. -/
structure Figure where
  sign : Sign
  sharp : Bool
deriving Repr, DecidableEq

namespace Figure

/-- The figure of a character. -/
def ofChar? (c : Char) : Option Figure :=
  (Sign.ofChar? c).map fun s => ⟨s, s.chars.head? != some c⟩

/-- The figure of a hook, always in the curved form. -/
def ofSign (s : Sign) : Figure := ⟨s, false⟩

/-- The figure of a list of characters: one that lists all forms of a sign. -/
def ofChars? (cs : List Char) : Option Figure := (Sign.all.find? fun s => s.chars == cs).map ofSign

end Figure

/-- A share of a cell's side. -/
inductive Share where
  | none | half | minusHalf | full
deriving Repr, DecidableEq

/-- The size of a cell, and how much of it a curve takes up. -/
structure Pen (α : Type) where
  width : α
  height : α
  curve : α
deriving Repr

namespace Pen

variable {α : Type} [Measure α]

open StrandScript.Measure

/-- A share as a number. -/
def share : Share → α
  | .none => ofInt 0
  | .half => half
  | .minusHalf => minusHalf
  | .full => ofInt 1

/-- A move by shares of a cell. -/
def move (p : Pen α) (x y : Share) : Except Fault (PathCommand α) := do
  return .moveBy (← mul p.width (share x)) (← mul p.height (share y))

/-- A length, or its negative. -/
def signed (forward : Bool) (x : α) : Except Fault α := if forward then .ok x else sub (ofInt 0) x

/-- Half a cell across, to the right or to the left. -/
def halfAcross (p : Pen α) (forward : Bool) : Except Fault (PathCommand α) := do
  return .across (← signed forward (← div p.width (ofInt 2)))

/-- Half a cell down or up. -/
def halfDown (p : Pen α) (forward : Bool) : Except Fault (PathCommand α) := do
  return .down (← signed forward (← div p.height (ofInt 2)))

/-- A cell across, to the right or to the left. -/
def fullAcross (p : Pen α) (forward : Bool) : Except Fault (PathCommand α) := do
  return .across (← signed forward p.width)

/-- A cell down or up. -/
def fullDown (p : Pen α) (forward : Bool) : Except Fault (PathCommand α) := do
  return .down (← signed forward p.height)

/-- The straight part of half a side, before or after a small curve. -/
def stretch (p : Pen α) (d : Dir) (size : α) : Except Fault (PathCommand α) := do
  match d with
  | .up => return .down (← sub (ofInt 0) (← div (← mul size p.height) (ofInt 2)))
  | .down => return .down (← div (← mul size p.height) (ofInt 2))
  | .left => return .across (← sub (ofInt 0) (← div (← mul size p.width) (ofInt 2)))
  | .right => return .across (← div (← mul size p.width) (ofInt 2))

/-- A curve that starts in direction `d` and ends in direction `e`; its control point and its end
are given in half cells. A curve that does not fill its quarter of the cell has a straight stretch
before and after it. -/
def bend (p : Pen α) (cx cy x y : Int) (d e : Dir) : Except Fault (List (PathCommand α)) := do
  let part (side : α) (n : Int) : Except Fault α := do div (← mul side (ofInt n)) (ofInt 2)
  if isUnit p.curve then
    return [.curve (← part p.width cx) (← part p.height cy) (← part p.width x) (← part p.height y)]
  else
    let before ← p.stretch d (← sub unit p.curve)
    let w ← mul p.width p.curve
    let h ← mul p.height p.curve
    let curve := PathCommand.curve (← part w cx) (← part h cy) (← part w x) (← part h y)
    let after ← p.stretch e (← sub unit p.curve)
    return [before, curve, after]

/-- Commands after a move that is made only at the start of a strand. -/
def startingAt (p : Pen α) (start : Bool) (x y : Share)
    (rest : Except Fault (List (PathCommand α))) : Except Fault (List (PathCommand α)) := do
  if start then return (← p.move x y) :: (← rest) else rest

/-- A command after a command. -/
def pairOf (a b : Except Fault (PathCommand α)) : Except Fault (List (PathCommand α)) := do
  return [← a, ← b]

/-- A command alone. -/
def only (a : Except Fault (PathCommand α)) : Except Fault (List (PathCommand α)) := do return [← a]

/-- What is drawn of a figure that the strand leaves in direction `d`; the last cell of a strand
counts as left in the direction in which it is entered. -/
def piece (p : Pen α) (f : Figure) (d : Dir) (start : Bool) : Except Fault (List (PathCommand α)) :=
  match f.sign, f.sharp, d with
  | .upRight, false, .right => p.startingAt start .half .none (p.bend 0 1 1 1 .down .right)
  | .upRight, false, .up => p.startingAt start .full .half (p.bend (-1) 0 (-1) (-1) .left .up)
  | .downLeft, false, .down => p.startingAt start .none .half (p.bend 1 0 1 1 .right .down)
  | .downLeft, false, .left => p.startingAt start .half .full (p.bend 0 (-1) (-1) (-1) .up .left)
  | .downRight, false, .down => p.startingAt start .full .half (p.bend (-1) 0 (-1) 1 .left .down)
  | .downRight, false, .right => p.startingAt start .half .full (p.bend 0 (-1) 1 (-1) .up .right)
  | .upLeft, false, .left => p.startingAt start .half .none (p.bend 0 1 (-1) 1 .down .left)
  | .upLeft, false, .up => p.startingAt start .none .half (p.bend 1 0 1 (-1) .right .up)
  | .downLeft, true, .down =>
    p.startingAt start .none .half (pairOf (p.halfAcross true) (p.halfDown true))
  | .downLeft, true, .left =>
    p.startingAt start .full .half (pairOf (p.halfAcross false) (p.halfDown false))
  | .upRight, true, .right =>
    p.startingAt start .half .none (pairOf (p.halfDown true) (p.halfAcross true))
  | .upRight, true, .up =>
    p.startingAt start .full .half (pairOf (p.halfAcross false) (p.halfDown false))
  | .downRight, true, .down =>
    p.startingAt start .full .half (pairOf (p.halfAcross false) (p.halfDown true))
  | .downRight, true, .right =>
    p.startingAt start .half .full (pairOf (p.halfDown false) (p.halfAcross true))
  | .upLeft, true, .left =>
    p.startingAt start .half .none (pairOf (p.halfDown true) (p.halfAcross false))
  | .upLeft, true, .up =>
    p.startingAt start .none .half (pairOf (p.halfAcross true) (p.halfDown false))
  | .horizontal, _, .right => only (p.fullAcross true)
  | .horizontal, _, .left => only (p.fullAcross false)
  | .vertical, _, .down => p.startingAt start .half .none (only (p.fullDown true))
  | .vertical, _, .up => p.startingAt start .half .full (only (p.fullDown false))
  | .closing, _, .down => pairOf (p.move .none .half) (p.halfDown true)
  | .closing, _, .up => p.startingAt start .half .full (only (p.halfDown false))
  | .opening, _, .up => pairOf (p.move .none .minusHalf) (p.halfDown false)
  | .opening, _, .down => p.startingAt start .half .none (only (p.halfDown true))
  | .stubLeft, _, .left => pairOf (p.move .minusHalf .none) (p.fullAcross false)
  | .stubLeft, _, .right => pairOf (p.move .half .half) (p.halfDown true)
  | .stubRight, _, .right => pairOf (p.move .half .none) (p.fullAcross true)
  | .stubRight, _, .left => pairOf (p.move .half .half) (p.halfDown false)
  | _, _, _ => .ok []

/-- How many columns the line moves on in a figure: one for whatever is left sideways. -/
def advance (f : Figure) (d : Dir) : Int :=
  match f.sign, d with
  | .upRight, .right | .downRight, .right | .horizontal, .right | .stubLeft, .right
  | .stubRight, .right => 1
  | .downLeft, .left | .upLeft, .left | .horizontal, .left | .stubLeft, .left
  | .stubRight, .left => -1
  | _, _ => 0

/-- The columns that a line has reached, the last one at the end, after it moves on. -/
def reach (columns : List Int) (n : Int) : Except Fault (List Int) :=
  if n = 0 then .ok columns
  else
    match columns.getLast? with
    | some x => .ok (columns ++ [x + n])
    | none => .error .outOfRange

/-- What is drawn in a cell and the columns reached after it. A character that draws no sign, or a
direction that its sign does not have, draws nothing. -/
def cell (p : Pen α) (f : Option Figure) (d : Option Dir) (start : Bool) (columns : List Int) :
    Except Fault (List (PathCommand α) × List Int) :=
  match f, d with
  | some f, some d => do return (← p.piece f d start, ← reach columns (advance f d))
  | _, _ => .ok ([], columns)

/-- The cells of a strand after a cell that was left in direction `d`. -/
def cells (p : Pen α) (d : Dir) (columns : List Int) :
    List Cell → Except Fault (List (PathCommand α) × List Int)
  | [] => .ok ([], columns)
  | c :: cs => do
    let e := c.dir.getD d
    let (here, columns) ← p.cell (Figure.ofChar? c.symbol) (some e) false columns
    let (rest, columns) ← p.cells e columns cs
    return (here ++ rest, columns)

/-- A strand whose glyph is drawn `dx` columns to the right and `dy` rows down: a move to its hook
and its line from there. -/
def strand (p : Pen α) (dx dy : Int) (s : Strand) (columns : List Int) :
    Except Fault (List (PathCommand α) × List Int) := do
  let x ← mul (ofInt (s.hook.pos.x + dx)) p.width
  let y ← mul (ofInt (s.hook.pos.y + dy)) p.height
  let (hook, columns) ←
    p.cell (some (Figure.ofSign s.hook.sign)) (some s.hook.dir) true columns
  let (rest, columns) ← p.cells s.hook.dir columns s.cells
  return (.moveTo x y :: hook ++ rest, columns)

end Pen

end StrandScript
