import StrandScript.Index
import StrandScript.Fault
import StrandScript.Sign

/-!
# Grids of characters

A drawing is a list of rows, which need not be of one length.

* `Row.columns`: where some characters stand in a row.
* `Grid.neighbor`: the cell next to a place, if the edge is not reached.
* `Grid.links`: the directions in which a sign is joined by its neighbours.
* `Grid.continues`: whether a neighbour reaches back to a place.
* `Grid.pad`: the grid filled up to a rectangle.
-/

namespace StrandScript

/-- A row of characters. -/
abbrev Row := List Char

/-- The columns of a row where some characters stand, one character after the other. -/
def Row.columns (cs : List Char) (row : Row) : List Nat :=
  cs.flatMap fun c => row.zipIdx.filterMap fun (d, x) => if d == c then some x else none

theorem Row.mem_columns {cs : List Char} {row : Row} {x : Nat} :
    x ∈ Row.columns cs row ↔ ∃ c ∈ cs, row[x]? = some c := by
  simp [Row.columns, List.mk_mem_zipIdx_iff_getElem?]

/-- A drawing: its rows from the top. -/
abbrev Grid := List Row

namespace Grid

/-- The row at a height. -/
def row (g : Grid) (y : Int) : Except Fault Row :=
  match Index.get? g y with
  | some r => .ok r
  | none => .error .outOfRange

/-- The character at a place. -/
def cell (g : Grid) (p : Pos) : Except Fault Char := do
  match Index.get? (← g.row p.y) p.x with
  | some c => .ok c
  | none => .error .outOfRange

/-- Whether a place has a neighbour in a direction. To the right the length of its own row counts,
so on a ragged grid a neighbour above or below may be missing all the same. -/
def hasNeighbor (g : Grid) (p : Pos) : Dir → Except Fault Bool
  | .up => .ok (0 < p.y)
  | .left => .ok (0 < p.x)
  | .down => .ok (p.y < (g.length : Int) - 1)
  | .right => return p.x < ((← g.row p.y).length : Int) - 1

/-- The character and place next to a place; nothing at the edge. -/
def neighbor (g : Grid) (p : Pos) (d : Dir) : Except Fault (Option (Char × Pos)) := do
  if ← g.hasNeighbor p d then return some (← g.cell (p.step d), p.step d) else return none

/-- The readings by which a sign is joined to others: corners, straight lines, and the start of a
question. A reading that would have to tell its kind, and has none, is a fault. -/
def linkReadings : List Reading → Except Fault (List Reading)
  | [] => .ok []
  | r :: rs => do
    let keep ←
      if r.place == .corner || r.place == .straight then .ok true
      else
        match r.kind with
        | some k => .ok (k == .question)
        | none => .error (.missingField "type")
    let rest ← linkReadings rs
    return if keep then r :: rest else rest

/-- Whether the neighbour in a direction reaches back. Two opening or two closing signs next to each
other do not join, nor does the lead to a strand. -/
def linked (g : Grid) (p : Pos) (d : Dir) : Except Fault Bool := do
  match ← g.neighbor p d with
  | none => return false
  | some (c, _) =>
    match Sign.ofChar? c with
    | none => return false
    | some s =>
      if (← g.cell p) == c && (s == .opening || s == .closing) then return false
      else return s.joins d.opposite

/-- Those of some directions in which the neighbour reaches back. -/
def linkedDirs (g : Grid) (p : Pos) : List Dir → Except Fault (List Dir)
  | [] => .ok []
  | d :: ds => do
    let here ← g.linked p d
    let rest ← g.linkedDirs p ds
    return if here then d :: rest else rest

/-- The directions in which a sign with these readings is joined by its neighbours; nothing if none
of its readings joins anything. Only the first such reading counts. -/
def links (g : Grid) (p : Pos) (rs : List Reading) : Except Fault (Option (List Dir)) := do
  match ← linkReadings rs with
  | [] => return none
  | r :: _ => return some (← g.linkedDirs p r.dirs)

/-- Whether the neighbour in a direction points back. Beyond the edge of a ragged grid nothing
does. -/
def continues (g : Grid) (p : Pos) (d : Dir) : Bool :=
  match g.neighbor p d with
  | .ok (some (c, _)) => (Sign.ofChar? c).any (·.points d.opposite)
  | _ => false

/-- The length of the longest row. -/
def width (g : Grid) : Nat := (g.map List.length).foldl max 0

/-- The grid filled up with blanks to a rectangle. -/
def pad (g : Grid) : Grid := g.map fun r => r ++ List.replicate (g.width - r.length) ' '

/-- The places of a grid with their characters, in reading order. -/
def cells (g : Grid) : List (Pos × Char) :=
  g.zipIdx.flatMap fun (r, y) => r.zipIdx.map fun (c, x) => (⟨x, y⟩, c)

/-- The text of a grid, a line feed after every row. -/
def text (g : Grid) : String := String.join (g.map fun r => String.ofList r ++ "\n")

end Grid

end StrandScript
