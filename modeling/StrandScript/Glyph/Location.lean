import StrandScript.Grid

/-!
# Where the glyphs of a program are

A glyph is the rectangle between an opening sign in its upper left and a closing sign in its lower
right corner. Several opening signs in a row give its level.

* `Grid.openings`, `Grid.closings`: the signs that no strand continues.
* `Location.pairUp`: every closing sign takes the nearest opening sign above and left of it that no
  other opening sign separates from it.
* `Location.cut`: the rectangle, its opening and closing signs blanked out.
-/

namespace StrandScript

/-- The last opening sign of a run of `level` of them. -/
structure Opening where
  pos : Pos
  level : Int
deriving Repr, DecidableEq

/-- Where a glyph begins and ends. -/
structure Location where
  start : Pos
  stop : Pos
  level : Int
deriving Repr, DecidableEq

/-- A glyph cut out of its program. -/
structure Panel where
  level : Int
  rows : Grid
deriving Repr, DecidableEq

namespace Grid

/-- The opening signs of a row that no opening sign follows and no strand continues. The last
character of a row opens nothing. -/
def openingsInRow (g : Grid) (y : Nat) (row : Row) : List Opening :=
  (Row.columns Sign.opening.chars row).filterMap fun (x : Nat) =>
    let p : Pos := ⟨x, y⟩
    let followed := (row[x + 1]?).all (Sign.opening.chars.contains ·)
    if !followed && !g.continues p .up && !g.continues p .down then
      let before := (row.take x).reverse.takeWhile (Sign.opening.chars.contains ·)
      some ⟨p, before.length + 1⟩
    else none

/-- The closing signs of a row that no strand continues. -/
def closingsInRow (g : Grid) (y : Nat) (row : Row) : List Pos :=
  (Row.columns Sign.closing.chars row).filterMap fun (x : Nat) =>
    let p : Pos := ⟨x, y⟩
    if !g.continues p .down && !g.continues p .up then some p else none

/-- The opening signs of a program, in reading order. -/
def openings (g : Grid) : List Opening := g.zipIdx.flatMap fun (row, y) => g.openingsInRow y row

/-- The closing signs of a program, in reading order. -/
def closings (g : Grid) : List Pos := g.zipIdx.flatMap fun (row, y) => g.closingsInRow y row

end Grid

namespace Location

/-- Whether `o` lies in the rectangle from `s` to `e`, edges included. -/
def within (s e o : Pos) : Bool := s.x ≤ o.x && o.x ≤ e.x && s.y ≤ o.y && o.y ≤ e.y

/-- The opening signs strictly above and left of `e` with no other one in between. -/
def candidates (os : List Opening) (e : Pos) : List Opening :=
  os.filter fun s =>
    s.pos.x < e.x && s.pos.y < e.y && !os.any fun o => within s.pos e o.pos && o != s

/-- The square of the distance between two places. -/
def distance (p q : Pos) : Int := (p.x - q.x) * (p.x - q.x) + (p.y - q.y) * (p.y - q.y)

/-- The first of the opening signs that are nearest to `e`. -/
def closest (e : Pos) : List Opening → Option Opening
  | [] => none
  | o :: os =>
    match closest e os with
    | none => some o
    | some b => if distance b.pos e < distance o.pos e then some b else some o

/-- Pairs the closing signs in turn, each with the closest of the opening signs that are left. -/
def pairUp : List Opening → List Pos → Except Fault (List Location × List Opening)
  | os, [] => .ok ([], os)
  | os, e :: es =>
    match closest e (candidates os e) with
    | none => .error (.complaint (.closingAlone e))
    | some o => do
      let (locs, rest) ← pairUp (os.erase o) es
      return (⟨o.pos, e, o.level⟩ :: locs, rest)

/-- Pairs all opening and closing signs, in reading order of the opening ones. -/
def ofSigns (os : List Opening) (es : List Pos) : Except Fault (List Location) := do
  match ← pairUp os es with
  | (_, o :: _) => .error (.complaint (.openingAlone o.pos))
  | (locs, []) => return locs.mergeSort fun a b => Pos.rowMajor a.start b.start

/-- The column where the opening signs begin. -/
def firstColumn (l : Location) : Int := l.start.x - l.level + 1

/-- A row with its last character blanked out. -/
def blankLast (r : Row) : Row := if r.isEmpty then r else r.dropLast ++ [' ']

/-- A row with its first `n` characters blanked out. -/
def blankFirst (n : Nat) (r : Row) : Row := List.replicate (min n r.length) ' ' ++ r.drop n

/-- A grid with its last row changed. -/
def onLast (f : Row → Row) : Grid → Grid
  | [] => []
  | [r] => [f r]
  | r :: rs => r :: onLast f rs

/-- A grid with its first row changed. -/
def onFirst (f : Row → Row) : Grid → Grid
  | [] => []
  | r :: rs => f r :: rs

/-- The rectangle of a location, opening and closing signs included. -/
def rectangle (l : Location) (g : Grid) : Grid :=
  ((g.drop l.start.y.toNat).take (l.stop.y - l.start.y + 1).toNat).map fun r =>
    (r.take (l.stop.x + 1).toNat).drop l.firstColumn.toNat

/-- The glyph of a location: its rectangle without the opening and closing signs. -/
def cut (l : Location) (g : Grid) : Panel :=
  ⟨l.level, onLast blankLast (onFirst (blankFirst l.level.toNat) (l.rectangle g))⟩

end Location

namespace Panel

/-- The number of rows and the length of the last one. -/
def extent (p : Panel) : Nat × Nat := (p.rows.length, (p.rows.getLast?.map List.length).getD 0)

end Panel

namespace Grid

/-- Where the glyphs of a program are. -/
def locations (g : Grid) : Except Fault (List Location) := Location.ofSigns g.openings g.closings

/-- Whether a row is empty or all blanks. -/
def isBlankRow (r : Row) : Bool := r.all (· == ' ')

/-- The grid without a blank first row and without a blank last row. There must be a row to look
at each time. -/
def trim (g : Grid) : Except Fault Grid :=
  match g with
  | [] => .error .outOfRange
  | r :: rs =>
    let g := if isBlankRow r then rs else g
    match g.getLast? with
    | none => .error .outOfRange
    | some l => .ok (if isBlankRow l then g.dropLast else g)

end Grid

end StrandScript
