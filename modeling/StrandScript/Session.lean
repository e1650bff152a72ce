import StrandScript.Program

/-!
# Sessions

A session keeps one table of primes between readings: reading a program makes a new table as soon
as its glyphs are known, and a single glyph is read with the table at hand. A table that cannot be
made leaves the shortest one.
-/

namespace StrandScript.Session

/-- The table after an attempt to make one for some grids. -/
def reload (gs : List Grid) : List Nat :=
  match Primes.ofGrids gs with
  | .ok ps => ps
  | .error _ => [1]

/-- The glyphs of a program, cut out. -/
def panels (g : Grid) : Except Fault (List Panel) := do
  let g ← g.trim
  let locs ← Program.locate g
  return locs.map (·.cut g)

/-- Reads a program; the table changes once the glyphs are found. -/
def parse (limit : Nat) (primes : List Nat) (text : String) :
    Except Fault (List Glyph) × List Nat :=
  let result := Program.parseWithin limit text
  match panels (Program.grid text) with
  | .error _ => (result, primes)
  | .ok ps => (result, reload (ps.map (·.rows)))

/-- Reads one glyph with the table at hand. -/
def lex (limit : Nat) (primes : List Nat) (g : Grid) : Except Fault (List Strand) :=
  g.strands limit primes

/-- Makes a table for some grids. -/
def load (gs : List Grid) : Except Fault Unit × List Nat :=
  ((Primes.ofGrids gs).map fun _ => (), reload gs)

end StrandScript.Session
