import StrandScript.Glyph.Arrangement
import StrandScript.Text.Lines

/-!
# Programs

A program is a text. Its glyphs are located and cut out, the table of primes is made as long as the
longest side of any of them, and then all strands are followed and arranged.

* `Program.panels`: the glyphs cut out.
* `Program.parse`: the program read in full.
-/

namespace StrandScript.Program

/-- The grid of a text: its lines. -/
def grid (text : String) : Grid := Lines.split text.toList

/-- The locations of a program's glyphs; there must be one. -/
def locate (g : Grid) : Except Fault (List Location) := do
  let locs ← g.locations
  if locs.isEmpty then throw (.complaint .noGlyph)
  return locs

/-- Arranges the strands of the glyphs from number `g` on. -/
def arrange (primes : List Nat) : Nat → List (Panel × List Strand) → Except Fault (List Glyph)
  | _, [] => .ok []
  | g, (p, ss) :: rest => do
    let tokens ← Arrangement.tokens g primes ss
    let glyphs ← arrange primes (g + 1) rest
    return ⟨p, tokens⟩ :: glyphs

/-- The table of primes for some glyphs, and the glyphs with their strands. -/
def lex (limit : Nat) (panels : List Panel) :
    Except Fault (List Nat × List (Panel × List Strand)) := do
  let primes ← Primes.ofGrids (panels.map (·.rows))
  let lexed ← panels.mapM fun p => do return (p, ← p.rows.strands limit primes)
  return (primes, lexed)

/-- Reads a grid in full, strands being followed within a nesting limit. -/
def parseGrid (limit : Nat) (g : Grid) : Except Fault (List Glyph) := do
  let g ← g.trim
  let locs ← locate g
  let (primes, lexed) ← lex limit (locs.map (·.cut g))
  arrange primes 0 lexed

/-- Reads a program in full, strands being followed within a nesting limit. -/
def parseWithin (limit : Nat) (text : String) : Except Fault (List Glyph) :=
  parseGrid limit (grid text)

/-- Reads a program in full. -/
def parse (text : String) : Except Fault (List Glyph) := parseWithin nestingLimit text

end StrandScript.Program
