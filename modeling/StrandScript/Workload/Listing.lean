import StrandScript.Listing
import StrandScript.Workload.Reading

/-!
# Workloads that write programs out

The sample glyphs are written out, each with some notes added, so that between them they have lines
of every kind.

* `Workload.everyLine`: the notes added to each glyph.
* `Workload.listings`: how much is written.
-/

namespace StrandScript.Workload

open Listing

/-- A note about the first cell of list 1. -/
def cellNote (form : Form) (action : Option Act) : Note :=
  { role := some .data, form := some form, list := some (some 1), cell := some (some 0)
    value := some (.int 1), ref := some (some ⟨1, 0⟩), refList := none, action := some action
    subject := none, repetition := none, test := none }

/-- A note about a question on list 1 or its first cell. -/
def questionNote (subject : Subject) (repetition : Repetition) : Note :=
  { role := some .question, form := some (.other "first"), list := none, cell := none
    value := none, ref := some (some ⟨1, 0⟩), refList := some (some 1), action := some none
    subject := some subject, repetition := some repetition, test := some (some ">0") }

/-- The commands that have a line of their own, one that is written like an addition, and one that
is no command. -/
def written : List Command :=
  [.add, .subtract, .overwrite, .multiply, .divide, .modulo, .power, .insert, .append, .pop,
   .popAppend, .other "unknown_command"]

/-- Notes with every line that a data token can have, and with questions on a list and a cell. -/
def everyLine : List Note :=
  written.map (fun c => cellNote .value (some ⟨some c, none, 1⟩)) ++
    [cellNote .ref (some ⟨some .overwrite, none, 1⟩), cellNote .listToList none,
     questionNote .list .loop, questionNote .cell .once]

/-- A note in which a question names its test. -/
def tested (n : Note) : Note :=
  if n.role = some .question then { n with test := some (some ">0") } else n

/-- A sheet with its tests named and the notes of every line added. -/
def extended (s : Sheet) : Sheet :=
  { s with notes := s.notes.map fun ns => ns.map tested ++ everyLine }

/-- How much is written when `n` glyphs are written out in one listing, and then each drawing, each
pseudo-code and each summary by itself. -/
def listings (n : Int) : Except Fault Nat := do
  let samples ← Sample.programs.mapM fun (_, text) => Program.parse text
  let pages := (cycle n samples.flatten).map fun g =>
    let (rows, sheet) := page g
    (rows, extended sheet)
  let together ← Listing.pages true pages
  let alone ← pages.mapM fun (rows, sheet) => do
    return rows.text.length + (← pseudo sheet).length + (← summary sheet).length
  return alone.foldl (· + ·) together.length

end StrandScript.Workload
