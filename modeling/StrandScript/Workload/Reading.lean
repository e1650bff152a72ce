import StrandScript.Program
import StrandScript.Sample

/-!
# Workloads that read programs

Each workload takes a size and reads that many samples, going round them as often as needed. A
negative size counts as zero.

* `Workload.cycle`: the first samples, going round.
* `Workload.shapes`, `Workload.survey`, `Workload.strands`: programs read, located and lexed.
* `Workload.complaints`: what is said about programs that cannot be read.
-/

namespace StrandScript.Workload

/-- The first `n` members of a list that is gone through again and again. -/
def cycle {α : Type} (n : Int) (xs : List α) : List α :=
  (List.range n.toNat).filterMap fun i => xs[i % xs.length]?

/-- The first `n` sample programs with their names. -/
def programs (n : Int) : List (String × String) := cycle n Sample.programs

/-- The level, the number of rows and the number of tokens of each glyph of each program. -/
def shapes (n : Int) : Except Fault (List (List (Int × Nat × Nat))) :=
  (programs n).mapM fun (_, text) => do
    return (← Program.parse text).map fun g => (g.level, g.rows.length, g.tokens.length)

/-- What is known of a text before its strands are read. -/
structure Survey where
  locations : Nat
  panels : Nat
  primes : Nat
  levels : Int
deriving Repr, DecidableEq

/-- Locates and cuts out the glyphs of a text that holds `n` programs. -/
def survey (n : Int) : Except Fault Survey := do
  let g ← (Program.grid ("\n\n".intercalate ((programs n).map (·.2)))).trim
  let locs ← Program.locate g
  let panels := locs.map (·.cut g)
  let primes ← Primes.ofGrids (panels.map (·.rows))
  return ⟨locs.length, panels.length, primes.length, (panels.map (·.level)).foldl (· + ·) 0⟩

/-- A glyph whose action strand pairs two lists. -/
def pairing : Grid :=
  ["╰──╮╰─╮╰─╮", "   │ ─┘  │", "     ────┘", "      ╭", "      │", "      │", "      ╰─╶"].map
    (·.toList)

/-- A glyph whose strand leads into a blank cell. -/
def broken : Grid := ["╰──╮", "    "].map (·.toList)

/-- The glyphs of the sample programs, then the two single ones. -/
def glyphs : Except Fault (List Grid) := do
  let cut ← Sample.programs.mapM fun (_, text) => do
    let g ← (Program.grid text).trim
    return (← Program.locate g).map fun l => (l.cut g).rows
  return cut.flatten ++ [pairing, broken]

/-- The strands of the first `n` glyphs, all read with one table of primes. -/
def strands (n : Int) : Except Fault (List (List Strand)) := do
  let pool ← glyphs
  let primes ← Primes.ofGrids pool
  (cycle n pool).mapM fun g => g.strands nestingLimit primes

/-- Programs that cannot be read: one without a glyph, one whose strand has a hook at both ends, one
whose start looks like a reference, and one with a single question strand. -/
def faulty : List String :=
  [Sample.lines ["", "╰─╮", "  │", "  ╰─╮", "   ─┘"],
   Sample.lines ["", "╵╰─╮", "   │", "   ╰─╮", "   ╰─┘╷"],
   Sample.lines ["", "╵", "╰─╮", "  │", "  ╰─╮", "   ─┘╷"],
   Sample.lines ["", "╵╶╮ ╷ ", "  ╰─╯╷"]]

/-- A glyph whose action strand has a number that no command has. -/
def uncommanded : Grid := (["╭"] ++ List.replicate 8 "│").map (·.toList)

/-- The fault of a reading, if there was one. -/
def faultOf? {α : Type} : Except Fault α → Option Fault
  | .ok _ => none
  | .error f => some f

/-- What is said about `n` faulty programs, about a start without an end, and about an action
without a command. -/
def complaints (n : Int) : List Fault :=
  (cycle n faulty).filterMap (fun t => faultOf? (Program.parse t)) ++
    (faultOf? (Location.ofSigns [⟨⟨0, 0⟩, 1⟩] [])).toList ++
    (faultOf? (do uncommanded.strands nestingLimit (← Primes.ofGrids [uncommanded]))).toList

end StrandScript.Workload
