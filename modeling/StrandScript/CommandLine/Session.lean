import StrandScript.CommandLine.Arguments
import StrandScript.Drawing.Request
import StrandScript.Listing

/-!
# A session on the command line

What the program does with its arguments and the files around it: it prints a program, draws it, or
runs it. The outcome is what was printed, the exit code or the fault, and the files afterwards.
-/

namespace StrandScript.CommandLine

/-- How a session ends. -/
structure Outcome where
  printed : String
  result : Except Fault Nat
  disk : Disk

/-- The text of a program file, with its line ends made one. -/
def decode (bytes : ByteArray) : Except Fault String :=
  match String.fromUTF8? bytes with
  | some s => .ok (String.ofList (Lines.unify s.toList))
  | none => .error .notText

/-- Reads the glyphs of a program file. -/
def load (d : Disk) (file : String) : Except Fault (List Glyph) := do
  Program.parse (← decode (← d.read (.ofString file)))

/-- A session that ends without having printed anything. -/
def quiet (d : Disk) (r : Except Fault Nat) : Outcome := ⟨"", r, d⟩

/-- Prints a program, and then that there is nothing more to tell. -/
def print (d : Disk) (file : String) : Outcome :=
  match (do Listing.program false (← load d file) : Except Fault String) with
  | .ok text => ⟨text ++ "None\n", .ok 0, d⟩
  | .error f => quiet d (.error f)

/-- Draws a program and saves the drawing under the standard name. -/
def draw (d : Disk) (file theme : String) : Outcome :=
  let request : Except Fault Request := do
    let glyphs ← load d file
    return ⟨← Style.ofTheme theme, glyphs, none⟩
  match request with
  | .error f => quiet d (.error f)
  | .ok r =>
    let (result, d) := d.serve r
    quiet d (result.map fun _ => 0)

/-- Runs a program; a verbose run is followed glyph by glyph. -/
def execute (d : Disk) (file : String) (verbose : Bool) : Outcome :=
  match load d file with
  | .error f => quiet d (.error f)
  | .ok glyphs =>
    let run := Program.runGlyphs nestingLimit glyphs
    let t : Listing.Transcript := if verbose then Listing.transcript run else ⟨"", run.fault⟩
    match t.fault with
    | some f => ⟨t.text, .error f, d⟩
    | none => ⟨t.text, .ok 0, d⟩

/-- A whole session. -/
def session (d : Disk) (args : List String) : Outcome :=
  match Arguments.parse args with
  | .usage => quiet d (.ok 2)
  | .help => quiet d (.ok 0)
  | .request r =>
    let file := r.file.getD ""
    if r.print then print d file
    else if r.svg then draw d file r.theme
    else execute d file r.verbose

end StrandScript.CommandLine
