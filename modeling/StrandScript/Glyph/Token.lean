import StrandScript.Glyph.Location
import StrandScript.Strand

/-!
# Tokens

After arrangement a glyph is a list of tokens, in the order in which they run: its data strands,
each with the cell it writes to and the action strand that belongs to it, and then perhaps a
question.
-/

namespace StrandScript

/-- A cell of a list, by the number of the list and the place in it. -/
structure CellRef where
  list : Int
  cell : Int
deriving Repr, DecidableEq

/-- What a question asks about. -/
inductive Target where
  | cell (ref : CellRef)
  | list (number : Int)
deriving Repr, DecidableEq

/-- A data strand with the list and cell it writes to. A strand that points somewhere has the cell
it reads from. -/
structure DataToken where
  strand : Strand
  list : Int
  order : Nat
  cell : Nat
  action : Option Strand
  ref : Option CellRef
deriving Repr, DecidableEq

/-- A question: two strands, of which the second begins where the first ends. A question that
reaches to the right repeats its block. -/
structure QuestionToken where
  strand : Strand
  order : Nat
  loops : Bool
  second : Strand
  secondRef : CellRef
  tip : Sign
  target : Target
deriving Repr, DecidableEq

/-- A token of an arranged glyph. -/
inductive Token where
  | data (d : DataToken)
  | question (q : QuestionToken)
deriving Repr, DecidableEq

/-- An arranged glyph. -/
structure Glyph extends Panel where
  tokens : List Token
deriving Repr, DecidableEq

/-- The number of lists that a glyph reaches: one for each of its rows. -/
def Glyph.listSize (g : Glyph) : Nat := g.rows.length

end StrandScript
