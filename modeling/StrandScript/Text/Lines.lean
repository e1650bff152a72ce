/-!
# Lines of text

A text is split into lines at line feeds, carriage returns (a pair of both being one break) and the
other break characters. A break at the very end opens no further line.
-/

namespace StrandScript.Lines

/-- The characters that end a line. -/
def isBreak (c : Char) : Bool :=
  c == '\n' || c == '\r' || c == '\x0b' || c == '\x0c' || c == '\x1c' || c == '\x1d' || c == '\x1e'
    || c == '\x85' || c == '\u2028' || c == '\u2029'

/-- The lines of a text, without their breaks. -/
def split : List Char → List (List Char)
  | [] => []
  | '\r' :: '\n' :: cs => [] :: split cs
  | c :: cs =>
    if isBreak c then [] :: split cs
    else
      match split cs with
      | [] => [[c]]
      | l :: ls => (c :: l) :: ls

/-- A text with every carriage return, or pair of carriage return and line feed, turned into a line
feed. -/
def unify : List Char → List Char
  | [] => []
  | '\r' :: '\n' :: cs => '\n' :: unify cs
  | c :: cs => (if c == '\r' then '\n' else c) :: unify cs

end StrandScript.Lines
