import StrandScript.Plane
import StrandScript.Text.Quoted

/-!
# Faults

Every way in which reading, running, printing or saving a program can fail, by its cause. The
wording of those that have one is in `Fault.message?`.
-/

namespace StrandScript

/-- What is wrong with a program. -/
inductive Complaint where
  | noGlyph
  | closingAlone (place : Pos)
  | openingAlone (place : Pos)
  | noReading (place : Pos)
  | noCommand (number : Option Int)
  | secondMisplaced (glyph : Nat)
  | tooManyQuestions (glyph : Nat)
  | secondMissing (place : Pos) (glyph : Nat)
  | listOutOfBounds
  | cellOutOfBounds
  | commandMissing
  | targetUnknown
deriving Repr, DecidableEq

/-- A whole number or its absence, as text. -/
def numberText : Option Int → String
  | some n => toString n
  | none => "None"

/-- The two coordinates of a place, as text. -/
def Pos.text (p : Pos) : String := toString p.x ++ ", " ++ toString p.y

/-- The wording of a complaint. -/
def Complaint.message : Complaint → String
  | .noGlyph => "No glyph found"
  | .closingAlone p => "End glyph at " ++ p.text ++ " has no corresponding Start"
  | .openingAlone p => "Start glyph at " ++ p.text ++ " has no matching end"
  | .noReading p => "No valid reading found for char " ++ p.text
  | .noCommand n => "Command not found for " ++ numberText n
  | .secondMisplaced g =>
    "A second question marker must begin just below where the first ends [glyph " ++
      toString g ++ "]"
  | .tooManyQuestions g =>
    "Invalid number of question markers: only 0 or 2 are allowed in a glyph [glyph " ++ toString g
      ++ "]"
  | .secondMissing p g =>
    "Question marker without a second marker at [" ++ p.text ++ "] in glyph " ++ toString g
  | .listOutOfBounds => "List reference out of bounds"
  | .cellOutOfBounds => "Cell reference out of bounds"
  | .commandMissing => "No command found in token"
  | .targetUnknown => "Could not determine what question marker applies to"

/-- The causes of failure. -/
inductive Fault where
  /-- The program is wrong. -/
  | complaint (c : Complaint)
  /-- A strand runs into a blank cell. -/
  | blankCell (place : Pos)
  /-- A strand runs into a character that draws no sign. -/
  | unknownSign (c : Char)
  /-- A token lacks a field. -/
  | missingField (field : String)
  /-- The store has no list of this number. -/
  | missingList (number : Int)
  /-- No command has this number. -/
  | missingCommand (number : Option Int)
  /-- No theme has this name. -/
  | missingTheme (theme : String)
  /-- A place outside a list, a row or a grid. -/
  | outOfRange
  /-- A value of a kind that an operation does not take. -/
  | wrongKind
  /-- A value that an operation cannot take. -/
  | badValue
  | divisionByZero
  | overflow
  /-- Calls nested beyond the limit. -/
  | tooDeep
  | noSuchFile
  /-- A file stands where a directory is needed. -/
  | fileInWay
  /-- A file stands inside the path of a directory to be made. -/
  | notDirectory
  /-- A directory stands where a file is needed. -/
  | isDirectory
  | notText
deriving Repr, DecidableEq

/-- The wording of a fault, for those that have one. -/
def Fault.message? : Fault → Option String
  | .complaint c => some ("SYNTAX ERROR: " ++ c.message)
  | .blankCell p =>
    some ("INTERNAL ERROR: Blank space found at " ++ toString p.x ++ "," ++ toString p.y)
  | .unknownSign c => some ("INTERNAL ERROR: No symbol found for " ++ String.ofList [c])
  | .missingField f => some (Quoted.quote f)
  | .missingList n => some (toString n)
  | .missingCommand n => some (Quoted.quote (numberText n))
  | .missingTheme t => some (Quoted.quote t)
  | _ => none

end StrandScript
