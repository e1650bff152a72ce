import StrandScript.Run

/-!
# Listings

A program written out: its glyphs as drawn, a line of pseudo-code for each token, and on request
the fields of each token. A run can be followed the same way.

* `Listing.pseudo`: the pseudo-code of a glyph.
* `Listing.summary`: the fields of a glyph's tokens.
* `Listing.program`: a whole program.
* `Listing.transcript`: a run, glyph by glyph, with the store after each.
-/

namespace StrandScript.Listing

/-- What a listing tells of a token. A field may be missing, and a number may be given as empty. -/
structure Note where
  role : Option Role
  form : Option Form
  list : Option (Option Int)
  cell : Option (Option Int)
  value : Option Value
  ref : Option (Option CellRef)
  refList : Option (Option Int)
  action : Option (Option Act)
  subject : Option Subject
  repetition : Option Repetition
  test : Option (Option String)

/-- The note of a step. -/
def Note.of (s : Step) : Note where
  role := s.role
  form := s.form
  list := s.list.map some
  cell := s.cell.map some
  value := s.value
  ref := s.ref.map some
  refList := s.refList.map some
  action := s.action
  subject := s.subject
  repetition := s.repetition
  test := s.test

/-- What a listing tells of a glyph. -/
structure Sheet where
  level : Option (Option Int)
  notes : Option (List Note)

/-- The sheet of an arranged glyph at a level. -/
def Sheet.of (level : Int) (tokens : List Token) : Sheet :=
  ⟨some (some level), some (tokens.map fun t => .of t.step)⟩

/-- A field that must be there. -/
def field {α : Type} (name : String) : Option α → Except Fault α
  | some a => .ok a
  | none => .error (.missingField name)

/-- The list of a token. -/
def listText (s : Note) : Except Fault String := do
  return "list" ++ numberText (← field "list" s.list)

/-- The cell of a token. -/
def cellText (s : Note) : Except Fault String := do
  let list ← listText s
  return list ++ "[" ++ numberText (← field "assign_to_cell" s.cell) ++ "]"

/-- A cell reference between brackets. -/
def refText : Option CellRef → String
  | some r => "[" ++ toString r.list ++ ", " ++ toString r.cell ++ "]"
  | none => "None"

/-! ## Pseudo-code -/

/-- The beginning of the line of a token with a command. -/
def commandText (s : Note) (c : Command) : Except Fault String :=
  match c with
  | .subtract => return (← cellText s) ++ " -= "
  | .multiply => return (← cellText s) ++ " *= "
  | .divide => return (← cellText s) ++ " /= "
  | .modulo => return (← cellText s) ++ " %= "
  | .power => return (← cellText s) ++ " ^= "
  | .overwrite => return (← cellText s) ++ " = "
  | .append => return (← listText s) ++ " append "
  | .insert => do
    let list ← listText s
    return list ++ " after cell " ++ numberText (← field "assign_to_cell" s.cell) ++ " insert "
  | .pop => return (← cellText s) ++ " (pops) += "
  | .popAppend => return (← listText s) ++ " pop/appends "
  | _ => return (← cellText s) ++ " += "

/-- The line of a question. -/
def questionText (s : Note) : Except Fault String := do
  let block := (← field "block_type" s.repetition).name
  match ← field "applies_to" s.subject with
  | .list =>
    let n ← field "ref_list" s.refList
    return "block_type = " ++ block ++ "if (list" ++ numberText n ++ ") has x: x <= 0: roll back"
  | _ =>
    let r ← field "ref_cell" s.ref
    return "block_type = " ++ block ++ "if " ++ refText r ++ " <= 0: roll back"

/-- The beginning of the line of a data token. -/
def writeText (s : Note) : Except Fault String := do
  let a ← field "action" s.action
  match a.bind (·.command) with
  | some c => commandText s c
  | none =>
    match ← field "subtype" s.form with
    | .list | .listToList => return "for each cell in " ++ (← listText s) ++ " += "
    | _ => return (← cellText s) ++ " += "

/-- The end of a line: where the value comes from. -/
def sourceText (s : Note) : Except Fault String := do
  match ← field "subtype" s.form with
  | .value => (← field "value" s.value).text
  | .ref =>
    match ← field "ref_cell" s.ref with
    | some r => return "list" ++ toString r.list ++ "[" ++ toString r.cell ++ "]"
    | none => throw .wrongKind
  | _ => return ""

/-- The line of a token. -/
def line (s : Note) : Except Fault String := do
  let head ← match ← field "type" s.role with
    | .question => questionText s
    | _ => writeText s
  return head ++ (← sourceText s) ++ "\n"

/-- The pseudo-code of a glyph. -/
def pseudo (g : Sheet) : Except Fault String := do
  let level ← field "level" g.level
  let lines ← (← field "tokens" g.notes).mapM line
  return "level: " ++ numberText level ++ "\n" ++ String.join lines

/-! ## Summaries -/

/-- The fields of a question. -/
def questionSummary (s : Note) : Except Fault String := do
  let test := "test: " ++ (← field "test" s.test).getD "None" ++ "\n"
  match ← field "applies_to" s.subject with
  | .list => return test ++ "ref_list: " ++ numberText (← field "ref_list" s.refList)
  | _ => return test ++ "ref_cell: " ++ refText (← field "ref_cell" s.ref)

/-- The fields that say where a data token writes. -/
def placeSummary (s : Note) : Except Fault String := do
  let list := "list = " ++ numberText (← field "list" s.list) ++ "\n"
  return list ++ "cell = " ++ numberText (← field "assign_to_cell" s.cell) ++ "\n"

/-- The field that says where the value comes from. -/
def sourceSummary (s : Note) (form : Form) : Except Fault String := do
  match form with
  | .value => return "value: " ++ (← (← field "value" s.value).text) ++ "\n"
  | .ref => return "ref_cell: " ++ refText (← field "ref_cell" s.ref) ++ "\n"
  | _ => return ""

/-- The command of an action that has any fields. -/
def actionSummary (s : Note) : Except Fault String := do
  match ← field "action" s.action with
  | none => return ""
  | some a =>
    if a.fields = 0 then return ""
    else return "action: " ++ (← field "command" a.command).name ++ "\n"

/-- The fields of a token. -/
def noteSummary (s : Note) : Except Fault String := do
  let role ← field "type" s.role
  let form ← field "subtype" s.form
  let head := "\ntype = " ++ role.name ++ "\nsubtype = " ++ form.name ++ "\n"
  let place ← if role = .question then .ok "" else placeSummary s
  let source ← sourceSummary s form
  let question ← if role = .question then questionSummary s else .ok ""
  return head ++ place ++ source ++ question ++ (← actionSummary s)

/-- The fields of a glyph's tokens. -/
def summary (g : Sheet) : Except Fault String := do
  let level ← field "level" g.level
  let notes ← (← field "tokens" g.notes).mapM noteSummary
  return "level: " ++ numberText level ++ String.join notes

/-! ## Programs and runs -/

/-- Drawn sheets from number `i` on; `full` adds the fields of the tokens. -/
def sheets (full : Bool) : Nat → List (Grid × Sheet) → Except Fault String
  | _, [] => .ok ""
  | i, (rows, sheet) :: rest => do
    let code ← pseudo sheet
    let fields ← if full then (summary sheet).map ("\nSTRAND SUMMARY\n" ++ ·) else .ok ""
    let later ← sheets full (i + 1) rest
    return "\nglyph " ++ toString i ++ "\n" ++ rows.text ++ "GLYPH_SUMMARY\n" ++ code ++ fields
      ++ later

/-- Drawn sheets written out, with a line feed at the end. -/
def pages (full : Bool) (ss : List (Grid × Sheet)) : Except Fault String :=
  (sheets full 0 ss).map (· ++ "\n")

/-- A glyph as drawn, with its sheet. -/
def page (g : Glyph) : Grid × Sheet := (g.rows, .of g.level g.tokens)

/-- A program written out, with a line feed at its end. -/
def program (full : Bool) (gs : List Glyph) : Except Fault String := pages full (gs.map page)

/-- Text written out before a fault, if there was one, stopped it. -/
structure Transcript where
  text : String
  fault : Option Fault

/-- Text written out before the rest of a transcript. -/
def Transcript.before (s : String) (t : Transcript) : Transcript := ⟨s ++ t.text, t.fault⟩

/-- What is written out after a glyph was executed: its drawing, its pseudo-code and the store. What
cannot be written stops it. -/
def entryText (l : Item.Linked Program.Numbered) (s : Store) : Transcript :=
  let drawn := l.glyph.glyph.rows.text ++ "\n"
  match pseudo (Sheet.of l.depth l.glyph.glyph.tokens) with
  | .error f => ⟨drawn, some f⟩
  | .ok code =>
    match s.text with
    | .error f => ⟨drawn ++ code ++ "\n", some f⟩
    | .ok store => ⟨drawn ++ code ++ "\n" ++ store ++ "\n\n\n", none⟩

/-- What is written out along a run; `fault` is what ends it. -/
def entries (fault : Option Fault) : List (Entry (Item.Linked Program.Numbered)) → Transcript
  | [] => ⟨"", fault⟩
  | e :: es =>
    match e.outcome with
    | .error f => ⟨"", some f⟩
    | .ok _ =>
      let t := entryText e.glyph e.store
      match t.fault with
      | some f => ⟨t.text, some f⟩
      | none => (entries fault es).before t.text

/-- A run followed glyph by glyph. -/
def transcript (r : Run (Item.Linked Program.Numbered)) : Transcript := entries r.fault r.trace

end StrandScript.Listing
