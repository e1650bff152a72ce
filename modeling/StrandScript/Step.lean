import StrandScript.Command
import StrandScript.Glyph.Token
import StrandScript.Store

/-!
# Steps

A step is what one token tells the machine to do. Its fields may be missing, and reading a missing
one is a fault; the steps of a program read in full have all the fields that their kind needs.

* `Token.step`: the step of a token.
* `Step.perform`: a step performed on the store, which keeps what was written before a fault.
* `Step.performAll`: the steps of a glyph, and their answer.
-/

namespace StrandScript

/-- What a step is for. -/
inductive Role where
  | data | question
  | other (name : String)
deriving Repr, DecidableEq, Inhabited

/-- The word for a role. -/
def Role.name : Role → String
  | data => "data"
  | question => "question_marker"
  | other n => n

/-- The role that a word names. -/
def Role.ofName : String → Role
  | "data" => data
  | "question_marker" => question
  | n => other n

/-- The form of a step or of its action: where its value comes from, or what it applies to. -/
inductive Form where
  | value | ref | element | list | listToList
  | other (name : String)
deriving Repr, DecidableEq, Inhabited

/-- The word for a form. -/
def Form.name : Form → String
  | value => "value"
  | ref => "ref"
  | element => "element"
  | list => "list"
  | listToList => "list2list"
  | other n => n

/-- The form that a word names. -/
def Form.ofName : String → Form
  | "value" => value
  | "ref" => ref
  | "element" => element
  | "list" => list
  | "list2list" => listToList
  | n => other n

/-- What a question is asked about. -/
inductive Subject where
  | cell | list | unknown
deriving Repr, DecidableEq, Inhabited

/-- The subject that a word names. -/
def Subject.ofName : String → Subject
  | "cell" => cell
  | "list" => list
  | _ => unknown

/-- What becomes of the block of a question that is answered with yes. -/
inductive Repetition where
  | loop | once
  | other (name : String)
deriving Repr, DecidableEq, Inhabited

/-- The word for a repetition. -/
def Repetition.name : Repetition → String
  | loop => "while"
  | once => "if"
  | other n => n

/-- The repetition that a word names. -/
def Repetition.ofName : String → Repetition
  | "while" => loop
  | "if" => once
  | n => other n

/-- The action of a step; `fields` counts the fields it was given. -/
structure Act where
  command : Option Command
  form : Option Form
  fields : Nat
deriving Repr, DecidableEq

/-- What one token tells the machine. A field that was given as empty differs from one that is
missing; `fields` counts all fields that were given. -/
structure Step where
  role : Option Role
  form : Option Form
  list : Option Int
  cell : Option Int
  value : Option Value
  ref : Option CellRef
  refList : Option Int
  action : Option (Option Act)
  subject : Option Subject
  repetition : Option Repetition
  test : Option (Option String)
  fields : Nat
deriving Repr, Inhabited

/-! ## The steps of tokens -/

/-- The action of an action strand. -/
def Strand.act (s : Strand) : Option Act :=
  match s.meaning with
  | .act _ c .element => some ⟨some c, some .element, 14⟩
  | .act _ c .list => some ⟨some c, some .list, 14⟩
  | .act _ c (.listToList _) => some ⟨some c, some .listToList, 17⟩
  | _ => none

/-- The step of a data token. A token that refers to a cell has eighteen fields, one with a value
fifteen. -/
def DataToken.step (d : DataToken) : Step :=
  let (form, value, fields) : Form × Value × Nat :=
    match d.strand.meaning with
    | .value (some n) => (.value, .int n, 15)
    | .value none => (.value, .empty, 15)
    | _ => (.ref, .empty, 18)
  { role := some .data
    form := some form
    list := some d.list
    cell := some d.cell
    value := some value
    ref := d.ref
    refList := none
    action := some (d.action.bind Strand.act)
    subject := none
    repetition := none
    test := none
    fields := fields }

/-- The step of a question token. -/
def QuestionToken.step (q : QuestionToken) : Step :=
  { role := some .question
    form := some (.other "first")
    list := none
    cell := none
    value := some .empty
    ref := match q.target with
      | .cell r => some r
      | .list _ => none
    refList := match q.target with
      | .cell _ => none
      | .list n => some n
    action := some none
    subject := match q.target with
      | .cell _ => some .cell
      | .list _ => some .list
    repetition := some (if q.loops then .loop else .once)
    test := none
    fields := 21 }

/-- The step of a token. -/
def Token.step : Token → Step
  | .data d => d.step
  | .question q => q.step

/-! ## The machine -/

/-- A computation on the store that may fail; what was written before a fault stays. -/
abbrev Machine := EStateM Fault Store

namespace Machine

/-- A field that must be there. -/
def field {α : Type} (name : String) : Option α → Machine α
  | some a => pure a
  | none => throw (.missingField name)

/-- A pure computation that may fail. -/
def lift {α : Type} : Except Fault α → Machine α
  | .ok a => pure a
  | .error f => throw f

/-- The list of a number. -/
def list (n : Int) : Machine (List Value) := do
  match (← get).get? n with
  | some xs => return xs
  | none => throw (.missingList n)

/-- Replaces the list of a number. -/
def put (n : Int) (xs : List Value) : Machine Unit := modify (·.put n xs)

/-- The cell of a list, counted from either end. -/
def cell (xs : List Value) (i : Int) : Machine Value :=
  match Index.get? xs i with
  | some v => pure v
  | none => throw .outOfRange

/-- Writes a cell of a list. -/
def write (n i : Int) (v : Value) : Machine Unit := do
  match Index.set? (← list n) i v with
  | some xs => put n xs
  | none => throw .outOfRange

/-- Takes a cell out of a list. -/
def take (n i : Int) : Machine Value := do
  match Index.remove? (← list n) i with
  | some (v, xs) =>
    put n xs
    return v
  | none => throw .outOfRange

/-- Puts a value at the end of a list. -/
def append (n : Int) (v : Value) : Machine Unit := do put n ((← list n) ++ [v])

end Machine

/-! ## Data steps -/

/-- What a command makes of a cell's value and an operand. Commands that work on lists give nothing
here. -/
def Command.apply (c : Command) (v w : Value) : Except Fault Value :=
  match c with
  | .add => v.add w
  | .subtract => v.sub w
  | .overwrite => .ok w
  | .multiply => v.mul w
  | .divide => v.div w
  | .modulo => v.mod w
  | .power => v.pow w
  | .root => do v.pow (← (Value.int 1).div w)
  | _ => .ok .empty

/-- What an action makes of a cell's value and an operand. -/
def Act.resolve (a : Option Act) (v w : Value) : Except Fault Value :=
  match a.bind (·.command) with
  | some c => c.apply v w
  | none => .error (.complaint .commandMissing)

/-- The operand of a step: one value, or a list to be paired with the list written to. -/
inductive Operand where
  | one (v : Value)
  | many (vs : List Value)

/-- The operand for the `i`-th cell of a paired list. -/
def Operand.at (o : Operand) (i : Nat) : Except Fault Value :=
  match o with
  | .one _ => .error .wrongKind
  | .many vs =>
    match vs[i]? with
    | some v => .ok v
    | none => .error .outOfRange

/-- The operand where a single value is needed. -/
def Operand.single : Operand → Except Fault Value
  | .one v => .ok v
  | .many _ => .error .wrongKind

/-- Whether an action pairs its list with another one. -/
def Act.pairs (a : Option Act) : Bool := a.any fun a => a.form == some .listToList

namespace Step

/-- A step that writes to the cell just after the end of its list first adds that cell, as zero,
unless its command itself puts a value there. -/
def extend (s : Step) : Machine Unit := do
  match s.cell with
  | none => return
  | some c =>
    let n ← Machine.field "list" s.list
    let xs ← Machine.list n
    if (xs.length : Int) = c then
      let a ← Machine.field "action" s.action
      if !(a.bind (·.command)).any (·.appends) then Machine.append n (.int 0)

/-- The cell that a step refers to. -/
def referred (s : Step) : Machine Value := do
  let r ← Machine.field "ref_cell" s.ref
  if (s.fields : Int) ≤ r.list then throw (.complaint .listOutOfBounds)
  let xs ← Machine.list r.list
  if (xs.length : Int) ≤ r.cell then throw (.complaint .cellOutOfBounds)
  Machine.cell xs r.cell

/-- The list that an action pairs with the list written to; without such an action nothing. -/
def partner (s : Step) (a : Option Act) : Machine Operand := do
  if Act.pairs a then
    let n ← Machine.field "ref_list" s.refList
    return .many (← Machine.list n)
  else return .one .empty

/-- The operand of a step. -/
def operand (s : Step) (a : Option Act) : Machine Operand := do
  let base ← s.partner a
  match ← Machine.field "subtype" s.form with
  | .value => return .one (← Machine.field "value" s.value)
  | .ref => return .one (← s.referred)
  | _ => return base

/-- Changes the cells of list `n` from number `i` on, `count` of them, one after the other. -/
def overCells (f : Nat → Value → Except Fault Value) (n : Int) : Nat → Nat → Machine Unit
  | 0, _ => return
  | count + 1, i => do
    let v ← Machine.cell (← Machine.list n) i
    Machine.write n i (← Machine.lift (f i v))
    overCells f n count (i + 1)

/-- Changes all cells of the list of a step. -/
def overList (s : Step) (f : Nat → Value → Except Fault Value) : Machine Unit := do
  let n ← Machine.field "list" s.list
  overCells f n (← Machine.list n).length 0

/-- Changes the cell of a step. -/
def onCell (s : Step) (f : Value → Except Fault Value) : Machine Unit := do
  let n ← Machine.field "list" s.list
  let xs ← Machine.list n
  let i ← Machine.field "assign_to_cell" s.cell
  let v ← Machine.cell xs i
  Machine.write n i (← Machine.lift (f v))

/-- Applies the action of a step to its cell or list. Without a command the value is added. -/
def apply (s : Step) (a : Option Act) (o : Operand) : Machine Unit := do
  if Act.pairs a then
    s.overList fun i v => do Act.resolve a v (← o.at i)
  else
    let w ← Machine.lift o.single
    match a.bind (·.command) with
    | none => s.onCell (·.add w)
    | some .insert => do
      let n ← Machine.field "list" s.list
      let xs ← Machine.list n
      let i ← Machine.field "assign_to_cell" s.cell
      Machine.put n (Index.insert xs i w)
    | some .append => do
      let n ← Machine.field "list" s.list
      Machine.append n w
    | some .pop => do
      s.onCell (·.add w)
      if s.form = some .ref then
        let r ← Machine.field "ref_cell" s.ref
        discard <| Machine.take r.list r.cell
    | some .popAppend => do
      let n ← Machine.field "list" s.list
      discard <| Machine.list n
      let r ← Machine.field "ref_cell" s.ref
      let v ← Machine.take r.list r.cell
      Machine.append n v
    | some _ => do
      match ← Machine.field "subtype" (a.bind (·.form)) with
      | .list => s.overList fun _ v => Act.resolve a v w
      | _ => s.onCell fun v => Act.resolve a v w

/-- A data step. -/
def write (s : Step) : Machine Unit := do
  s.extend
  let a ← Machine.field "action" s.action
  let o ← s.operand a
  s.apply a o

end Step

/-! ## Questions and glyphs -/

/-- The answer of a glyph: go on with the next one, repeat the block, or leave it. -/
inductive Answer where
  | proceed | again | rollback
deriving Repr, DecidableEq, Inhabited

/-- The word for an answer. -/
def Answer.name : Answer → String
  | proceed => "cont"
  | again => "repeat"
  | rollback => "rollback"

/-- Whether all values are positive; the first that is not settles it. -/
def Value.allPositive : List Value → Except Fault Bool
  | [] => .ok true
  | v :: vs => do if ← v.isPositive then allPositive vs else return false

namespace Step

/-- Whether the question of a step is answered with yes. -/
def holds (s : Step) : Machine Bool := do
  match ← Machine.field "applies_to" s.subject with
  | .cell =>
    let r ← Machine.field "ref_cell" s.ref
    let v ← Machine.cell (← Machine.list r.list) r.cell
    Machine.lift v.isPositive
  | .list =>
    let n ← Machine.field "ref_list" s.refList
    Machine.lift (Value.allPositive (← Machine.list n))
  | .unknown => throw (.complaint .targetUnknown)

/-- The answer of a question: leave the block if it does not hold. -/
def ask (s : Step) : Machine Answer := do
  if ← s.holds then
    match ← Machine.field "block_type" s.repetition with
    | .loop => return .again
    | _ => return .proceed
  else return .rollback

/-- Performs a step after which the answer was `before`; only questions change the answer. -/
def perform (before : Answer) (s : Step) : Machine Answer := do
  match ← Machine.field "type" s.role with
  | .question => s.ask
  | _ =>
    s.write
    return before

/-- Performs the steps of a glyph. -/
def performAll (ss : List Step) : Machine Answer := ss.foldlM perform .proceed

end Step

end StrandScript
