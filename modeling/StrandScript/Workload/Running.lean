import StrandScript.Fibonacci
import StrandScript.CommandLine.Session
import StrandScript.Workload.Reading

/-!
# Workloads that run programs

Each workload takes a size. Programs are the samples, going round them as often as needed; commands,
trees and blocks are made up to size. A negative size counts as zero.

* `Workload.runs`, `Workload.transcripts`, `Workload.sessions`: sample programs run.
* `Workload.commands`: the arithmetic commands in turn.
* `Workload.nesting`, `Workload.growing`: a large tree, a long list.
-/

namespace StrandScript.Workload

/-- Runs `n` programs and gives their names. -/
def runs (n : Int) : Except Fault (List String) :=
  (programs n).mapM fun (name, text) =>
    match (Program.run text).fault with
    | none => .ok name
    | some f => .error f

/-- The length of the transcripts of `n` programs. -/
def transcripts (n : Int) : Except Fault Nat := do
  let lengths ← (programs n).mapM fun (_, text) =>
    let t := Listing.transcript (Program.run text)
    match t.fault with
    | none => .ok t.text.length
    | some f => .error f
  return lengths.foldl (· + ·) 0

/-- How many files `n` programs were saved in, and how much is printed when each is listed, and the
first of them is listed once more and then run verbosely. -/
def sessions (n : Int) : Except Fault (Nat × Nat) := do
  let files := (programs n).zipIdx.map fun ((_, text), i) =>
    ("sample" ++ toString i, text.toUTF8)
  let disk : Disk := .ofFiles [] files
  match files with
  | [] => .error .outOfRange
  | (first, _) :: _ =>
    let requests := files.map (fun (name, _) => ["-p", name]) ++ [["-p", first], ["-v", first]]
    let lengths ← requests.mapM fun args =>
      let o := CommandLine.session disk args
      o.result.map fun _ => o.printed.length
    return (files.length, lengths.foldl (· + ·) 0)

/-- The Fibonacci numbers up to a count, and their text. -/
def fibonacci (n : Int) : Except Fault (List Int × String) :=
  let work : Fibonacci.Work Unit := do
    modify Fibonacci.seed
    Fibonacci.assign 2 3 n
    Fibonacci.iterate
  match work.run ⟨[], [], []⟩ with
  | .ok _ l => .ok (l.first, Fibonacci.text l)
  | .error f _ => .error f

/-! ## Commands -/

/-- The arithmetic commands in their order. -/
def arithmetic : List Command :=
  [.add, .subtract, .overwrite, .multiply, .divide, .modulo, .power, .root]

/-- The first `n` commands with their operands, which go from two to six. -/
def operations (n : Int) : List (Command × Value) :=
  (cycle n arithmetic).zipIdx.map fun (c, i) => (c, .int (2 + i % 5))

/-- An action on a cell. -/
def act (c : Command) : Act := ⟨some c, some .element, 2⟩

/-- A step that applies a command with a given operand to the first cell of list 1. -/
def commandStep (c : Command) (v : Value) : Step :=
  { (default : Step) with
    role := some .data, form := some .value, list := some 1, cell := some 0, value := some v
    action := some (some (act c)), fields := 6 }

/-- All results of applying operations in turn, from a first value. -/
def results (v : Value) : List (Command × Value) → Except Fault (List Value)
  | [] => .ok []
  | (c, w) :: rest => do
    let v ← Act.resolve (some (act c)) v w
    return v :: (← results v rest)

/-- A value to so many decimals; a whole number stays as it is. -/
def rounded (places : Nat) : Value → Value
  | .real x => .real (Decimal.roundTo places x)
  | v => v

/-- A question about a cell or a list that does not repeat its block. -/
def question (subject : Subject) (r : CellRef) (list : Int) : Step :=
  { (default : Step) with
    role := some .question, ref := some r, refList := some list, subject := some subject
    repetition := some .once, fields := 5 }

/-- Four cells that begin with ten each, and a list whose cell is zero. -/
def fourCells : Store := ⟨[(1, List.replicate 4 (.real 10.0)), (2, [.int 0])]⟩

/-- What a computation on the store gives, the store being dropped. -/
def outcome {α : Type} (s : Store) (m : Machine α) : Except Fault α :=
  match m.run s with
  | .ok a _ => .ok a
  | .error f _ => .error f

/-- What the commands lead to. -/
structure Tally where
  cells : Nat
  total : Value
  applied : Nat
  last : List Value
  answers : List Answer
  faults : List Fault

/-- Applies `n` commands in turn to a cell of a store, and to a value on its own, then asks about a
cell, a list and a cell that is not positive, and meets a missing command and a question without a
subject. -/
def commands (n : Int) : Except Fault Tally := do
  let ops := operations n
  let cells ← outcome fourCells do
    let _ ← Step.performAll (ops.map fun (c, v) => commandStep c v)
    Machine.list 1
  let total ← cells.foldlM Value.add (.int 0)
  let rs ← results (.real 3.0) ops
  let answers ← [question .cell ⟨1, 1⟩ 1, question .list ⟨1, 1⟩ 1, question .cell ⟨2, 0⟩ 2].mapM
    fun q => outcome fourCells q.ask
  let faults := (faultOf? (Act.resolve none (.int 1) (.int 1))).toList ++
    (faultOf? (outcome fourCells (question .unknown ⟨1, 0⟩ 1).ask)).toList
  return ⟨cells.length, rounded 6 total, rs.length,
    (rs.drop (rs.length - 5)).map (rounded 4), answers, faults⟩

/-! ## Trees and blocks -/

/-- Levels that go up and down. -/
def levels : List Int := [1, 2, 3, 3, 2, 2, 3, 3, 1, 2, 2, 1]

/-- The tree of glyphs with given levels, linked. -/
def tree (ls : List Int) : Except Fault (List (Item (Item.Linked (Nat × Int)))) := do
  let glyphs := ls.zipIdx.map fun (l, i) => (i, l)
  let (items, _) ← Item.grow (·.2) (4 * ls.length + 4) 1 glyphs
  Item.link 0 none items

/-- The number of members of the first block among some items. -/
def innerSize {α : Type} : List (Item α) → Nat
  | [] => 0
  | .block items :: _ => items.length
  | .glyph _ :: rest => innerSize rest

/-- What is known of a linked tree. -/
structure Nesting where
  members : Nat
  following : Option Nat
  first : Nat
  inner : Nat
  glyphs : Nat
deriving Repr, DecidableEq

/-- Links a tree of `n` glyphs, and a small one with a block of four members. -/
def nesting (n : Int) : Except Fault Nesting := do
  let ls := cycle n levels
  let items ← tree ls
  let small ← tree [1, 3, 2, 2, 3, 3, 1]
  match items with
  | .glyph l :: _ =>
    return ⟨items.length, l.following.map (·.1), l.first.1, innerSize small, ls.length⟩
  | _ => .error .outOfRange

/-- A step that adds a cell that it refers to to the first cell of list 1. -/
def sumStep (r : CellRef) : Step :=
  { (default : Step) with
    role := some .data, form := some .ref, list := some 1, cell := some 0, ref := some r
    action := some none, fields := 18 }

/-- The length and the first three cells of a list to which a block appends the numbers below `n`,
asks about it and then adds one to its first cell, and what is said about a reference to a list and
one to a cell that are not there. -/
def growing (n : Int) : Except Fault (Nat × List Value × List Fault) := do
  let appends := (List.range n.toNat).map fun (i : Nat) => commandStep .append (.int i)
  let cells ← outcome ⟨[(1, [])]⟩ do
    let _ ← Step.performAll
      (appends ++ [question .list ⟨1, 0⟩ 1, commandStep .add (.int 1)])
    Machine.list 1
  let faults := [sumStep ⟨99, 0⟩, sumStep ⟨1, 99⟩].filterMap fun s =>
    faultOf? (outcome ⟨[(1, [.int 1])]⟩ s.write)
  return (cells.length, cells.take 3, faults)

end StrandScript.Workload
