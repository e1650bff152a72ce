import StrandScript.Glyph.Token

/-!
# The arrangement of strands into tokens

Data strands run by columns from the left, each column from the top, and then the question. The row
of a hook is the list a strand writes to, and each further hook on a row takes the next cell of that
list. Action strands go to the data strands of their column.

* `Arrangement.placeData`: lists and cells of the data strands.
* `Arrangement.cellBefore`: the cell that a place on a row refers to.
* `Arrangement.question?`: the question of a glyph.
* `Arrangement.attach`: the action strands given to their data strands.
* `Arrangement.tokens`: all of it.
-/

namespace StrandScript

/-- The place of a strand's hook. -/
abbrev Strand.pos (s : Strand) : Pos := s.hook.pos

namespace Arrangement

/-- The strands of a kind, by columns. -/
def byColumn (k : Kind) (ss : List Strand) : List Strand :=
  (ss.mergeSort fun a b => Pos.columnMajor a.pos b.pos).filter fun s => s.hook.kind == k

/-- The question strands, by rows. -/
def questions (ss : List Strand) : List Strand :=
  (ss.mergeSort fun a b => decide (a.pos.y ≤ b.pos.y)).filter fun s => s.hook.kind == .question

/-- Gives each data strand its list and its cell: the number of strands before it on its row. The
rows of the strands before are in `seen`. -/
def placeData (primes : List Nat) : List Int → List Strand → Except Fault (List DataToken)
  | _, [] => .ok []
  | seen, s :: ss => do
    let list ← Primes.number primes s.pos.y.toNat
    let rest ← placeData primes (s.pos.y :: seen) ss
    return ⟨s, list, seen.length, seen.count s.pos.y, none, none⟩ :: rest

/-- The cell that a place refers to: the one after the last cell given to a hook on its row left of
it. A question strand there counts as a hook that has no cell. -/
def cellBefore (ds : List DataToken) (question : Option Pos) (p : Pos) : Except Fault Nat :=
  let isBefore (q : Pos) : Bool := q.y == p.y && q.x < p.x
  match ((ds.filter fun d => isBefore d.strand.pos).map (·.cell)).max? with
  | some m => .ok (m + 1)
  | none => if question.any isBefore then .error .badValue else .ok 0

/-- The list and cell that a place refers to. -/
def refAt (primes : List Nat) (ds : List DataToken) (question : Option Pos) (p : Pos) :
    Except Fault CellRef := do
  return ⟨← Primes.number primes p.y.toNat, ← cellBefore ds question p⟩

/-- The end of a strand that has one to remember. -/
def stopOf (s : Strand) : Pos :=
  match s.meaning with
  | .question p | .ref p | .act _ _ (.listToList p) => p
  | _ => s.pos

/-- The sign on which a strand ends. -/
def tipOf (s : Strand) : Sign := ((s.cells.getLast?.map (·.symbol)).bind Sign.ofChar?).getD default

/-- The list that a question with a sideways end asks about. -/
def questionList : Int := 3

/-- The question of glyph number `g`: no strand, or two of which the second begins where the first
ends. A first strand without a second one is left as it is for now. -/
def question? (g : Nat) (primes : List Nat) (ds : List DataToken) :
    List Strand → Except Fault (Option (Strand ⊕ QuestionToken))
  | [] => .ok none
  | q :: rest => do
    let ref ← refAt primes ds none q.pos
    match rest with
    | [] => return some (.inl q)
    | r :: more =>
      if stopOf q ≠ r.pos then throw (.complaint (.secondMisplaced g))
      let secondRef ← refAt primes ds (some q.pos) r.pos
      if !more.isEmpty then throw (.complaint (.tooManyQuestions g))
      let target := if tipOf r = .horizontal then Target.list questionList else .cell ref
      return some (.inr ⟨q, ds.length, q.pos.x < (stopOf q).x, r, secondRef, tipOf r, target⟩)

/-- Gives the strands that point somewhere the cell they read from. -/
def withRefs (primes : List Nat) (ds : List DataToken) (question : Option Pos) :
    Except Fault (List DataToken) :=
  ds.mapM fun d =>
    match d.strand.meaning with
    | .ref p => do return { d with ref := some (← refAt primes ds question p) }
    | _ => .ok d

/-- Counts the action strands of each column, with the column and count before. The count starts
over with `0` in every new column. -/
def ranks : Int → Nat → List Strand → List (Strand × Nat)
  | _, _, [] => []
  | column, n, s :: ss =>
    let k := if s.pos.x = column then n + 1 else 0
    (s, k) :: ranks s.pos.x k ss

/-- Gives each data strand the action strand of its column and its rank there. The columns of the
strands before are in `seen`. -/
def attach (actions : List (Strand × Nat)) : List Int → List DataToken → List DataToken
  | _, [] => []
  | seen, d :: ds =>
    let x := d.strand.pos.x
    let found := actions.find? fun (a, k) => a.pos.x == x && k == seen.count x
    { d with action := found.map (·.1) } :: attach actions (x :: seen) ds

/-- The tokens of glyph number `g`. -/
def tokens (g : Nat) (primes : List Nat) (ss : List Strand) : Except Fault (List Token) := do
  let ds ← placeData primes [] (byColumn .data ss)
  let q ← question? g primes ds (questions ss)
  let first := q.map fun
    | .inl s => s.pos
    | .inr t => t.strand.pos
  let ds ← withRefs primes ds first
  let ds := attach (ranks 0 0 (byColumn .action ss)) [] ds
  match q with
  | none => return ds.map .data
  | some (.inl s) => throw (.complaint (.secondMissing s.pos g))
  | some (.inr t) => return ds.map .data ++ [.question t]

end Arrangement

end StrandScript
