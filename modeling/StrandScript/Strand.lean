import StrandScript.Command
import StrandScript.Hook
import StrandScript.Limit
import StrandScript.Primes

/-!
# Strands

From its hook a strand is followed from neighbour to neighbour, straight on and around corners, to
its end. What it means depends on its kind, on the runs along rows and columns, which add up to two
sums, and on the sign it ends on.

* `Strand.walk`: the cells of a strand, its sums and its end.
* `Meaning.ofStop`: what a strand says that ends in a given way.
* `Grid.strands`: all strands of a glyph.
-/

namespace StrandScript

/-- A cell of a strand after its hook; the last one has no direction. -/
structure Cell where
  symbol : Char
  pos : Pos
  dir : Option Dir
deriving Repr, DecidableEq

/-- The sums of the runs along rows and along columns, once there was any run. -/
structure Sums where
  across : Option Int
  down : Option Int
deriving Repr, DecidableEq

/-- The sums before any run. -/
def Sums.none : Sums := ⟨.none, .none⟩

/-- How a strand ends: the last sign and its place, the direction in which the strand enters it, and
the one in which it would go on. -/
structure Stop where
  sign : Sign
  pos : Pos
  entry : Dir
  exit : Option Dir
deriving Repr, DecidableEq

/-- What an action strand applies to: one cell, a whole list, or a list paired with another one that
the strand points to. -/
inductive Scope where
  | element
  | list
  | listToList (stop : Pos)
deriving Repr, DecidableEq

/-- What a strand says. -/
inductive Meaning where
  | value (sum : Option Int)
  | ref (stop : Pos)
  | question (stop : Pos)
  | act (number : Int) (command : Command) (scope : Scope)
deriving Repr, DecidableEq

/-- A strand: its hook, the cells after it, and what it says. -/
structure Strand where
  hook : Hook
  cells : List Cell
  meaning : Meaning
deriving Repr, DecidableEq

/-- What a strand of a kind says when it ends at `stop` with some sums. A strand that ends against a
marker points to a place; a sideways end makes an action apply to the whole list. -/
def Meaning.ofStop (kind : Kind) (sums : Sums) (stop : Stop) : Except Fault Meaning :=
  match kind with
  | .question | .marker => .ok (.question stop.pos)
  | .data =>
    if stop.sign.marksAgainst stop.entry then .ok (.ref stop.pos) else .ok (.value sums.across)
  | .action =>
    match sums.down, sums.down.bind Command.ofNumber? with
    | some n, some c =>
      if stop.sign.marksAgainst stop.entry then .ok (.act n c.forList (.listToList stop.pos))
      else if stop.exit.any (·.isHorizontal) then .ok (.act n c.forList .list)
      else .ok (.act n c .element)
    | n, _ =>
      if stop.sign.marksAgainst stop.entry then .error (.missingCommand n)
      else .error (.complaint (.noCommand n))

namespace Strand

/-- The place of a column in the table of primes: half its distance from the hook, rounded up to the
right of the hook and down to the left of it. -/
def columnIndex (hookX x : Int) : Nat := (Int.fdiv (hookX - x) 2).natAbs

/-- The sums after a straight cell at `p` that is passed in direction `d`. -/
def addRun (primes : List Nat) (hookX : Int) (sums : Sums) (p : Pos) (d : Dir) :
    Except Fault Sums := do
  let across := sums.across.getD 0
  let down := sums.down.getD 0
  match d with
  | .right => return ⟨some (across + (← Primes.number primes p.y.toNat)), some down⟩
  | .left => return ⟨some (across - (← Primes.number primes p.y.toNat)), some down⟩
  | .down => return ⟨some across, some (down + (← Primes.number primes (columnIndex hookX p.x)))⟩
  | .up => return ⟨some across, some (down - (← Primes.number primes (columnIndex hookX p.x)))⟩

/-- Whether the strand goes on from a sign at `p` that may end it: only a straight line does,
towards a sign that points back. -/
def goesOn (g : Grid) (s : Sign) (p : Pos) (exit : Option Dir) : Except Fault Bool := do
  match exit with
  | none => return false
  | some e =>
    match ← g.neighbor p e with
    | none => return false
    | some (c, _) => return s.isStraight && (Sign.ofChar? c).any (·.points e.opposite)

/-- The cells that follow `p` in direction `d`, the sums along them and the end of the strand, with
at most `limit` cells. -/
def walk (g : Grid) (primes : List Nat) (hookX : Int) :
    Nat → Pos → Dir → Sums → Except Fault (List Cell × Sums × Stop)
  | 0, _, _, _ => .error .tooDeep
  | limit + 1, p, d, sums => do
    match ← g.neighbor p d with
    | none => .error .wrongKind
    | some (c, q) =>
      match Sign.ofChar? c with
      | none => .error (if c == ' ' then .blankCell q else .unknownSign c)
      | some s =>
        let exit := s.through d
        let sums ←
          match s.isStraight, exit with
          | true, some e => addRun primes hookX sums q e
          | _, _ => .ok sums
        if s.mayEnd && !(← goesOn g s q exit) then return ([⟨c, q, none⟩], sums, ⟨s, q, d, exit⟩)
        else
          match exit with
          | none => .error (.complaint (.noReading q))
          | some e =>
            let (cells, sums, stop) ← walk g primes hookX limit q e sums
            return (⟨c, q, some e⟩ :: cells, sums, stop)

/-- The strand of a hook. -/
def ofHook (limit : Nat) (primes : List Nat) (g : Grid) (h : Hook) : Except Fault Strand := do
  let (cells, sums, stop) ← walk g primes h.pos.x limit h.pos h.dir .none
  return ⟨h, cells, ← Meaning.ofStop h.kind sums stop⟩

end Strand

/-- The strands of a glyph, in reading order of their hooks. The glyph is first filled up to a
rectangle. -/
def Grid.strands (limit : Nat) (primes : List Nat) (g : Grid) : Except Fault (List Strand) := do
  let g := g.pad
  (← g.hooks).mapM (Strand.ofHook limit primes g)

end StrandScript
