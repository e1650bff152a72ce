import StrandScript.Block
import StrandScript.Program
import StrandScript.Step

/-!
# Running a program

The glyphs of a block run in turn. A glyph that answers with a rollback ends its block; one that
answers with a repetition has the whole block run once more, and then the glyphs after it still run.

* `Run`: what was executed, the store afterwards, and the fault that ended the run, if any.
* `Run.block`: a block run within a nesting limit.
* `Program.run`: a program run from empty lists.
-/

namespace StrandScript

/-- One glyph executed: what it answered, and the store it left. -/
structure Entry (α : Type) where
  glyph : α
  outcome : Except Fault Answer
  store : Store

/-- What a run did: the glyphs it executed in order, the store it left, and the fault that ended it,
if any. -/
structure Run (α : Type) where
  trace : List (Entry α)
  store : Store
  fault : Option Fault

namespace Run

variable {α : Type}

/-- A run that executes nothing. -/
def done (s : Store) : Run α := ⟨[], s, none⟩

/-- A run that fails at once. -/
def failed (s : Store) (f : Fault) : Run α := ⟨[], s, some f⟩

/-- A run with one more glyph before it. -/
def after (e : Entry α) (r : Run α) : Run α := { r with trace := e :: r.trace }

/-- A run and, unless it failed, the run that goes on from its store. -/
def andThen (r : Run α) (k : Store → Run α) : Run α :=
  match r.fault with
  | some _ => r
  | none =>
    let t := k r.store
    ⟨r.trace ++ t.trace, t.store, t.fault⟩

/-- Runs the members of a block; `recur` runs a block inside, or the `whole` block once more. -/
def members (steps : α → List Step) (recur : List (Item α) → Store → Run α)
    (whole : List (Item α)) : List (Item α) → Store → Run α
  | [], s => done s
  | .block items :: rest, s => (recur items s).andThen (members steps recur whole rest)
  | .glyph g :: rest, s =>
    match Step.performAll (steps g) s with
    | .error f t => ⟨[⟨g, .error f, t⟩], t, some f⟩
    | .ok .rollback t => ⟨[⟨g, .ok .rollback, t⟩], t, none⟩
    | .ok .proceed t => (members steps recur whole rest t).after ⟨g, .ok .proceed, t⟩
    | .ok .again t =>
      ((recur whole t).andThen (members steps recur whole rest)).after ⟨g, .ok .again, t⟩

/-- Runs a block, calls nesting at most `limit` deep. Before anything else the store must be
saveable. -/
def block (steps : α → List Step) : Nat → List (Item α) → Store → Run α
  | 0, _, s => failed s .tooDeep
  | limit + 1, items, s =>
    match s.saveable with
    | .error f => failed s f
    | .ok () => members steps (block steps limit) items items s

end Run

namespace Program

/-- A glyph with its number in the program. -/
structure Numbered where
  id : Nat
  glyph : Glyph

/-- The glyphs of a program numbered from zero. -/
def number (gs : List Glyph) : List Numbered := gs.zipIdx.map fun (g, i) => ⟨i, g⟩

/-- The block tree of a program, its glyphs linked. -/
def tree (limit : Nat) (gs : List Glyph) : Except Fault (List (Item (Item.Linked Numbered))) := do
  let (items, _) ← Item.grow (fun n => n.glyph.level) limit 1 (number gs)
  Item.link 0 none items

/-- The store a program starts from: as many lists as its tallest glyph has rows. -/
def initialStore (gs : List Glyph) : Store := .initial ((gs.map Glyph.listSize).foldl max 0)

/-- The steps of a linked glyph. -/
def steps (l : Item.Linked Numbered) : List Step := l.glyph.glyph.tokens.map Token.step

/-- Runs the glyphs of a program from empty lists. -/
def runGlyphs (limit : Nat) (gs : List Glyph) : Run (Item.Linked Numbered) :=
  match tree limit gs with
  | .error f => .failed (initialStore gs) f
  | .ok items => Run.block steps limit items (initialStore gs)

theorem runGlyphs_of_tree {limit : Nat} {gs : List Glyph}
    {items : List (Item (Item.Linked Numbered))} (h : tree limit gs = .ok items) :
    runGlyphs limit gs = Run.block steps limit items (initialStore gs) := by rw [runGlyphs, h]

/-- Reads and runs a program. -/
def run (text : String) : Run (Item.Linked Numbered) :=
  match parse text with
  | .error f => .failed ⟨[]⟩ f
  | .ok gs => runGlyphs nestingLimit gs

theorem run_of_tree {text : String} {gs : List Glyph} {items : List (Item (Item.Linked Numbered))}
    (hparse : parse text = .ok gs) (htree : tree nestingLimit gs = .ok items) :
    run text = Run.block steps nestingLimit items (initialStore gs) := by
  rw [run, hparse]
  exact runGlyphs_of_tree htree

end Program

end StrandScript
