import StrandScript.Fault
import StrandScript.Limit

/-!
# Blocks

The glyphs of a program form a tree: a glyph of a higher level stands in a block inside the block of
the glyphs around it.

* `Item.grow`: the tree of a list of glyphs with levels.
* `Item.link`: every glyph told the first glyph of its block and the glyph that follows its block.
-/

namespace StrandScript

/-- A member of a block: a glyph or a block of its own. -/
inductive Item (α : Type) where
  | glyph (a : α)
  | block (items : List (Item α))
deriving Repr

namespace Item

variable {α : Type}

instance : Inhabited (Item α) := ⟨.block []⟩

/-- Takes glyphs from the front as long as their level is at least `c`: one of level `c` itself is a
member, a higher one opens a block inside. Gives the members and the glyphs that are left; calls
nest at most `limit` deep. -/
def grow (level : α → Int) : Nat → Int → List α → Except Fault (List (Item α) × List α)
  | 0, _, _ => .error .tooDeep
  | _ + 1, _, [] => .error .outOfRange
  | limit + 1, c, g :: gs => do
    if level g < c then return ([], g :: gs)
    let (item, rest) ←
      if level g = c then .ok (.glyph g, gs)
      else (grow level limit (c + 1) (g :: gs)).map fun (items, rest) => (.block items, rest)
    if rest.isEmpty then return ([item], [])
    let (items, rest) ← grow level limit c rest
    return (item :: items, rest)

/-- The first glyph of an item in reading order. An empty block has none. -/
def first : Item α → Except Fault α
  | .glyph a => .ok a
  | .block [] => .error .outOfRange
  | .block (i :: _) => i.first

/-- A glyph with its place in the tree: the first glyph of its block, the depth of the block, and
the glyph that is said to follow. -/
structure Linked (α : Type) where
  glyph : α
  first : α
  depth : Int
  following : Option α
deriving Repr

/-- The first glyph of a block, if it has members. -/
def firstOf (items : List (Item α)) : Except Fault (Option α) :=
  match items with
  | [] => .ok none
  | i :: _ => (i.first).map some

/-- Links the members of a block whose first glyph is `f`. A block inside passes on the glyph after
it, and that glyph stays the one that follows for the members after it too. -/
def linkMembers (f : α) (depth : Int) (following : Option α) :
    List (Item α) → Except Fault (List (Item (Linked α)))
  | [] => .ok []
  | .glyph a :: rest => do
    let later ← linkMembers f depth following rest
    return .glyph ⟨a, f, depth, following⟩ :: later
  | .block items :: rest => do
    let following := (← firstOf rest).orElse fun _ => following
    let inner ←
      match ← firstOf items with
      | none => .ok []
      | some f => linkMembers f (depth + 1) following items
    let later ← linkMembers f depth following rest
    return .block inner :: later

/-- Links all glyphs of a block at a depth. -/
def link (depth : Int) (following : Option α) (items : List (Item α)) :
    Except Fault (List (Item (Linked α))) := do
  match ← firstOf items with
  | none => .ok []
  | some f => linkMembers f depth following items

end Item

end StrandScript
