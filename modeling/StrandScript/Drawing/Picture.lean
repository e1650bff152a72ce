import StrandScript.Drawing.Style
import StrandScript.Program

/-!
# Pictures

A program drawn as an svg file: below each other its glyphs, each between its opening and closing
signs, over a background.

* `Picture.glyph`: the elements of one glyph.
* `Picture.behind`: the elements of the background.
* `Picture.canvas`: the whole drawing laid out; `Picture.Canvas.text`: what it is as a file.
-/

namespace StrandScript.Picture

open StrandScript.Measure

/-! ## Elements -/

/-- An element with its attributes in order; those without a value are not written. -/
structure Element where
  name : String
  attrs : List (String × Option Attr)

/-- The attributes of an element as text. -/
def attrsText : List (String × Option Attr) → Except Fault String
  | [] => .ok ""
  | (_, none) :: rest => attrsText rest
  | (k, some a) :: rest => do
    let v ← a.write
    let rest ← attrsText rest
    return " " ++ k ++ "=\"" ++ v ++ "\"" ++ rest

/-- An element as text. -/
def Element.text (e : Element) : Except Fault String := do
  return "<" ++ e.name ++ (← attrsText e.attrs) ++ "/>"

/-- A path in a colour. -/
def path (s : Style) (color : Option Attr) (cs : List (PathCommand Value)) : Element :=
  ⟨"path", [("stroke", color), ("stroke-width", s.strokeWidth), ("d", some (.path cs)),
    ("stroke-linecap", s.linecap), ("fill", some (.text "none"))]⟩

/-! ## Glyphs -/

/-- The number of characters of a glyph's first row. -/
def firstWidth (g : Glyph) : Nat := (g.rows.head?.map List.length).getD 0

/-- The row where a glyph is drawn, given the next free one: a wide glyph has a row left free
above. -/
def topRow (g : Glyph) (y : Int) : Int := if 30 < firstWidth g then y + 1 else y

/-- The opening signs from column `x` on, `n` of them. -/
def openings (s : Style) (y : Int) : Nat → Int → Except Fault (List Element)
  | 0, _ => .ok []
  | n + 1, x => do
    let corner := PathCommand.moveTo (← mul (ofInt x) s.cellWidth) (← mul (ofInt y) s.cellHeight)
    let mark := path s s.marker [corner, ← s.pen.move .half .none, ← s.pen.halfDown true]
    return mark :: (← openings s y n (x + 1))

/-- The strands that are drawn in one line: that of a token, of its action and of the second part of
a question. -/
def strandsOf : Token → List Strand
  | .data d => d.strand :: d.action.toList
  | .question q => [q.strand, q.second]

/-- The lines of some strands, one after the other, and the columns reached. -/
def lines {α : Type} [Measure α] (p : Pen α) (dx dy : Int) (columns : List Int) :
    List Strand → Except Fault (List (PathCommand α) × List Int)
  | [] => .ok ([], columns)
  | t :: ts => do
    let (here, columns) ← p.strand dx dy t columns
    let (rest, columns) ← lines p dx dy columns ts
    return (here ++ rest, columns)

/-- The hook of a token. -/
def hookOf : Token → Hook
  | .data d => d.strand.hook
  | .question q => q.strand.hook

/-- The colour of the `i`-th token of a glyph. -/
def colorAt (s : Style) (i : Nat) : Except Fault (Option Attr) :=
  if s.colors.isEmpty then .error .divisionByZero
  else .ok ((s.colors[i % s.colors.length]?).getD none)

/-- The tokens of a glyph from number `i` on: their paths, and the farthest column reached up to
each of them. -/
def tokens (s : Style) (dx dy : Int) : Nat → List Int → List Token →
    Except Fault (List Element × List Int)
  | _, _, [] => .ok ([], [])
  | i, columns, t :: ts => do
    let columns := columns ++ [(hookOf t).pos.x + dx]
    let (commands, columns) ← lines s.pen dx dy columns (strandsOf t)
    let farthest := (columns.max?).getD 0
    let here := path s (← colorAt s i) commands
    let (rest, reached) ← tokens s dx dy (i + 1) columns ts
    return (here :: rest, farthest :: reached)

/-- The closing sign of a glyph. -/
def closing (s : Style) (y : Int) (g : Glyph) : Except Fault Element := do
  let (rows, width) := g.toPanel.extent
  let x ← add (ofInt width) half
  let corner := PathCommand.moveTo (← mul x s.cellWidth) (← mul (ofInt (y + rows - 1)) s.cellHeight)
  return path s s.marker [corner, ← s.pen.move .half .half, ← s.pen.halfDown true]

/-- A glyph drawn at row `y`: its elements and the columns reached. -/
def glyph (s : Style) (y : Int) (g : Glyph) : Except Fault (List Element × List Int) := do
  let opened ← openings s y g.level.toNat 0
  let (drawn, reached) ← tokens s (max g.level 0) y 0 [] g.tokens
  return (opened ++ drawn ++ [← closing s y g], reached)

/-- What has been drawn of a program: the elements, the columns reached, the rows that lie between
glyphs, and the next free row. -/
structure Page where
  elements : List Element
  reached : List Int
  between : List Int
  next : Int

/-- The glyphs of a program from row `y` on. -/
def glyphs (s : Style) : Int → List Glyph → Except Fault Page
  | y, [] => .ok ⟨[], [], [], y⟩
  | y, g :: gs => do
    let y := topRow g y
    let (elements, reached) ← glyph s y g
    let next := y + g.rows.length + 2
    let page ← glyphs s next gs
    return ⟨elements ++ page.elements, reached ++ page.reached, (next - 1) :: page.between,
      page.next⟩

/-! ## Background and canvas -/

/-- The farthest column of a page. Without any strand there is none. -/
def farthest (p : Page) : Except Fault Int :=
  match p.reached.max? with
  | some x => .ok x
  | none => .error .badValue

/-- The half of an attribute that is a number. -/
def halved : Option Attr → Except Fault Value
  | some (.number v) => div v (ofInt 2)
  | _ => .error .wrongKind

/-- A dot of the background. -/
def dot (s : Style) (x y : Int) : Except Fault Element := do
  let r ← halved s.strokeWidth
  let cx ← mul (← add (ofInt x) half) s.cellWidth
  let cy ← mul (ofInt y) s.cellHeight
  return ⟨"circle", [("cx", some (.number cx)), ("cy", some (.number cy)), ("r", some (.number r)),
    ("fill-opacity", s.dotOpacity), ("fill", s.dotColor)]⟩

/-- A line of the background. -/
def rule (s : Style) (p : Page) (y : Int) : Except Fault Element := do
  let top ← mul s.cellHeight (ofInt y)
  let right ← mul (ofInt ((← farthest p) + 4)) s.cellWidth
  return ⟨"line", [("stroke", s.lineColor), ("stroke-opacity", s.lineOpacity),
    ("stroke-width", s.lineWidth), ("x1", some (.number (ofInt 0))), ("y1", some (.number top)),
    ("x2", some (.number right)), ("y2", some (.number top))]⟩

/-- The whole numbers from `0` up to `n`, without `n`. -/
def upTo (n : Int) : List Int := (List.range n.toNat).map Int.ofNat

/-- The elements of the background. -/
def behind (s : Style) (p : Page) : Except Fault (List Element) := do
  match s.pattern with
  | some .dots =>
    let rows ← ((upTo p.next).drop 1).mapM fun y => do
      (upTo ((← farthest p) + 4)).mapM fun x => dot s x y
    return rows.flatten
  | some .lines => ((upTo p.next).filter fun y => !p.between.contains y).mapM (rule s p)
  | _ => return []

/-- The rectangle that fills the background. -/
def ground (s : Style) : Element :=
  ⟨"rect", [("x", some (.number (ofInt 0))), ("y", some (.number (ofInt 0))),
    ("width", some (.text "100%")), ("height", some (.text "100%")), ("fill", s.background)]⟩

/-- The style attribute of the canvas. -/
def canvasStyle (s : Style) : Except Fault String :=
  match s.background with
  | some (.text c) => .ok ("background-color:" ++ c)
  | _ => .error .wrongKind

/-- A drawing laid out: nothing of it is written yet. -/
structure Canvas where
  style : String
  width : Value
  height : Value
  elements : List Element

/-- The canvas of a program. -/
def canvas (s : Style) (gs : List Glyph) : Except Fault Canvas := do
  let page ← glyphs s 1 gs
  let back ← behind s page
  let width ← mul (ofInt ((← farthest page) + 8)) s.cellWidth
  let height ← mul (ofInt page.next) s.cellHeight
  return ⟨← canvasStyle s, width, height, ground s :: page.elements ++ back⟩

/-- A canvas as text. -/
def Canvas.text (c : Canvas) : Except Fault String := do
  let head ← attrsText [("style", some (.text c.style)), ("width", some (.number c.width)),
    ("height", some (.number c.height))]
  let elements ← c.elements.mapM Element.text
  return "<svg" ++ head ++ ">" ++ String.join elements ++ "</svg>"

/-- A program drawn as an svg file. -/
def text (s : Style) (gs : List Glyph) : Except Fault String := do (← canvas s gs).text

end StrandScript.Picture
