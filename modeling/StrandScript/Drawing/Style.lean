import StrandScript.Drawing.Path

/-!
# Styles

Colours, sizes and background of a drawing. A theme is a named style.
-/

namespace StrandScript

/-- An attribute of a drawn element: a number, a text, or the commands of a path. -/
inductive Attr where
  | number (v : Value)
  | text (s : String)
  | path (cs : List (PathCommand Value))
deriving Repr, Inhabited

/-- An attribute as text. -/
def Attr.write : Attr → Except Fault String
  | .number v => v.text
  | .text s => .ok s
  | .path cs => do return " ".intercalate (← cs.mapM PathCommand.text)

/-- What is drawn behind the strands. -/
inductive Pattern where
  | blank | lines | dots
deriving Repr, DecidableEq

/-- The style of a drawing. An attribute that is left out is not written. -/
structure Style where
  cellWidth : Value
  cellHeight : Value
  curve : Value
  pattern : Option Pattern
  background : Option Attr
  colors : List (Option Attr)
  strokeWidth : Option Attr
  marker : Option Attr
  lineColor : Option Attr
  lineOpacity : Option Attr
  lineWidth : Option Attr
  dotColor : Option Attr
  dotOpacity : Option Attr
  linecap : Option Attr
deriving Repr, Inhabited

namespace Style

/-- A text attribute. -/
def word (s : String) : Option Attr := some (.text s)

/-- A whole number attribute. -/
def whole (n : Int) : Option Attr := some (.number (.int n))

/-- A double attribute. -/
def real (x : Float) : Option Attr := some (.number (.real x))

/-- The style without a theme. It has no way to end lines, so it cannot be used as it is. -/
def base : Style where
  cellWidth := .int 80
  cellHeight := .int 100
  curve := .real 1.0
  pattern := none
  background := word "#ffffff"
  colors := [word "#000000"]
  strokeWidth := whole 20
  marker := word "#999999"
  lineColor := word "#000000"
  lineOpacity := real 0.35
  lineWidth := whole 1
  dotColor := word "#000000"
  dotOpacity := real 0.1
  linecap := none

/-- Lines on dark blue. -/
def default : Style :=
  { base with
    pattern := some .lines
    background := word "#002b36"
    colors := ["#93a1a1", "#b58900", "#cb4b16", "#6c71c4", "#268bd2", "#859900"].map word
    lineColor := word "#e1e1e1"
    lineOpacity := real 0.05
    lineWidth := whole 5
    linecap := word "round"
    curve := .real 0.8
    cellWidth := .int 60
    cellHeight := .int 100 }

/-- Bright colours on dark brown. -/
def synth : Style :=
  { base with
    pattern := some .blank
    background := word "#2d2725"
    colors := ["#f22c40", "#c38418", "#df5320", "#00ad9c", "#7b9726", "#407ee7", "#6666ea",
      "#c33ff3"].map word
    linecap := word "round"
    marker := word "#407ee7" }

/-- Blues on white, with tight corners. -/
def frost : Style :=
  { base with
    pattern := some .blank
    background := word "#eceff4"
    colors := ["#8fbcbb", "#7abece", "#81a1c1", "#5e81ac"].map word
    linecap := word "butt"
    marker := word "#5e81ac"
    strokeWidth := whole 15
    curve := .real 0.2
    cellWidth := .int 50
    cellHeight := .int 100 }

/-- Earth colours on cream. The width of its lines is given as a text. -/
def solar : Style :=
  { base with
    pattern := some .blank
    background := word "#FDF6E3"
    colors := ["#586E75", "#2AA198", "#CB4B16", "#859900", "#268BD2", "#6C71C4", "#B58900",
      "#93A1A1"].map word
    marker := word "#616f77"
    lineColor := word "#3e3e3e"
    linecap := word "square"
    strokeWidth := word "23"
    cellWidth := .int 80
    cellHeight := .int 100 }

/-- Neon colours on grey. -/
def monokai : Style :=
  { base with
    pattern := some .blank
    background := word "#272822"
    colors := ["#f92672", "#546190", "#819aff", "#e2e22e", "#8c6bc8"].map word
    linecap := word "square"
    marker := word "#75715e"
    cellWidth := .int 70
    cellHeight := .int 100 }

/-- Dots on dark violet. -/
def pacman : Style :=
  { base with
    pattern := some .dots
    background := word "#241f32"
    colors := ["#45d074", "#9cd0da", "#a97427", "#d045a1", "#37507C", "#f3e894"].map word
    dotColor := word "#eee8d5"
    dotOpacity := real 0.05
    marker := word "#d045a1"
    linecap := word "round"
    curve := .real 0.5
    strokeWidth := whole 25 }

/-- The style of a theme. -/
def ofTheme (name : String) : Except Fault Style :=
  match name with
  | "default" => .ok default
  | "synth" => .ok synth
  | "frost" => .ok frost
  | "solar" => .ok solar
  | "monokai" => .ok monokai
  | "pacman" => .ok pacman
  | n => .error (.missingTheme n)

/-- A style that says how lines end. -/
def complete (s : Style) : Except Fault Style :=
  if s.linecap.isNone then .error .badValue else .ok s

/-- The pen of a style. -/
def pen (s : Style) : Pen Value := ⟨s.cellWidth, s.cellHeight, s.curve⟩

end Style

end StrandScript
