import StrandScript.Plane

/-!
# The signs

Ten signs make up a drawing, four of them with a curved and a sharp form. Each sign has readings:
where in a strand it may stand, which way it then points, and, where that settles it, what kind of
strand it begins.

* `Sign.ofChar?`: the sign that a character draws.
* `Sign.readings`: the readings of a sign, in the order in which they are tried.
* `Sign.through`: where a strand that enters a sign leaves it.
-/

namespace StrandScript

/-- Where in a strand a sign stands. -/
inductive Place where
  | start | corner | straight | tip | marker | lead
deriving Repr, DecidableEq

/-- What a strand is for, or that a sign marks a place. -/
inductive Kind where
  | data | action | question | marker
deriving Repr, DecidableEq, Inhabited

/-- The word for a kind. -/
def Kind.name : Kind → String
  | .data => "data"
  | .action => "action"
  | .question => "question_marker"
  | .marker => "loc_marker"

/-- One reading of a sign. A reading that settles no kind of strand has none. -/
structure Reading where
  place : Place
  dirs : List Dir
  kind : Option Kind
deriving Repr, DecidableEq

/-- The signs of a drawing. -/
inductive Sign where
  | opening | closing
  | downLeft | downRight | upRight | upLeft
  | vertical | horizontal
  | stubLeft | stubRight
deriving Repr, DecidableEq, Inhabited

namespace Sign

/-- All signs, in the order of the table. -/
def all : List Sign :=
  [opening, closing, downLeft, downRight, upRight, upLeft, vertical, horizontal, stubLeft,
    stubRight]

/-- The name of a sign. -/
def name : Sign → String
  | opening => "start_glyph"
  | closing => "end_glyph"
  | downLeft => "dl_corner"
  | downRight => "dr_corner"
  | upRight => "ur_corner"
  | upLeft => "ul_corner"
  | vertical => "vertical"
  | horizontal => "horizontal"
  | stubLeft => "r_end"
  | stubRight => "l_end"

/-- The characters that draw a sign: a corner is curved or sharp. -/
def chars : Sign → List Char
  | opening => ['╵']
  | closing => ['╷']
  | downLeft => ['╮', '┐']
  | downRight => ['╭', '┌']
  | upRight => ['╰', '└']
  | upLeft => ['╯', '┘']
  | vertical => ['│']
  | horizontal => ['─']
  | stubLeft => ['╴']
  | stubRight => ['╶']

/-- The readings of a sign. -/
def readings : Sign → List Reading
  | opening => [⟨.marker, [.down], some .marker⟩]
  | closing => [⟨.start, [.down], some .question⟩, ⟨.marker, [.up], some .marker⟩]
  | downLeft =>
    [⟨.start, [.down], some .data⟩, ⟨.start, [.left], some .action⟩,
      ⟨.corner, [.left, .down], none⟩]
  | downRight =>
    [⟨.start, [.down], some .action⟩, ⟨.start, [.right], some .action⟩,
      ⟨.corner, [.right, .down], none⟩]
  | upRight =>
    [⟨.start, [.up], some .action⟩, ⟨.start, [.right], some .data⟩, ⟨.corner, [.right, .up], none⟩]
  | upLeft =>
    [⟨.start, [.up], some .data⟩, ⟨.start, [.left], some .data⟩, ⟨.corner, [.left, .up], none⟩]
  | vertical => [⟨.tip, [.up, .down], none⟩, ⟨.straight, [.up, .down], none⟩]
  | horizontal => [⟨.tip, [.right, .left], none⟩, ⟨.straight, [.right, .left], none⟩]
  | stubLeft => [⟨.lead, [.left], none⟩, ⟨.marker, [.right], some .marker⟩]
  | stubRight => [⟨.lead, [.right], none⟩, ⟨.marker, [.left], some .marker⟩]

/-- The sign that a character draws. -/
def ofChar? (c : Char) : Option Sign := all.find? fun s => s.chars.contains c

/-- The sign of a given name. -/
def ofName? (n : String) : Option Sign := all.find? fun s => s.name == n

/-- Whether some reading of the sign stands at a place. -/
def hasPlace (s : Sign) (p : Place) : Bool := s.readings.any fun r => r.place == p

/-- Whether some reading of the sign points in a direction. -/
def points (s : Sign) (d : Dir) : Bool := s.readings.any fun r => r.dirs.contains d

/-- Whether some reading of the sign points in a direction, leads to a strand apart. -/
def joins (s : Sign) (d : Dir) : Bool :=
  s.readings.any fun r => r.dirs.contains d && r.place != .lead

/-- The kind of strand that the sign begins in a direction. -/
def startKind? (s : Sign) (d : Dir) : Option Kind :=
  (s.readings.find? fun r => r.place == .start && r.dirs == [d]).bind (·.kind)

/-- Whether the sign is a straight line. -/
def isStraight (s : Sign) : Bool := s.hasPlace .straight

/-- Whether a strand may end on the sign. -/
def mayEnd (s : Sign) : Bool := s.hasPlace .tip || s.hasPlace .marker

/-- Whether the sign, entered in direction `d`, marks the place it stands on. -/
def marksAgainst (s : Sign) (d : Dir) : Bool :=
  s.readings.any fun r => r.place == .marker && r.dirs.contains d.opposite

/-- The direction in which a strand that enters the sign in direction `d` leaves it. Only straight
lines and corners let a strand through, each between its two directions. -/
def through (s : Sign) (d : Dir) : Option Dir :=
  match s.readings.find? fun r => r.place == .straight || r.place == .corner with
  | some r => if r.dirs.contains d.opposite then r.dirs.find? (· != d.opposite) else none
  | none => none

end Sign

end StrandScript
