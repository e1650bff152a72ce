/-!
# Quoted text

A text between quotation marks: single ones, or double ones when the text holds a single mark and
no double one. A mark of the chosen kind and a backslash are written after a backslash, and
characters that do not print by their code.
-/

namespace StrandScript.Quoted

/-- Ranges of characters beyond the first 127 that do not print: controls, blanks of several
widths, invisible marks, surrogates and places for private use. -/
def unprintable : List (Nat × Nat) :=
  [(0x7f, 0xa0), (0xad, 0xad), (0x378, 0x379), (0x600, 0x605), (0x61c, 0x61c), (0x6dd, 0x6dd),
    (0x70f, 0x70f), (0x1680, 0x1680), (0x180e, 0x180e), (0x2000, 0x200f), (0x2028, 0x202f),
    (0x205f, 0x206f), (0x3000, 0x3000), (0xd800, 0xf8ff), (0xfeff, 0xfeff), (0xfff0, 0xfffb),
    (0xfffe, 0xffff), (0xe0000, 0x10ffff)]

/-- Whether a character prints. -/
def prints (c : Char) : Bool :=
  0x20 ≤ c.toNat && !unprintable.any fun (a, b) => a ≤ c.toNat && c.toNat ≤ b

/-- A number in lower-case hexadecimal, filled up to `w` digits. -/
def hex (w n : Nat) : String :=
  let ds := Nat.toDigits 16 n
  String.ofList (List.replicate (w - ds.length) '0' ++ ds)

/-- One character between marks `q`. -/
def char (q c : Char) : String :=
  if c == q || c == '\\' then String.ofList ['\\', c]
  else if c == '\n' then "\\n"
  else if c == '\r' then "\\r"
  else if c == '\t' then "\\t"
  else if prints c then String.ofList [c]
  else if c.toNat < 0x100 then "\\x" ++ hex 2 c.toNat
  else if c.toNat < 0x10000 then "\\u" ++ hex 4 c.toNat
  else "\\U" ++ hex 8 c.toNat

/-- A text between quotation marks. -/
def quote (s : String) : String :=
  let cs := s.toList
  let q := if cs.contains '\'' && !cs.contains '"' then '"' else '\''
  String.ofList [q] ++ String.join (cs.map (char q)) ++ String.ofList [q]

end StrandScript.Quoted
