/-!
# Sample programs

Seven programs of the language: one that writes zeros, and six drawings of one that computes
Fibonacci numbers.

* `Sample.programs`: all of them by name.
-/

namespace StrandScript.Sample

/-- A text of some lines, each ended. -/
def lines (ls : List String) : String := String.join (ls.map (· ++ "\n"))

/-- Writes seven zeros. -/
def zero : String :=
  lines [
    " 1 ╵  ╰──╮ ╭───╯╭──╯",
    " 2  ╰─╮ ─┘ │╰─╮ └─ ╭─╮",
    " 3    │╰──┐└─╴│╰───╯ │",
    " 5    ╰─╮ ╰─╮ └─┐  ╭─╯",
    " 7    ╶─┘   │ ╶─┘  ╰─╮  ",
    "11        ╶─┘        │",
    "13                  ─╯╷"]

/-- Fibonacci numbers, the first drawing. -/
def fibonacci1 : String :=
  lines [
    " 1 ╵──╮───╮╭─    ╵╵╭────────╮",
    " 2  ╰─╯╰──╯│       ╰─╶ ╶╮╶╮╶╯",
    " 3 ╰─────╮ │      ╭─────╯ ╰─────╮",
    " 5       ╰─╯ ╷    ╰───       ───╯╷",
    "",
    " 1 ╵╵─╮  ╭─╮     ╭──       ╵╵╰─╮  ──╮──╮",
    " 2    ╰─╮│ ╰─╯ ╵╵╰─╯╶╮       ╴─╯  ╭─╯╭─╯",
    " 3    ╰─╯╰─ ╰──╯╰────╯       ╭╴ ╵╶╯ ╶╯╶╮",
    " 5      ╭─╮ ╭╴               │  ╰──────╯",
    " 7      │ │ │                ╰─╮       ╭─╮ ",
    "11    │ │ ╰─╯                  │     │   │",
    "13    ╰─╯            ╷         ╰──── ╰───╯╷",
    "",
    " 1 ╵╵ ╭──  ──╮  ╭─╮         ╵╰─╮",
    " 2    ╰─╮  ╭─╯╭─╯ │          ╴─╯",
    " 3     ╶╯╵╶╯  │ ╷╶╯          ╭─╮",
    " 5   ╭─╮ ╰────╯ │   ╭─╮        │",
    " 7   │ ╰────╮ ╭─╯ ╭╴│ │      ╭─╯",
    "11   ╰────╮ │ │ │ │ │ │      │",
    "13   ╭────╯ │ │ ╰─╯ │ ╷      ╰─╷",
    "17   ╰────╮ │ ╰─────╯ │  ",
    "19        │ ╰─────────╯╷",
    ""]

/-- Fibonacci numbers, the second drawing. -/
def fibonacci2 : String :=
  lines [
    " 1 ╵  ╭─╮  ╭──╮",
    " 2  ╰─╯ │╰─╯  │",
    " 3 ╰─╮ ─╯╭─  ─╯",
    " 5   ╰───╯    ╷",
    "",
    "",
    " 1 ╵╵  ──╮──╮",
    " 2  ╴─╮╰─╯╰─╯╭─╯",
    " 3    ╰──────╯ ╷",
    "",
    "",
    " 1 ╵╵──╮╭──╮╭────╮",
    " 2   ╰─╯│  ╷╷╰─╮╶╯",
    " 3   ╰─╮╰─╯ ╭─╮│",
    " 5  ╭──╯  ╭╴│ │╰─╮",
    " 7  ╰─    │ │   ─╯",
    "11        ╰─╯    ╷",
    "",
    "",
    " 1 ╵╵  ╶╮",
    " 2    ╴─╯╭──────────╮╭─╮",
    " 3  ╭───╮╷╰─╮ ╰─╮╰──╯│ │",
    " 5  │    ╭──╯╭──╯╭───╯ │ │",
    " 7  ╰─   ╰─  ╰─        ╰─╯╷",
    "",
    "",
    " 1 ╵╵   ╭─    ╭─",
    " 2   ╭──╯  ╭──╯ ╭───╮",
    " 3   │╶╮ ╵ │╶╮╷ │╶╮ │",
    " 5   ╰─╯ │ ╰─╯╰─╯ │ ╷",
    " 7    │  ╰────────╯ │",
    "11    │ ╭─╮ ╭─╮   ╭╴│",
    "13    │ │ │ │ │ │ │ │",
    "17    │ │ │ │ │ ╰─╯ │",
    "19    ╰─╯ ╰─╯ ╰─────╯╷",
    "",
    "",
    " 1 ╵  ╭─╯",
    " 2    ╰─╶",
    " 3  ╭───╮",
    " 5  │",
    " 7  ╰─   ╷"]

/-- Fibonacci numbers, the third drawing. -/
def fibonacci3 : String :=
  lines [
    " 1 ╵──╮    ─╮",
    " 2  ╰─╯╭─╮╰─╯",
    " 3 ╰───╯ │ ",
    " 5       ╰──╷",
    "",
    "",
    " 1 ╵╵ ╭────────────╮",
    " 2  ╵ │ ╰───╮╰───╮╶╯",
    " 3  ╰─╯   ──╯  ──╯ ╷",
    "",
    " ",
    " 1 ╵╵╭──     ╭───╮ ╭───╮",
    " 2   ╰─╯  ╴─╮╷╶╮╶╯ │╭──╯",
    " 3     ╭─╯ ╶╯  ╰──╮││",
    " 5  ╭──╯ ╶╮ ╭╴ ╭──╯│╰─╮",
    " 7  │ ╭───╯ │  ╰──╮│  ╰──╮",
    "11  │ ╰─╮ │ │ ╭───╯│  ──╮│",
    "13  ╰─  │ ╰─╯ ╰────╯ ╭──╯│",
    "17                   ╰───╯╷",
    "",
    "",
    " 1 ╵╵     ─────╮  ╰─╮",
    " 2      ╭─╮  ╭─╯  ╭╴╷",
    " 3  ╵ ╰─╯ │╰─╯╰─╮ │",
    " 5  ╰─╮  ─╯ ╭───╯ ╰─╮",
    " 7    ╰─────╯ ╭╴    │",
    "11            │ ────╯",
    "13          │ │",
    "17          ╰─╯      ╷",
    "",
    "",
    " 1 ╵╵      ╭─────────╮",
    " 2   ╭───╮ │  ╭───╮  │",
    " 3  ╶╯ ──╯ ╷ ╶╯ ──╯╷╶╯",
    " 5     ╭─╮  ╭──────╯ ╭╴",
    " 7     │ │  │ ╭─╮  │ │  ",
    "11   │ │ │  │ │ │  ╰─╯",
    "13   │ │ │  ╰─╯ │ ╭───╮ ",
    "17   │ │ │ ╭───╮╰─╯   │  ",
    "19   │ │ │ │   │ ╭──╮ ╷",
    "23   ╰─╯ ╰─╯   ╰─╯  ╰─╯╷",
    "",
    "",
    " 1 ╵╰──────────╮",
    " 3  ╴──────────╯",
    " 5  ╭─╮     ╭─╮",
    " 7    │ ╭─╮ │ │",
    "11    │ │ │ │ ╰─ ",
    "13    ╰─╯ ╰─╯  ╷"]

/-- Fibonacci numbers, the fourth drawing. -/
def fibonacci4 : String :=
  lines [
    " 1 ╵  ╭─╮   ╭─╮",
    " 2 ╶╮╶╯ │   │ │",
    " 3  ╰─╮ ╰─╮╶╯ ╰╮",
    " 5 ╭──╯╭──╯╭───╯",
    " 7 ╰─  ╰─  ╰─────╷",
    "",
    "",
    " 1 ╵╵    ╭──╮ ╭──╮",
    " 2  ╭─╶ ╶╯ ─╯╶╯ ─╯╶╮",
    " 3  ╰──────────────╯╷",
    "",
    "",
    " 1 ╵╵    ──╮   ──╮",
    " 2    ╭─╮╰─╯ ╵╵╰─╯╶╮",
    " 3  ╰─╯ │ ╶╮ │╰────╯",
    " 5     ─╯  ╰─╯",
    " 7         ╭╴",
    "11         │",
    "13      │  │",
    "17      ╰──╯       ╷",
    "",
    "",
    " 1 ╵╵╭─────────────╮╶╮",
    " 2  ╵│ ╭───╮ ╭───╮ │ │",
    " 3  │╷╶╯ ──╯╶╯ ──╯╶╯ │",
    " 5  ╰────────────────╯",
    " 7                 ╭╴╭╴",
    "11                 │ │",
    "13               │ │ │",
    "17               ╰─╯ │",
    "19                ───╯╷",
    "",
    "",
    " 1 ╵╵─╮   ─╮",
    " 2    ╰──╮ ╰──╮  ╭──╮",
    " 3    ╶╮ │╵╶╮ │╷ │╶╮│",
    " 5     ╰─╯│ ╰─╯╰─╯ ││",
    " 7    ╭─╮ ╰────────╯╰─╮",
    "11    │ │ ╭─╮ ╭─╮ ╭─╮ ╷",
    "13    │ │ │ │ │ ╰─╯ ╰─╯",
    "17    │ │ │ │ │    ╭╴",
    "19    │ │ │ │ │  │ │",
    "23    │ ╰─╯ ╰─╯  ╰─╯  ╷",
    "",
    "",
    " 1 ╵ ╭────╯",
    " 2   │ ╵  ╭╴",
    " 3   ╰─╯  │",
    " 5      ╭─╯ ",
    " 7      │",
    "11    ──╯  ╷"]

/-- Fibonacci numbers, the fifth drawing. -/
def fibonacci5 : String :=
  lines [
    " 1 ╵    ─╮     ╭─╮",
    " 2  ╰─╮╰─╯ ╭─╮ │ │",
    " 3    ╰─╮╰─╯ │ │ │",
    " 5     ─╯    ╰─╯ ╰──╷",
    "",
    "",
    " 1 ╵╵╭───────╮",
    " 2   ╷╰─╮╰─╮╶╯",
    " 3      ╰─╮╰─╮",
    " 5       ─╯ ─╯╷",
    "",
    "",
    " 1 ╵╵ ──╮─╮ ╭───╮      ╭───────╮",
    " 2    ╰─╯ ╰─╯╭─╮╰─╮   ╵╷ ╭───╯╶╯",
    " 3          ╶╯ ╰──╯╰──╯  ╰──",
    " 5             ╭─╮ ╭╴",
    " 7             │ │ │",
    "11             ╰───╯           ╷",
    "",
    "",
    " 1 ╵╵  ╶╮   ──╮──╮",
    " 2    ╴─╯   ╭─╯╭─╯",
    " 3      ╭╴╵╶╯ ╶╯╶╮",
    " 5      │ │ ╭────╯",
    " 7      │ │ │    ╭╴",
    "11      │ ╰─╯    │",
    "13      ╰──── │  │",
    "17            ╰──╯╷",
    "",
    "",
    " 1 ╵╵     ╭───────╮",
    " 2     ╭─╮│  ╭─╮  ╰─╮",
    " 3   ╭─╯╶╯╷╭─╯╶╯╷ ╰─╯",
    " 5   ╰─    ╰─   ╰───╮",
    " 7    │ ╭─╮ ╭─╮   ╭╴│",
    "11    │ │ │ │ │ │ │ ╷",
    "13    ╰─╯ ╰─╯ │ ╰─╯ │",
    "17            ╰─────╯╷",
    "",
    "",
    " 1 ╵╭─────╯",
    " 2  │ ╭─╶ ╭╴",
    " 3  │ │   │",
    " 5  │ │   │",
    " 7  │ │   │ ",
    "11  ╰─╯   ╰─╷"]

/-- Fibonacci numbers, the sixth drawing. -/
def fibonacci6 : String :=
  lines [
    " 1 ╵  ╭─╮  ╭───────╮",
    " 2  ╰─╯ ╰─╮│╶╮─────╯",
    " 3  ╰──╮  ││ ╰──╮",
    " 5     │ ─╯│   ─╯",
    " 7     ╰─╮ │",
    "11       ╰─╯       ╷",
    "",
    "",
    " 1 ╵╵  ╭────╮  ╭──────╮",
    " 2   ╴─╯╰──╮│  │╭──╯╰─╯",
    " 3         ││  ││",
    " 5         │╰──╯│",
    " 7         ╰─╮╭─╯",
    "11          ─╯╰─      ╷",
    "",
    "",
    " 1 ╵╵╭────────╮╭────╮",
    " 2   │╰─╮ ╴──╮│╷╰─╮╶╯",
    " 3  ╶╯  ╰─╮╰─╯╰─╮ ╰─╮",
    " 5       ─╯╭╴   │  ─╯",
    " 7         │    │",
    "11       ╭─╯   ─╯",
    "13     │ │",
    "17     ╰─╯          ╷",
    "",
    "",
    " 1 ╵╵╶╮     ─╮ ─╮",
    " 2    ╰───╶  ╰─╮╰─╮",
    " 3    ╭───╮ ╵╰─╯╰─╯╶╮",
    " 5        │ ╰───────╯",
    " 7      ──╯       ╭─╮",
    "11                │",
    "13            ╭───╯ ",
    "17          │ │",
    "19          ╰─╯     ╷",
    "",
    "",
    " 1 ╵╵ ──╮ ──╮",
    " 2    ╭─╯ ╭─╯╭──────╮",
    " 3   ╶╯ ╵╶╯╷ ╰──╮╶╮ │",
    " 5      │  ╰──╮ │ │ │",
    " 7      ╰───╮ │ │ │ ╷",
    "11   ╭──────╯ │ │ │ │",
    "13   │ ╭──────╯ │ │ │",
    "17   │ ╰────────╯ │ │",
    "19   ╰────────────╯ │",
    "23   ╭────╮ ╭─╮   ╭╴│",
    "29   ╰──╮ │ │ │ │ │ │",
    "31      │ ╰─╯ │ ╰─╯ │",
    "37      ╰───────────╯╷",
    "",
    "",
    " 1 ╵╭─────╯",
    " 3  │ ╭───╮╭─╶",
    " 5  │ │  ╭─╯",
    " 7  │ ╰─ │ ",
    "11  ╰────╯    ╷"]

/-- All sample programs by name. -/
def programs : List (String × String) :=
  [("zero", zero),
   ("fib1", fibonacci1),
   ("fib2", fibonacci2),
   ("fib3", fibonacci3),
   ("fib4", fibonacci4),
   ("fib5", fibonacci5),
   ("fib6", fibonacci6)]

end StrandScript.Sample
