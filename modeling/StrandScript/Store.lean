import StrandScript.Index
import StrandScript.Number.Value
import StrandScript.Primes

/-!
# The store

A running program works on numbered lists of values. The lists of a program are numbered by its
table of primes, and their set never changes.

* `Store.get?`, `Store.put`: a list by its number.
* `Store.saveable`: whether all values can be saved.
-/

namespace StrandScript

/-- Numbered lists, in the order in which they were made. -/
structure Store where
  lists : List (Int × List Value)
deriving Repr, Inhabited

namespace Store

/-- The empty lists of a program of `n` rows. -/
def initial (n : Nat) : Store := ⟨(Primes.table n).map fun (p : Nat) => ((p : Int), [])⟩

/-- The list of a number. -/
def get? (s : Store) (n : Int) : Option (List Value) := (s.lists.find? fun l => l.1 == n).map (·.2)

/-- The store with the list of a number replaced; without such a list nothing changes. -/
def put (s : Store) (n : Int) (xs : List Value) : Store :=
  ⟨s.lists.map fun l => if l.1 == n then (n, xs) else l⟩

/-- The numbers of the lists. -/
def numbers (s : Store) : List Int := s.lists.map (·.1)

/-- Whether all values can be saved; the first that cannot tells why. -/
def saveable (s : Store) : Except Fault Unit := s.lists.forM fun l => l.2.forM Value.saveable

@[simp] theorem numbers_put (s : Store) (n : Int) (xs : List Value) :
    (s.put n xs).numbers = s.numbers := by
  simp only [put, numbers, List.map_map]
  apply List.map_congr_left
  intro l _
  by_cases h : l.1 == n <;> simp_all

/-- A look-up after `put`: the number itself gives the new list if it had one, every other number
what it gave before. -/
theorem get?_put (s : Store) (n : Int) (xs : List Value) (m : Int) :
    (s.put n xs).get? m = if m = n then (s.get? n).map fun _ => xs else s.get? m := by
  obtain ⟨ls⟩ := s
  simp only [get?, put]
  induction ls with
  | nil => simp
  | cons l ls ih => grind

/-- Values between brackets. -/
def listText (xs : List Value) : Except Fault String := do
  return "[" ++ ", ".intercalate (← xs.mapM Value.text) ++ "]"

/-- The store as text: each list after its number. -/
def text (s : Store) : Except Fault String := do
  let lists ← s.lists.mapM fun l => do return toString l.1 ++ ": " ++ (← listText l.2)
  return "\x7b" ++ ", ".intercalate lists ++ "\x7d"

end Store

end StrandScript
