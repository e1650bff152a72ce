/-!
# Positions counted from either end

A position in a list of `n` items is an integer: `0` is the first item and `-1` the last one.
`resolve? n i` is the place that `i` names, and every look-up and update by an integer goes
through it.
-/

namespace StrandScript.Index

variable {α : Type}

/-- The place that `i` names among `n` items. -/
def resolve? (n : Nat) (i : Int) : Option Nat :=
  let j := if i < 0 then i + n else i
  if 0 ≤ j ∧ j < n then some j.toNat else none

/-- The item at `i`. -/
def get? (xs : List α) (i : Int) : Option α := (resolve? xs.length i).bind (xs[·]?)

/-- The list with the item at `i` replaced. -/
def set? (xs : List α) (i : Int) (a : α) : Option (List α) :=
  (resolve? xs.length i).map fun j => xs.set j a

/-- The item at `i`, and the list without it. -/
def remove? (xs : List α) (i : Int) : Option (α × List α) :=
  (resolve? xs.length i).bind fun j => (xs[j]?).map fun a => (a, xs.eraseIdx j)

/-- The list with `a` put before the item at `i`; a place outside the list stands for its nearer
end. -/
def insert (xs : List α) (i : Int) (a : α) : List α :=
  let j := if i < 0 then i + xs.length else i
  let j := min j.toNat xs.length
  xs.take j ++ a :: xs.drop j

theorem resolve?_lt {n : Nat} {i : Int} {j : Nat} (h : resolve? n i = some j) : j < n := by
  simp only [resolve?, Option.ite_none_right_eq_some, Option.some.injEq] at h
  omega

theorem resolve?_natCast {n j : Nat} (h : j < n) : resolve? n (j : Int) = some j := by
  have h0 : ¬ ((j : Int) < 0) := by omega
  have h1 : (j : Int) < (n : Int) := by omega
  simp [resolve?, h0, h1]

end StrandScript.Index
