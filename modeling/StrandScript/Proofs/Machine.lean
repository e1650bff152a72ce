import StrandScript.Proofs.Outcome
import StrandScript.Step

/-!
# Computations on the store

How the basic computations of the machine act on a store: each lemma gives the result and the store
that is left, and `bind_ok` puts them one after the other up to a fault (`bind_error`).
-/

namespace StrandScript.Machine

variable {α β : Type} {s t : Store} {n : Int} {xs : List Value}

theorem bind_ok {x : Machine α} {f : α → Machine β} {a : α} (h : x s = .ok a t) :
    (x >>= f) s = f a t := Outcome.run_bind_ok h

theorem bind_error {x : Machine α} {k : α → Machine β} {f : Fault} (h : x s = .error f t) :
    (x >>= k) s = .error f t := by
  change EStateM.bind x k s = .error f t
  unfold EStateM.bind
  rw [h]

theorem discard_ok {x : Machine α} {a : α} (h : x s = .ok a t) :
    (discard x : Machine PUnit) s = .ok PUnit.unit t := by
  change EStateM.map (Function.const α PUnit.unit) x s = _
  unfold EStateM.map
  rw [h]

theorem discard_error {x : Machine α} {f : Fault} (h : x s = .error f t) :
    (discard x : Machine PUnit) s = .error f t := by
  change EStateM.map (Function.const α PUnit.unit) x s = _
  unfold EStateM.map
  rw [h]

theorem field_some (name : String) (a : α) (s : Store) : field name (some a) s = .ok a s := rfl

theorem list_of_get? (h : s.get? n = some xs) : list n s = .ok xs s := by
  have hget : (get : Machine Store) s = .ok s s := rfl
  unfold list
  rw [bind_ok hget, h]
  rfl

theorem list_of_get?_none (h : s.get? n = none) : list n s = .error (.missingList n) s := by
  have hget : (get : Machine Store) s = .ok s s := rfl
  unfold list
  rw [bind_ok hget, h]
  rfl

theorem put_eq (n : Int) (xs : List Value) (s : Store) : put n xs s = .ok () (s.put n xs) := rfl

theorem append_of_get? (h : s.get? n = some xs) (v : Value) :
    append n v s = .ok () (s.put n (xs ++ [v])) := by
  unfold append
  rw [bind_ok (list_of_get? h), put_eq]

theorem cell_of_getElem? {i : Nat} {v : Value} (h : xs[i]? = some v) (s : Store) :
    cell xs i s = .ok v s := by
  obtain ⟨hi, -⟩ := List.getElem?_eq_some_iff.mp h
  unfold cell Index.get?
  rw [Index.resolve?_natCast hi, Option.bind_some, h]
  rfl

theorem write_of_lt {i : Nat} (h : s.get? n = some xs) (hi : i < xs.length) (v : Value) :
    write n i v s = .ok () (s.put n (xs.set i v)) := by
  unfold write Index.set?
  rw [bind_ok (list_of_get? h), Index.resolve?_natCast hi]
  rfl

end StrandScript.Machine
