import StrandScript.Proofs.Outcome
import StrandScript.Store

/-!
# Stores that can be saved

A store can be saved when each of its values can (`saveable_eq_ok`), which for a whole number means
that it is not too long (`saveable_int`, `saveable_int_error`).
-/

namespace StrandScript

theorem Value.tooLong_pos : 0 < Value.tooLong := by
  unfold Value.tooLong
  -- The power itself is out of reach.
  generalize 4300 = k
  exact Nat.pow_pos (Nat.succ_pos 9)

theorem Value.saveable_int {n : Int} (h : n.natAbs < Value.tooLong) :
    (Value.int n).saveable = .ok () := by
  have hf : Value.fits n = true := decide_eq_true h
  simp [Value.saveable, hf]

theorem Value.saveable_int_error {n : Int} {f : Fault} (h : (Value.int n).saveable = .error f) :
    f = .badValue ∧ Value.tooLong ≤ n.natAbs := by
  cases hf : Value.fits n <;> simp only [Value.saveable, hf] at h <;> cases h
  exact ⟨rfl, Nat.le_of_not_lt (of_decide_eq_false hf)⟩

namespace Store

theorem saveable_eq_ok {s : Store} :
    s.saveable = .ok () ↔ ∀ l ∈ s.lists, ∀ v ∈ l.2, v.saveable = .ok () := by
  unfold saveable
  rw [Outcome.forM_eq_ok]
  exact forall₂_congr fun l _ => Outcome.forM_eq_ok

theorem saveable_eq_error {s : Store} {f : Fault} (h : s.saveable = .error f) :
    ∃ l ∈ s.lists, ∃ v ∈ l.2, v.saveable = .error f := by
  obtain ⟨l, hl, h⟩ := Outcome.forM_eq_error h
  exact ⟨l, hl, Outcome.forM_eq_error h⟩

end Store

end StrandScript
