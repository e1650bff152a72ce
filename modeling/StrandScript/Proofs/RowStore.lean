import Mathlib.Logic.Function.Basic
import Mathlib.Data.List.Nodup
import StrandScript.Proofs.Saving

/-!
# Stores of whole numbers

The store of a program whose cells all hold whole numbers is given by the numbers on each row:
`Store.ofRows primes rows` has, for the row `y`, the list of number `primes[y]` with the cells
`rows y`.
-/

namespace StrandScript.Store

/-- The store with the numbers `rows y` in the list of row `y`. -/
def ofRows (primes : List Nat) (rows : Nat → List Int) : Store :=
  ⟨primes.zipIdx.map fun (p, y) => ((p : Int), (rows y).map .int)⟩

variable {primes : List Nat} {rows : Nat → List Int} {y p : Nat}

theorem get?_of_mem {s : Store} {n : Int} {xs : List Value} (hn : s.numbers.Nodup)
    (h : (n, xs) ∈ s.lists) : s.get? n = some xs := by
  obtain ⟨ls⟩ := s
  simp only [numbers, get?] at hn h ⊢
  induction ls with
  | nil => cases h
  | cons l ls ih =>
    rw [List.map_cons, List.nodup_cons] at hn
    rcases List.mem_cons.mp h with rfl | h
    · rw [List.find?_cons_of_pos (by simp)]
      rfl
    · have hne : l.1 ≠ n := fun he => hn.1 (he ▸ List.mem_map_of_mem h)
      rw [List.find?_cons_of_neg (by simpa using hne)]
      exact ih hn.2 h

theorem numbers_ofRows : (ofRows primes rows).numbers = primes.map Int.ofNat := by
  have hfst : primes.zipIdx.map Prod.fst = primes := List.zipIdx_map_fst 0 primes
  conv_rhs => rw [← hfst, List.map_map]
  unfold ofRows numbers
  rw [List.map_map]
  rfl

theorem get?_ofRows (hnodup : primes.Nodup) (hp : primes[y]? = some p) :
    (ofRows primes rows).get? p = some ((rows y).map .int) := by
  apply get?_of_mem
  · rw [numbers_ofRows]
    exact hnodup.map fun a b h => Int.ofNat.inj h
  · exact List.mem_map.mpr ⟨(p, y), List.mk_mem_zipIdx_iff_getElem?.mpr hp, rfl⟩

theorem put_ofRows (hnodup : primes.Nodup) (hp : primes[y]? = some p) (us : List Int) :
    (ofRows primes rows).put p (us.map .int) = ofRows primes (Function.update rows y us) := by
  unfold put ofRows
  congr 1
  rw [List.map_map]
  apply List.map_congr_left
  rintro ⟨q, z⟩ hz
  have hq : primes[z]? = some q := List.mk_mem_zipIdx_iff_getElem?.mp hz
  by_cases h : z = y
  · subst h
    obtain rfl : p = q := Option.some.inj (hp.symm.trans hq)
    simp
  · have hne : q ≠ p := by
      rintro rfl
      obtain ⟨hlt, -⟩ := List.getElem?_eq_some_iff.mp hp
      exact h ((List.getElem?_inj hlt hnodup).mp (hp.trans hq.symm)).symm
    have hne' : (q : Int) ≠ p := fun he => hne (Int.ofNat.inj he)
    simp [Function.update_of_ne h, hne']

/-- Whole numbers fail to be saved only by their length. -/
theorem saveable_ofRows_error {f : Fault} (h : (ofRows primes rows).saveable = .error f) :
    f = .badValue ∧ ∃ y, ∃ n ∈ rows y, Value.tooLong ≤ n.natAbs := by
  obtain ⟨l, hl, v, hv, hf⟩ := saveable_eq_error h
  obtain ⟨⟨q, z⟩, -, rfl⟩ := List.mem_map.mp hl
  obtain ⟨n, hn, rfl⟩ := List.mem_map.mp hv
  obtain ⟨hbad, hlong⟩ := Value.saveable_int_error hf
  exact ⟨hbad, z, n, hn, hlong⟩

end StrandScript.Store
