import Mathlib.NumberTheory.Chebyshev
import StrandScript.Primes

/-!
# The table of primes is complete

The table of `n` numbers is searched below `n * n`, which is always far enough: there are at least
`n - 1` primes there (`sub_one_le_card_primesBelow`, from the lower bound on the least common
multiple of the first numbers). So the table has `n` numbers (`length_table`), and a shorter table
begins a longer one (`take_table`).

* `isPrime_iff`: the trial division finds the primes.
* `search_eq`: the search keeps the first primes of its range.
-/

namespace StrandScript.Primes

/-! ## Trial division -/

theorem noDivisor_iff {n fuel i : ℕ} :
    noDivisor n fuel i = true ↔ ∀ j, i ≤ j → j < i + fuel → j * j ≤ n → ¬ j ∣ n := by
  induction fuel generalizing i with
  | zero => exact ⟨fun _ j hj hlt => absurd hlt (by omega), fun _ => rfl⟩
  | succ fuel ih =>
    unfold noDivisor
    split
    · rename_i hi
      -- Beyond the square root nothing is left to check.
      refine ⟨fun _ j hij _ hj => absurd hj ?_, fun _ => rfl⟩
      have := Nat.mul_le_mul hij hij
      omega
    · rename_i hi
      split
      · rename_i hd
        refine ⟨fun h => (by cases h), fun h => ?_⟩
        exact absurd (Nat.dvd_of_mod_eq_zero hd) (h i le_rfl (by omega) (by omega))
      · rename_i hd
        rw [ih]
        constructor
        · intro h j hij hlt hj
          rcases hij.eq_or_lt with rfl | hij
          · exact fun hdvd => hd (Nat.mod_eq_zero_of_dvd hdvd)
          · exact h j hij (by omega) hj
        · exact fun h j hij hlt hj => h j (by omega) (by omega) hj

theorem isPrime_iff {n : ℕ} (hn : 2 ≤ n) : isPrime n = true ↔ n.Prime := by
  unfold isPrime
  rw [noDivisor_iff, Nat.prime_def_le_sqrt]
  constructor
  · intro h
    refine ⟨hn, fun m hm hs => h m hm ?_ (Nat.le_sqrt.mp hs)⟩
    have := Nat.sqrt_le_self n
    omega
  · exact fun h j hj _ hjn => h.2 j hj (Nat.le_sqrt.mpr hjn)

/-- The search keeps the primes of its range, up to the number that is wanted. -/
theorem search_eq (fuel n want : ℕ) (hn : 2 ≤ n) :
    search fuel n want = ((List.range' n fuel).filter fun k => k.Prime).take want := by
  induction fuel generalizing n want with
  | zero => simp [search]
  | succ fuel ih =>
    cases want with
    | zero => simp [search]
    | succ want =>
      rw [search, List.range'_succ]
      by_cases hp : n.Prime
      · rw [if_pos ((isPrime_iff hn).mpr hp), ih _ _ (by omega),
          List.filter_cons_of_pos (by simpa using hp), List.take_succ_cons]
      · rw [if_neg (by simpa [isPrime_iff hn] using hp), ih _ _ (by omega),
          List.filter_cons_of_neg (by simpa using hp)]

/-! ## There are enough primes -/

theorem lcmUpto_le_pow (n : ℕ) (hn : n ≠ 0) : Nat.lcmUpto n ≤ n ^ (Nat.primesLE n).card := by
  rw [Nat.lcmUpto_eq_prod_pow_log]
  exact Finset.prod_le_pow_card _ _ _ fun p _ => Nat.pow_log_le_self p hn

theorem sq_lt_two_pow_succ (n : ℕ) : n * n < 2 ^ (n + 1) := by
  induction n with
  | zero => decide
  | succ n ih =>
    rcases lt_or_ge n 3 with h | h
    · interval_cases n <;> decide
    · have h2 : 2 ^ (n + 1 + 1) = 2 * 2 ^ (n + 1) := by ring
      nlinarith

/-- **Below `n * n` there are at least `n - 1` primes.** -/
theorem sub_one_le_card_primesBelow (n : ℕ) : n - 1 ≤ (Nat.primesBelow (n * n)).card := by
  rcases lt_or_ge n 2 with h | h
  · omega
  -- With `k` primes the least common multiple is at most `(n * n) ^ k`, but it is at least
  -- `2 ^ (n * n - 1) / (n * n)`.
  by_contra hlt
  set k := (Nat.primesBelow (n * n)).card with hk
  have hpos : 4 ≤ n * n := Nat.mul_le_mul h h
  have hcard : (Nat.primesLE (n * n - 1)).card = k := by
    rw [hk, Nat.primesBelow_eq_primesLE_sub_one]
  have hup : 2 ^ (n * n - 1) ≤ (n * n) ^ (k + 1) := calc
    2 ^ (n * n - 1) ≤ (n * n - 1 + 1) * Nat.lcmUpto (n * n - 1) :=
      Chebyshev.two_pow_le_mul_lcmUpto _
    _ ≤ (n * n) * (n * n) ^ k := by
      refine Nat.mul_le_mul (by omega) ?_
      rw [← hcard]
      exact (lcmUpto_le_pow _ (by omega)).trans (Nat.pow_le_pow_left (by omega) _)
    _ = (n * n) ^ (k + 1) := (pow_succ' _ _).symm
  have hlow : (n * n) ^ (k + 1) < 2 ^ (n * n - 1) := calc
    (n * n) ^ (k + 1) ≤ (n * n) ^ (n - 1) := Nat.pow_le_pow_right (by omega) (by omega)
    _ < (2 ^ (n + 1)) ^ (n - 1) := Nat.pow_lt_pow_left (sq_lt_two_pow_succ n) (by omega)
    _ = 2 ^ (n * n - 1) := by
      rw [← pow_mul]
      obtain ⟨m, rfl⟩ : ∃ m, n = m + 1 := ⟨n - 1, by omega⟩
      congr 1
      simp only [Nat.add_sub_cancel]
      have : (m + 1) * (m + 1) = (m + 1 + 1) * m + 1 := by ring
      omega
  omega

/-! ## The table -/

/-- The primes from `2` on below `n * n`, in increasing order. -/
def found (n : ℕ) : List ℕ := (List.range' 2 (n * n - 2)).filter fun k => k.Prime

theorem table_eq (n : ℕ) : table n = 1 :: (found n).take (n - 1) := by
  rw [table, search_eq _ _ _ le_rfl, found]

theorem sub_one_le_length_found (n : ℕ) : n - 1 ≤ (found n).length := by
  have hset : (found n).toFinset = Nat.primesBelow (n * n) := by
    ext p
    simp only [found, List.mem_toFinset, List.mem_filter, List.mem_range'_1, decide_eq_true_eq,
      Nat.mem_primesBelow]
    constructor
    · exact fun h => ⟨by omega, h.2⟩
    · exact fun h => ⟨⟨h.2.two_le, by have := h.2.two_le; omega⟩, h.2⟩
  calc n - 1 ≤ (Nat.primesBelow (n * n)).card := sub_one_le_card_primesBelow n
    _ = (found n).toFinset.card := by rw [hset]
    _ ≤ (found n).length := List.toFinset_card_le _

theorem found_prefix {n m : ℕ} (h : n ≤ m) : found n <+: found m := by
  refine List.IsPrefix.filter _ ?_
  have : n * n - 2 ≤ m * m - 2 := Nat.sub_le_sub_right (Nat.mul_le_mul h h) 2
  obtain ⟨d, hd⟩ := Nat.exists_eq_add_of_le this
  rw [hd, ← List.range'_append_1]
  exact List.prefix_append _ _

theorem length_table {n : ℕ} (hn : 1 ≤ n) : (table n).length = n := by
  have := sub_one_le_length_found n
  rw [table_eq, List.length_cons, List.length_take, Nat.min_eq_left this]
  omega

theorem filter_prime_range (m : ℕ) :
    ((List.range m).filter fun k => k.Prime) =
      (List.range (Nat.count Nat.Prime m)).map (Nat.nth Nat.Prime) := by
  induction m with
  | zero => simp
  | succ m ih =>
    rw [List.range_succ, List.filter_append, ih, Nat.count_succ]
    by_cases hp : m.Prime
    · rw [if_pos hp, List.range_succ, List.map_append, List.map_singleton, Nat.nth_count hp,
        List.filter_cons_of_pos (by simpa using hp), List.filter_nil]
    · rw [if_neg hp, Nat.add_zero, List.filter_cons_of_neg (by simpa using hp), List.filter_nil,
        List.append_nil]

/-- **The table holds `1` and the smallest primes in increasing order**, none left out. -/
theorem table_eq_nth (n : ℕ) :
    table n = 1 :: (List.range (n - 1)).map (Nat.nth Nat.Prime) := by
  have hfound : found n = ((List.range (n * n)).filter fun k => k.Prime) := by
    -- No prime lies below two, so that the search misses none.
    rcases lt_or_ge n 2 with h | h
    · interval_cases n <;> decide
    · obtain ⟨m, hm⟩ := Nat.exists_eq_add_of_le ((by decide : 2 ≤ 4).trans (Nat.mul_le_mul h h))
      have hlow : ((List.range' 0 2).filter fun k => k.Prime) = [] := by decide
      rw [found, hm, Nat.add_sub_cancel_left, List.range_eq_range', ← List.range'_append_1,
        List.filter_append, hlow, List.nil_append, Nat.zero_add]
  have hlen := sub_one_le_length_found n
  rw [hfound, filter_prime_range, List.length_map, List.length_range] at hlen
  rw [table_eq, hfound, filter_prime_range, ← List.map_take, List.take_range, Nat.min_eq_left hlen]

/-- **A shorter table begins a longer one.** -/
theorem take_table {n m : ℕ} (hn : 1 ≤ n) (h : n ≤ m) : (table m).take n = table n := by
  obtain ⟨k, rfl⟩ : ∃ k, n = k + 1 := ⟨n - 1, by omega⟩
  rw [table_eq, table_eq, List.take_succ_cons, List.take_take, Nat.min_eq_left (by omega),
    Nat.add_sub_cancel]
  have := sub_one_le_length_found (k + 1)
  obtain ⟨rest, hrest⟩ := found_prefix h
  rw [← hrest, List.take_append_of_le_length (by omega)]

theorem table_pairwise_lt (n : ℕ) : (table n).Pairwise (· < ·) := by
  rw [table_eq, List.pairwise_cons]
  have hsub : ((found n).take (n - 1)).Sublist (List.range' 2 (n * n - 2)) :=
    (List.take_sublist _ _).trans List.filter_sublist
  refine ⟨fun p hp => ?_, List.Pairwise.sublist hsub List.pairwise_lt_range'⟩
  have := List.mem_range'_1.mp (hsub.subset hp)
  omega

/-- No number occurs twice in a table. -/
theorem table_nodup (n : ℕ) : (table n).Nodup := (table_pairwise_lt n).imp fun h => Nat.ne_of_lt h

end StrandScript.Primes
