import Mathlib.Data.Nat.Fib.Basic
import StrandScript.Fibonacci
import StrandScript.Proofs.Outcome

/-!
# The Fibonacci numbers that the hand-written program leaves

The loop of the program has no bound of its own: it goes round until the distance to the target is
used up, and then takes the last round back (`Loops`). After `n` rounds the lists are known
(`after`), one round leads from each to the next (`round_after`), and the first round that uses up
the distance is the one in which the counter reaches the target, or the very first one for a target
below one (`loops_after`).

* `rounds_of_loops`: a bound that leaves room for the loop does not change what it leaves.
* `fibonacci_left`: the lists in the end.
-/

namespace StrandScript.Fibonacci

open Outcome

/-- The loop without a bound. From `l` it keeps `n` rounds, the round after them uses up the
distance to the target and is taken back, and the lists are left as `m`. -/
inductive Loops : Nat → Lists → Lists → Prop
  | leaves {l l' : Lists} {d : Int} (hround : round.run l = .ok () l') (hd : l'.third[1]? = some d)
      (hle : d ≤ 0) : Loops 0 l l
  | again {n : Nat} {l l' m : Lists} {d : Int} (hround : round.run l = .ok () l')
      (hd : l'.third[1]? = some d) (hlt : 0 < d) (hrest : Loops n l' m) : Loops (n + 1) l m

variable {n : Nat} {l l' m : Lists}

/-- What the loop does after a round depends on the distance that the round leaves. -/
theorem rounds_succ {d : Int} (hround : round.run l = .ok () l') (hd : l'.third[1]? = some d)
    (fuel : Nat) :
    (rounds (fuel + 1)).run l = if d ≤ 0 then .ok () l else (rounds fuel).run l' := by
  have hget (m : Lists) : (get : Work Lists) m = .ok m m := rfl
  have hround : round l = .ok () l' := hround
  have hread : read l'.third 1 l' = .ok d l' := by
    unfold read
    rw [hd]
    rfl
  unfold EStateM.run
  rw [rounds, run_bind_ok (hget l), run_bind_ok hround, run_bind_ok (hget l'), run_bind_ok hread]
  split <;> rfl

/-- **A bound that leaves room for the loop changes nothing.** -/
theorem rounds_of_loops (h : Loops n l m) {fuel : Nat} (hfuel : n < fuel) :
    (rounds fuel).run l = .ok () m := by
  induction h generalizing fuel with
  | leaves hround hd hle =>
    obtain ⟨fuel, rfl⟩ := Nat.exists_eq_succ_of_ne_zero (Nat.ne_of_gt hfuel)
    rw [Nat.succ_eq_add_one, rounds_succ hround hd, if_pos hle]
  | again hround hd hlt _ ih =>
    obtain ⟨fuel, rfl⟩ := Nat.exists_eq_succ_of_ne_zero (Nat.ne_of_gt (Nat.zero_lt_of_lt hfuel))
    rw [Nat.succ_eq_add_one, rounds_succ hround hd, if_neg (Int.not_le.mpr hlt)]
    exact ih (Nat.lt_of_succ_lt_succ hfuel)

/-! ## Rounds from the seed -/

/-- The number before the `n`-th one; one stands before the first. -/
def numberBefore : Nat → Int
  | 0 => 1
  | n + 1 => Nat.fib n

/-- What the third list holds after `n` rounds: the number before the last one, and the distance to
the target. -/
def scratch (target : Int) : Nat → List Int
  | 0 => [0, 0]
  | n + 1 => [Nat.fib n, target - (n + 1)]

/-- The lists after `n` rounds towards a target. -/
def after (target : Int) (n : Nat) : Lists where
  first := (List.range (n + 1)).map fun i => (Nat.fib i : Int)
  second := [Nat.fib n, numberBefore n, n, target]
  third := scratch target n

theorem fib_succ_eq (n : Nat) : (Nat.fib (n + 1) : Int) = Nat.fib n + numberBefore n := by
  cases n with
  | zero => rfl
  | succ n => rw [Nat.fib_add_two, Nat.cast_add, Int.add_comm, numberBefore]

/-- A round adds the two numbers, counts, and leaves the distance to the target. -/
theorem round_lists (xs : List Int) (a b k t x y : Int) :
    round.run ⟨xs, [a, b, k, t], [x, y]⟩ =
      .ok () ⟨xs ++ [a + b], [a + b, a, k + 1, t], [a, t - (k + 1)]⟩ := rfl

/-- **One round** leads from the lists after `n` rounds to those after one more. -/
theorem round_after (target : Int) (n : Nat) :
    round.run (after target n) = .ok () (after target (n + 1)) := by
  obtain ⟨x, y, hscratch⟩ : ∃ x y, scratch target n = [x, y] := by
    cases n with
    | zero => exact ⟨_, _, rfl⟩
    | succ n => exact ⟨_, _, rfl⟩
  unfold after
  rw [hscratch, round_lists, ← fib_succ_eq, List.range_succ (n := n + 1), List.map_append]
  rfl

/-- **All rounds**: as long as the counter stays below the target, rounds are kept. -/
theorem loops_after {target : Int} {n m : Nat} (hm : (m : Int) = max target 1 - 1) (hn : n ≤ m) :
    Loops (m - n) (after target n) (after target m) := by
  obtain ⟨k, rfl⟩ := Nat.exists_eq_add_of_le hn
  rw [Nat.add_sub_cancel_left]
  induction k generalizing n with
  | zero => exact .leaves (round_after target n) rfl (by omega)
  | succ k ih =>
    refine .again (round_after target n) rfl (by omega) ?_
    have hrest := ih (n := n + 1) (by omega) (by omega)
    rwa [Nat.add_right_comm] at hrest

/-- **The program computes Fibonacci numbers.** The seed and a target, whatever it is, start a loop
that comes to its end, also where nothing bounds its rounds. With `m` one less than the target, and
zero for a target below one, it keeps `m` rounds and takes the next one back. The first list then
holds the numbers from the `0`-th to the `m`-th one. For a target from two on, the second list holds
the last two numbers, the counter and the target, and the third list the last number but one and the
distance left; otherwise the lists are as they were when the loop began. -/
theorem fibonacci_left (target : Int) :
    ∃ (start left : Lists) (m : Nat),
      (assign 2 3 target).run (seed ⟨[], [], []⟩) = .ok () start ∧
      iterate.run start = .ok () left ∧
      Loops m start left ∧ (m : Int) = max target 1 - 1 ∧
      left.first = (List.range (m + 1)).map (fun i => (Nat.fib i : Int)) ∧
      (2 ≤ target → left.second = [(Nat.fib m : Int), Nat.fib (m - 1), m, target] ∧
        left.third = [(Nat.fib (m - 1) : Int), 1]) ∧
      (target ≤ 1 → left = start) := by
  obtain ⟨m, hm⟩ := Int.eq_ofNat_of_zero_le (a := max target 1 - 1) (by omega)
  have hloops : Loops m (after target 0) (after target m) := loops_after hm.symm (Nat.zero_le m)
  refine ⟨after target 0, after target m, m, rfl, ?_, hloops, hm.symm, rfl, fun htwo => ?_,
    fun hone => ?_⟩
  · refine rounds_of_loops hloops ?_
    show m < (target - 0).toNat + 1
    omega
  · obtain ⟨k, rfl⟩ : ∃ k, m = k + 1 := ⟨m - 1, by omega⟩
    refine ⟨rfl, ?_⟩
    show [(Nat.fib k : Int), target - (k + 1)] = _
    rw [show target - ((k : Int) + 1) = 1 by omega]
    rfl
  · obtain rfl : m = 0 := by omega
    rfl

end StrandScript.Fibonacci
