import StrandScript.Proofs.Saving
import StrandScript.Step

/-!
# Working with values

Which faults arise from values alone. An operation on values may not take one of them, or have no
result that can be written down, and fails for no other reason (`Value.computes_add` and so on,
`Command.computes_apply`).

* `Fault.isArithmetic`: the faults of operations on values.
* `Computes`: a computation that has no other faults.
-/

namespace StrandScript

/-- A fault of an operation on values. -/
def Fault.isArithmetic : Fault → Bool
  | .wrongKind | .badValue | .divisionByZero | .overflow => true
  | _ => false

variable {α β : Type}

/-- The computation fails only where an operation on values does. -/
def Computes (x : Except Fault α) : Prop := ∀ f, x = .error f → f.isArithmetic = true

theorem computes_ok (a : α) : Computes (.ok a) := fun _ h => by cases h

theorem computes_error {f : Fault} (h : f.isArithmetic = true) :
    Computes (.error f : Except Fault α) :=
  fun _ hf => Except.error.inj hf ▸ h

theorem Computes.bind {x : Except Fault α} {k : α → Except Fault β} (hx : Computes x)
    (hk : ∀ a, Computes (k a)) : Computes (x >>= k) := by
  intro f h
  obtain h | ⟨a, -, h⟩ := Outcome.bind_eq_error.mp h
  · exact hx f h
  · exact hk a f h

theorem Computes.map {x : Except Fault α} (hx : Computes x) (k : α → β) : Computes (x.map k) := by
  cases x with
  | error f => exact computes_error (hx f rfl)
  | ok a => exact computes_ok _

theorem Computes.ite {c : Prop} [Decidable c] {x y : Except Fault α} (hx : Computes x)
    (hy : Computes y) :
    Computes (if c then x else y) := by
  split
  · exact hx
  · exact hy

namespace Value

theorem computes_floatOfInt (n : Int) : Computes (floatOfInt n) := by
  unfold floatOfInt
  split
  · exact computes_ok _
  · exact computes_error rfl

theorem computes_toComplex (v : Value) : Computes v.toComplex := by
  cases v with
  | int n => exact (computes_floatOfInt n).map _
  | real x => exact computes_ok _
  | complex re im => exact computes_ok _
  | empty => exact computes_error rfl

theorem computes_pair (v w : Value) : Computes (pair v w) := by
  unfold pair
  split
  · exact computes_error rfl
  · exact computes_error rfl
  · exact computes_ok _
  · exact (computes_floatOfInt _).map _
  · exact (computes_floatOfInt _).map _
  · exact computes_ok _
  · exact (computes_toComplex _).bind fun a => (computes_toComplex _).bind fun b => computes_ok _

theorem computes_complexDiv (a b : Float × Float) : Computes (complexDiv a b) := by
  unfold complexDiv
  refine .ite ?_ (.ite (computes_ok _) (computes_ok _))
  exact .ite (computes_error rfl) (computes_ok _)

theorem computes_complexPowPolar (a b : Float × Float) : Computes (complexPowPolar a b) := by
  unfold complexPowPolar
  refine .ite (computes_ok _) (.ite ?_ (computes_ok _))
  exact .ite (computes_error rfl) (computes_ok _)

theorem computes_complexPow (a b : Float × Float) : Computes (complexPow a b) := by
  have hlast : ∀ p : Float × Float,
      Computes (if p.1.isInf || p.2.isInf then .error .overflow else .ok p) :=
    fun p => .ite (computes_error rfl) (computes_ok p)
  unfold complexPow
  refine .ite (.ite ?_ ?_) ((computes_complexPowPolar a b).bind hlast)
  · exact (computes_ok _).bind hlast
  · exact (computes_complexDiv _ _).bind hlast

theorem computes_realMod (a b : Float) : Computes (realMod a b) := by
  unfold realMod
  refine .ite (computes_error rfl) (.ite (computes_ok _) ?_)
  exact .ite (computes_ok _) (computes_ok _)

theorem computes_realPow (a b : Float) : Computes (realPow a b) := by
  unfold realPow
  refine .ite (computes_ok _)
    (.ite (computes_ok _) (.ite (computes_ok _) (.ite ?_ (.ite ?_ (.ite ?_ ?_)))))
  -- an infinite exponent, an infinite base, the base zero, and then finite operands
  · exact .ite (computes_ok _) (.ite (computes_ok _) (computes_ok _))
  · exact .ite (computes_ok _) (computes_ok _)
  · exact .ite (computes_error rfl) (computes_ok _)
  · refine .ite ((computes_complexPow _ _).map _) (.ite (computes_ok _) ?_)
    exact .ite (computes_error rfl) (computes_ok _)

theorem computes_add (v w : Value) : Computes (v.add w) :=
  (computes_pair v w).bind fun p => by cases p <;> exact computes_ok _

theorem computes_sub (v w : Value) : Computes (v.sub w) :=
  (computes_pair v w).bind fun p => by cases p <;> exact computes_ok _

theorem computes_mul (v w : Value) : Computes (v.mul w) :=
  (computes_pair v w).bind fun p => by cases p <;> exact computes_ok _

theorem computes_intDiv (a b : Int) : Computes (intDiv a b) := by
  unfold intDiv
  refine .ite (computes_error rfl) ?_
  split
  · exact computes_ok _
  · exact computes_error rfl

theorem computes_div (v w : Value) : Computes (v.div w) := by
  refine (computes_pair v w).bind fun p => ?_
  cases p with
  | ints a b => exact (computes_intDiv a b).bind fun _ => computes_ok _
  | reals a b => exact .ite (computes_error rfl) (computes_ok _)
  | complexes a b => exact (computes_complexDiv a b).bind fun _ => computes_ok _

theorem computes_mod (v w : Value) : Computes (v.mod w) := by
  unfold mod
  split
  · exact computes_error rfl
  · exact computes_error rfl
  · refine (computes_pair _ _).bind fun p => ?_
    cases p with
    | ints a b => exact .ite (computes_error rfl) (computes_ok _)
    | reals a b => exact (computes_realMod a b).bind fun _ => computes_ok _
    | complexes a b => exact computes_error rfl

theorem computes_pow (v w : Value) : Computes (v.pow w) := by
  refine (computes_pair v w).bind fun p => ?_
  cases p with
  | ints a b =>
    refine .ite (computes_ok _) ?_
    exact (computes_floatOfInt a).bind fun x => (computes_floatOfInt b).bind fun y =>
      computes_realPow x y
  | reals a b => exact computes_realPow a b
  | complexes a b => exact (computes_complexPow a b).bind fun _ => computes_ok _

theorem computes_isPositive (v : Value) : Computes v.isPositive := by
  cases v with
  | int n => exact computes_ok _
  | real x => exact computes_ok _
  | complex re im => exact computes_error rfl
  | empty => exact computes_error rfl

theorem computes_allPositive (vs : List Value) : Computes (allPositive vs) := by
  induction vs with
  | nil => exact computes_ok _
  | cons v vs ih =>
    refine (computes_isPositive v).bind fun yes => ?_
    cases yes with
    | true => exact ih
    | false => exact computes_ok _

theorem computes_saveable (v : Value) : Computes v.saveable := by
  cases v with
  | int n =>
    intro f hf
    obtain ⟨rfl, -⟩ := saveable_int_error hf
    rfl
  | real x => exact computes_ok _
  | complex re im => exact computes_error rfl
  | empty => exact computes_ok _

end Value

theorem Command.computes_apply (c : Command) (v w : Value) : Computes (c.apply v w) := by
  cases c with
  | add => exact Value.computes_add v w
  | subtract => exact Value.computes_sub v w
  | multiply => exact Value.computes_mul v w
  | divide => exact Value.computes_div v w
  | modulo => exact Value.computes_mod v w
  | power => exact Value.computes_pow v w
  | root => exact (Value.computes_div _ _).bind fun x => Value.computes_pow v x
  | overwrite | insert | append | pop | popAppend | other => exact computes_ok _

theorem Store.computes_saveable (s : Store) : Computes s.saveable := by
  intro f h
  obtain ⟨l, -, v, -, hv⟩ := Store.saveable_eq_error h
  exact Value.computes_saveable v f hv

end StrandScript
