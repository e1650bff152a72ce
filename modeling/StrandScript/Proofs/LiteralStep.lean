import Mathlib.Data.List.GetD
import StrandScript.Proofs.Machine

/-!
# Steps that add a number

A data token with a whole number and no action adds the number to its cell, after adding the cell
itself when the list ends just before it (`perform_literal`). A row of such tokens, one for each
cell from the left, adds a list of numbers to a list of cells (`addCells`).
-/

namespace StrandScript

/-! ## Cells added up -/

/-- Two lists of cells added up, the shorter one filled with zeros. -/
def addCells : List Int → List Int → List Int
  | [], vs => vs
  | us, [] => us
  | u :: us, v :: vs => (u + v) :: addCells us vs

/-- A number added to one cell, which may be the one just after the end. -/
def addAt (us : List Int) (c : Nat) (n : Int) : List Int :=
  if us.length = c then us ++ [n] else us.set c (us.getD c 0 + n)

@[simp] theorem addCells_nil_left (vs : List Int) : addCells [] vs = vs := by rw [addCells]

@[simp] theorem addCells_nil_right (us : List Int) : addCells us [] = us := by
  cases us <;> simp [addCells]

@[simp] theorem addCells_cons (u v : Int) (us vs : List Int) :
    addCells (u :: us) (v :: vs) = (u + v) :: addCells us vs := by rw [addCells]

theorem length_addCells (us vs : List Int) :
    (addCells us vs).length = max us.length vs.length := by
  induction us, vs using addCells.induct with
  | case1 vs => simp
  | case2 us _ => simp
  | case3 u us v vs ih =>
    simp only [addCells_cons, List.length_cons, ih]
    omega

theorem getD_addCells (us vs : List Int) (i : Nat) :
    (addCells us vs).getD i 0 = us.getD i 0 + vs.getD i 0 := by
  induction us, vs using addCells.induct generalizing i with
  | case1 vs => simp
  | case2 us _ => simp
  | case3 u us v vs ih =>
    cases i with
    | zero => simp
    | succ i => simpa using ih i

/-- The next number of a row goes to the next cell. -/
theorem addAt_addCells (us vs : List Int) (n : Int) :
    addAt (addCells us vs) vs.length n = addCells us (vs ++ [n]) := by
  induction us, vs using addCells.induct with
  | case1 vs => simp [addAt]
  | case2 us _ =>
    cases us with
    | nil => simp [addAt]
    | cons u us => simp [addAt]
  | case3 u us v vs ih =>
    simp only [addAt] at ih
    simp only [addAt, addCells_cons, List.length_cons, List.cons_append, List.set_cons_succ,
      List.getD_cons_succ, Nat.add_right_cancel_iff]
    rw [← ih]
    split <;> rfl

/-! ## The step of a literal -/

theorem Store.put_put (s : Store) (n : Int) (xs ys : List Value) :
    (s.put n xs).put n ys = s.put n ys := by
  simp only [put, List.map_map]
  congr 1
  apply List.map_congr_left
  intro l _
  by_cases h : l.1 = n <;> simp [h]

theorem Store.get?_put_self {s : Store} {n : Int} {xs : List Value} (ys : List Value)
    (h : s.get? n = some xs) : (s.put n ys).get? n = some ys := by
  rw [get?_put, if_pos rfl, h]
  rfl

variable {d : DataToken} {us : List Int} {n : Int} {s : Store}

/-- A token that writes past the end of its list first adds the cell. -/
theorem extend_literal (ha : d.action = none) (hget : s.get? d.list = some (us.map .int)) :
    d.step.extend s =
      .ok () (if us.length = d.cell then s.put d.list ((us ++ [0]).map .int) else s) := by
  have hlist : d.step.list = some d.list := rfl
  have hcell : d.step.cell = some (d.cell : Int) := rfl
  have haction : d.step.action = some none := by
    change some (d.action.bind Strand.act) = some none
    rw [ha]
    rfl
  unfold Step.extend
  rw [hcell, hlist, haction]
  simp only
  rw [Machine.bind_ok (Machine.field_some _ _ _), Machine.bind_ok (Machine.list_of_get? hget)]
  simp only [List.length_map, Int.ofNat_inj]
  by_cases h : us.length = d.cell
  · rw [if_pos h, if_pos h, Machine.bind_ok (Machine.field_some _ _ _)]
    simp only [Option.bind_none, Option.any_none, Bool.not_false, if_true]
    rw [Machine.append_of_get? hget, List.map_append]
    rfl
  · rw [if_neg h, if_neg h]
    rfl

/-- A token with a number adds it to its cell. -/
theorem onCell_literal {i : Nat} (hi : i < us.length) (hc : d.cell = i)
    (hget : s.get? d.list = some (us.map .int)) :
    d.step.onCell (·.add (.int n)) s =
      .ok () (s.put d.list ((us.set i (us.getD i 0 + n)).map .int)) := by
  have hlist : d.step.list = some d.list := rfl
  have hcell : d.step.cell = some (i : Int) := by rw [← hc]; rfl
  have hv : (us.map Value.int)[i]? = some (.int (us.getD i 0)) := by
    rw [List.getElem?_map, List.getElem?_eq_getElem hi, List.getD_eq_getElem _ _ hi]
    rfl
  have hadd : Machine.lift ((Value.int (us.getD i 0)).add (.int n)) s =
      .ok (.int (us.getD i 0 + n)) s := rfl
  unfold Step.onCell
  rw [hcell, hlist, Machine.bind_ok (Machine.field_some _ _ _),
    Machine.bind_ok (Machine.list_of_get? hget), Machine.bind_ok (Machine.field_some _ _ _),
    Machine.bind_ok (Machine.cell_of_getElem? hv s), Machine.bind_ok hadd,
    Machine.write_of_lt hget (by simpa using hi), ← List.map_set]

/-- **A literal is added to its cell.** -/
theorem perform_literal (a : Answer) (hm : d.strand.meaning = .value (some n))
    (ha : d.action = none) (hget : s.get? d.list = some (us.map .int))
    (hcell : d.cell ≤ us.length) :
    Step.perform a d.step s = .ok a (s.put d.list ((addAt us d.cell n).map .int)) := by
  have hrole : d.step.role = some .data := rfl
  have haction : d.step.action = some none := by
    change some (d.action.bind Strand.act) = some none
    rw [ha]
    rfl
  have hform : d.step.form = some .value ∧ d.step.value = some (.int n) := by
    unfold DataToken.step
    rw [hm]
    exact ⟨rfl, rfl⟩
  have hwrite : d.step.write s = .ok () (s.put d.list ((addAt us d.cell n).map .int)) := by
    unfold Step.write
    rw [Machine.bind_ok (extend_literal ha hget), haction,
      Machine.bind_ok (Machine.field_some _ _ _)]
    have hoperand : ∀ t, d.step.operand none t = .ok (.one (.int n)) t := by
      intro t
      unfold Step.operand Step.partner
      rw [hform.1, hform.2]
      rfl
    rw [Machine.bind_ok (hoperand _)]
    change d.step.onCell (·.add (.int n)) _ = _
    unfold addAt
    split
    · rename_i h
      have hlen : d.cell < (us ++ [0]).length := by simp [h]
      have hset : (us ++ [0]).set d.cell ((us ++ [0]).getD d.cell 0 + n) = us ++ [n] := by
        rw [← h, List.set_append_right _ _ (Nat.le_refl _),
          List.getD_append_right _ _ _ _ (Nat.le_refl _)]
        simp
      rw [onCell_literal hlen rfl (Store.get?_put_self _ hget), Store.put_put, hset]
    · rename_i h
      rw [onCell_literal (by omega) rfl hget]
  unfold Step.perform
  rw [hrole, Machine.bind_ok (Machine.field_some _ _ _)]
  simp only
  rw [Machine.bind_ok hwrite]
  rfl

end StrandScript
