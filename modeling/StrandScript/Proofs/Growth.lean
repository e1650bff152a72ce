import StrandScript.Proofs.Answer
import StrandScript.Proofs.Frame

/-!
# Lists that only grow

A step writes to cells of its list or puts new ones there; it is only by popping that a cell is
taken out, and then the step has come to its end. Any other step leaves all lists at least as long
as they were, even if it fails on the way (`Step.perform_grows`).

* `Store.GrowsTo`: no list is shorter in the second store.
* `Machine.Grows`: a computation makes no list shorter, whatever it comes to. `Machine.FailsGrown`:
  it does not where it fails.
* `Step.pops`: whether a step takes a cell out of a list.
-/

namespace StrandScript

theorem Index.length_set? {α : Type} {xs ys : List α} {i : Int} {a : α}
    (h : set? xs i a = some ys) :
    ys.length = xs.length := by
  obtain ⟨j, -, rfl⟩ := Option.map_eq_some_iff.mp h
  exact List.length_set

theorem Index.length_insert {α : Type} (xs : List α) (i : Int) (a : α) :
    (insert xs i a).length = xs.length + 1 := by
  simp only [insert, List.length_append, List.length_take, List.length_cons, List.length_drop]
  omega

/-! ## Stores -/

namespace Store

/-- The number of cells of a list. A list that is not there has none. -/
def size (s : Store) (n : Int) : Nat := (s.get? n).elim 0 List.length

/-- No list has fewer cells in the second store than in the first. -/
def GrowsTo (s t : Store) : Prop := ∀ n, s.size n ≤ t.size n

variable {s t u : Store} {n : Int} {xs ys : List Value}

theorem size_of_get? (h : s.get? n = some xs) : s.size n = xs.length := by
  rw [size, h, Option.elim_some]

theorem GrowsTo.refl (s : Store) : s.GrowsTo s := fun _ => le_refl _

theorem GrowsTo.trans (h : s.GrowsTo t) (h' : t.GrowsTo u) : s.GrowsTo u :=
  fun n => (h n).trans (h' n)

theorem GrowsTo.put (h : s.get? n = some xs) (hlen : xs.length ≤ ys.length) :
    s.GrowsTo (s.put n ys) := by
  intro m
  unfold size
  rw [get?_put]
  split
  · rename_i hm
    subst hm
    rw [h]
    exact hlen
  · exact le_refl _

/-- Writing to a list makes none go away. -/
theorem exists_get?_put {m : Int} (h : s.get? m = some xs) (n : Int) (ys : List Value) :
    ∃ zs, (s.put n ys).get? m = some zs := by
  rw [get?_put]
  split
  · rename_i hm
    rw [← hm, h]
    exact ⟨ys, rfl⟩
  · exact ⟨xs, h⟩

end Store

/-! ## Computations -/

namespace Machine

variable {α β : Type} {s t : Store} {n : Int}

/-- The computation makes no list shorter. -/
def Grows (x : Machine α) : Prop := ∀ s : Store, s.GrowsTo (left x s)

/-- The computation makes no list shorter where it fails. -/
def FailsGrown (x : Machine α) : Prop := ∀ s f t, x s = .error f t → s.GrowsTo t

theorem Reads.grows {x : Machine α} (h : Reads x) : Grows x := by
  intro s
  rw [h s]
  exact .refl s

theorem Grows.bind {x : Machine α} {k : α → Machine β} (hx : Grows x) (hk : ∀ a, Grows (k a)) :
    Grows (x >>= k) := by
  intro s
  have hs := hx s
  rw [left_bind]
  unfold left at hs
  cases hxs : x s with
  | ok a t =>
    rw [hxs] at hs
    exact hs.trans (hk a t)
  | error e t =>
    rw [hxs] at hs
    exact hs

/-- What follows on a list need only be looked at where that is the list of the store. -/
theorem grows_list_bind {k : List Value → Machine α}
    (hk : ∀ (s : Store) xs, s.get? n = some xs → s.GrowsTo (left (k xs) s)) :
    Grows (list n >>= k) := by
  intro s
  rw [left_bind]
  cases h : s.get? n with
  | none =>
    rw [list_of_get?_none h]
    exact .refl s
  | some xs =>
    rw [list_of_get? h]
    exact hk s xs h

theorem grows_write (n i : Int) (v : Value) : Grows (write n i v) := by
  refine grows_list_bind fun s xs hxs => ?_
  cases h : Index.set? xs i v with
  | none => exact .refl s
  | some ys => exact .put hxs (Index.length_set? h).ge

theorem grows_append (n : Int) (v : Value) : Grows (append n v) := by
  refine grows_list_bind fun s xs hxs => .put hxs ?_
  rw [List.length_append]
  exact Nat.le_add_right _ _

theorem Grows.of_ok {x : Machine α} (h : Grows x) {a : α} (hx : x s = .ok a t) : s.GrowsTo t := by
  have hs := h s
  unfold left at hs
  rwa [hx] at hs

theorem Grows.failsGrown {x : Machine α} (h : Grows x) : FailsGrown x := by
  intro s f t hx
  have hs := h s
  unfold left at hs
  rwa [hx] at hs

theorem FailsGrown.bind {x : Machine α} {k : α → Machine β} (hx : Grows x)
    (hk : ∀ a, FailsGrown (k a)) :
    FailsGrown (x >>= k) := by
  intro s f t h
  obtain h | ⟨a, u, hxs, h⟩ := bind_eq_error.mp h
  · exact hx.failsGrown s f t h
  · exact (hx.of_ok hxs).trans (hk a u f t h)

theorem Grows.discard {x : Machine α} (h : Grows x) : Grows (discard x) := by
  intro s
  have hs := h s
  unfold left at hs ⊢
  cases hx : x s with
  | ok a t =>
    rw [hx] at hs
    rw [discard_ok hx]
    exact hs
  | error f t =>
    rw [hx] at hs
    rw [discard_error hx]
    exact hs

theorem FailsGrown.discard {x : Machine α} (h : FailsGrown x) : FailsGrown (discard x) := by
  intro s f t hf
  cases hx : x s with
  | ok a u => cases (discard_ok hx).symm.trans hf
  | error e u =>
    cases (discard_error hx).symm.trans hf
    exact h s f t hx

/-- Where no cell can be taken out, nothing changes. -/
theorem take_failsGrown (n i : Int) : FailsGrown (take n i) := by
  intro s f t h
  unfold take at h
  cases hxs : s.get? n with
  | none =>
    rw [bind_error (list_of_get?_none hxs)] at h
    cases h
    exact .refl s
  | some xs =>
    rw [bind_ok (list_of_get? hxs)] at h
    cases hr : Index.remove? xs i <;> rw [hr] at h <;> cases h
    exact .refl s

/-- Taking a cell out writes to its list. -/
theorem take_eq_ok {i : Int} {v : Value} (h : take n i s = .ok v t) : ∃ ys, t = s.put n ys := by
  unfold take at h
  cases hxs : s.get? n with
  | none =>
    rw [bind_error (list_of_get?_none hxs)] at h
    cases h
  | some xs =>
    rw [bind_ok (list_of_get? hxs)] at h
    cases hr : Index.remove? xs i <;> rw [hr] at h <;> cases h
    exact ⟨_, rfl⟩

end Machine

/-! ## Steps -/

namespace Step

open Machine

variable {st : Step}

/-- Whether a step takes a cell out of a list, if it comes to its end: it refers to a cell, and
pops. -/
def pops (st : Step) : Bool :=
  st.ref.isSome && (st.action.bind id).any fun a =>
    a.command == some .pop && st.form == some .ref || a.command == some .popAppend

theorem pops_iff : st.pops = true ↔ ∃ n, st.Drains n := by
  constructor
  · intro h
    simp only [pops, Bool.and_eq_true, Option.isSome_iff_exists, Option.any_eq_true,
      Option.bind_eq_some_iff, id_eq, exists_eq_right, Bool.or_eq_true, beq_iff_eq] at h
    obtain ⟨⟨r, hr⟩, a, ha, hcommand⟩ := h
    exact ⟨r.list, r, a, hr, rfl, ha, hcommand⟩
  · rintro ⟨n, r, a, hr, -, ha, ⟨hcommand, hform⟩ | hcommand⟩
    · simp [pops, hr, ha, hcommand, hform]
    · simp [pops, hr, ha, hcommand]

theorem extend_grows (st : Step) : Grows st.extend := by
  unfold extend
  cases st.cell with
  | none => exact (reads_pure ()).grows
  | some c =>
    refine (reads_field _ _).grows.bind fun n => (reads_list n).grows.bind fun xs => ?_
    split
    · refine (reads_field _ _).grows.bind fun a => ?_
      split
      · exact grows_append n _
      · exact (reads_pure ()).grows
    · exact (reads_pure ()).grows

theorem overCells_grows (f : Nat → Value → Except Fault Value) (n : Int) (count i : Nat) :
    Grows (overCells f n count i) := by
  induction count generalizing i with
  | zero => exact (reads_pure ()).grows
  | succ count ih =>
    refine (reads_list n).grows.bind fun xs => (reads_cell xs i).grows.bind fun v => ?_
    exact (reads_lift _).grows.bind fun w => (grows_write n i w).bind fun _ => ih (i + 1)

theorem overList_grows (st : Step) (f : Nat → Value → Except Fault Value) : Grows (st.overList f) :=
  (reads_field _ _).grows.bind fun n => (reads_list n).grows.bind fun xs =>
    overCells_grows f n xs.length 0

theorem onCell_grows (st : Step) (f : Value → Except Fault Value) : Grows (st.onCell f) := by
  refine (reads_field _ _).grows.bind fun n => (reads_list n).grows.bind fun xs => ?_
  refine (reads_field _ _).grows.bind fun i => (reads_cell xs i).grows.bind fun v => ?_
  exact (reads_lift _).grows.bind fun w => grows_write n i w

/-- Popping a cell and appending it to a list fails before the cell is taken out, if at all. -/
theorem popAppend_failsGrown (n : Int) (o : Option CellRef) : FailsGrown (do
    discard <| Machine.list n
    let r ← field "ref_cell" o
    let v ← take r.list r.cell
    append n v) := by
  intro s f t h
  cases hxs : s.get? n with
  | none =>
    rw [bind_error (discard_error (list_of_get?_none hxs))] at h
    cases h
    exact .refl _
  | some xs =>
    rw [bind_ok (discard_ok (list_of_get? hxs))] at h
    cases o with
    | none =>
      cases h
      exact .refl _
    | some r =>
      rw [bind_ok (field_some _ r s)] at h
      obtain h | ⟨v, u, htake, h⟩ := bind_eq_error.mp h
      · exact take_failsGrown r.list r.cell s f t h
      · -- The list was there before, so it still is.
        obtain ⟨ys, rfl⟩ := take_eq_ok htake
        obtain ⟨zs, hzs⟩ := Store.exists_get?_put hxs r.list ys
        rw [append_of_get? hzs] at h
        cases h

theorem apply_grows {a : Option Act} (ha : st.action = some a) (hpops : st.pops = false)
    (o : Operand) :
    Grows (st.apply a o) := by
  have hnot : ∀ {r act}, st.ref = some r → a = some act →
      ¬ (act.command = some .pop ∧ st.form = some .ref ∨ act.command = some .popAppend) := by
    rintro r act hr rfl hcommand
    cases hpops.symm.trans (pops_iff.mpr ⟨r.list, r, act, hr, rfl, ha, hcommand⟩)
  unfold apply
  split
  · exact overList_grows st _
  · refine (reads_lift _).grows.bind fun w => ?_
    split
    · exact onCell_grows st _
    · refine (reads_field _ _).grows.bind fun n => grows_list_bind fun s xs hxs => ?_
      cases st.cell with
      | none => exact .refl s
      | some i => exact .put hxs (by rw [Index.length_insert]; exact Nat.le_succ _)
    · exact (reads_field _ _).grows.bind fun n => grows_append n w
    · rename_i hcommand
      obtain ⟨act, hact, hcommand⟩ := Option.bind_eq_some_iff.mp hcommand
      refine (onCell_grows st _).bind fun _ => ?_
      split
      · rename_i hform
        cases hr : st.ref with
        | none => exact (reads_throw _).grows
        | some r => exact absurd (Or.inl ⟨hcommand, hform⟩) (hnot hr hact)
      · exact (reads_pure ()).grows
    · rename_i hcommand
      obtain ⟨act, hact, hcommand⟩ := Option.bind_eq_some_iff.mp hcommand
      cases hr : st.ref with
      | none =>
        refine (reads_field _ _).grows.bind fun n => Grows.bind ?_ fun _ => (reads_throw _).grows
        exact (reads_list n).grows.discard
      | some r => exact absurd (Or.inr hcommand) (hnot hr hact)
    · refine (reads_field _ _).grows.bind fun form => ?_
      split
      · exact overList_grows st _
      · exact onCell_grows st _

/-- A step that pops fails before the cell is taken out, if at all. -/
theorem apply_failsGrown {a : Option Act} (ha : st.action = some a) (o : Operand) :
    FailsGrown (st.apply a o) := by
  cases hpops : st.pops with
  | false => exact (apply_grows ha hpops o).failsGrown
  | true =>
    obtain ⟨-, r, act, hr, -, hact, hcommand⟩ := pops_iff.mp hpops
    obtain rfl : a = some act := Option.some.inj (ha.symm.trans hact)
    unfold apply
    split
    · exact (overList_grows st _).failsGrown
    · refine FailsGrown.bind (reads_lift _).grows fun w => ?_
      rw [Option.bind_some]
      obtain ⟨hcommand, hform⟩ | hcommand := hcommand
      · rw [hcommand, if_pos hform, hr]
        refine FailsGrown.bind (onCell_grows st _) fun _ => ?_
        exact (take_failsGrown r.list r.cell).discard
      · rw [hcommand]
        exact FailsGrown.bind (reads_field _ _).grows fun n => popAppend_failsGrown n st.ref

theorem write_grows (hpops : st.pops = false) : Grows st.write := by
  refine st.extend_grows.bind fun _ => ?_
  cases ha : st.action with
  | none => exact (reads_throw _).grows
  | some a => exact (st.operand_reads a).grows.bind fun o => apply_grows ha hpops o

theorem write_failsGrown (st : Step) : FailsGrown st.write := by
  refine FailsGrown.bind st.extend_grows fun _ => ?_
  cases ha : st.action with
  | none => exact (reads_throw _).grows.failsGrown
  | some a =>
    show FailsGrown (st.operand a >>= st.apply a)
    exact FailsGrown.bind (st.operand_reads a).grows fun o => apply_failsGrown ha o

/-- **A step that pops nothing makes no list shorter.** -/
theorem perform_grows (before : Answer) (hpops : st.pops = false) : Grows (perform before st) := by
  refine (reads_field _ _).grows.bind fun role => ?_
  cases role with
  | question => exact st.ask_reads.grows
  | data | other => exact (write_grows hpops).bind fun _ => (reads_pure before).grows

/-- **A step that fails makes no list shorter.** -/
theorem perform_failsGrown (before : Answer) (st : Step) : FailsGrown (perform before st) := by
  refine FailsGrown.bind (reads_field _ _).grows fun role => ?_
  have hwrite : FailsGrown (st.write >>= fun _ => pure before) := fun s f t h => by
    obtain h | ⟨_, u, -, h⟩ := bind_eq_error.mp h
    · exact st.write_failsGrown s f t h
    · cases h
  cases role with
  | question => exact st.ask_reads.grows.failsGrown
  | data | other => exact hwrite

end Step

end StrandScript
