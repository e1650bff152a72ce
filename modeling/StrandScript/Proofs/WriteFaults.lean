import StrandScript.Proofs.Arithmetic
import StrandScript.Proofs.Execution
import StrandScript.Proofs.Growth
import StrandScript.Proofs.MissingFields

/-!
# How writing fails

The step of an assignment first extends its list, then reads its value, and then works on the list
(`Assignment.write_eq`). A complaint can only come from reading the value, and no place is out of
range but the cell of the assignment itself: its list may be too short (`Assignment.apply_error`).
-/

namespace StrandScript

theorem Source.read_eq_error {src : Source} {s : Store} {f : Fault} (h : src.read s = .error f) :
    (∃ c, f = .complaint c) ∨ ∃ n, f = .missingList n := by
  unfold read at h
  split at h
  · cases h
  · split at h
    · exact Or.inl ⟨_, (Except.error.inj h).symm⟩
    · split at h
      · exact Or.inr ⟨_, (Except.error.inj h).symm⟩
      · split at h
        · exact Or.inl ⟨_, (Except.error.inj h).symm⟩
        · cases h

theorem Source.lt_size {s : Store} {n : Int} {c : Nat} {w : Value}
    (h : (Source.cell n c).read s = .ok w) :
    c < s.size n := by
  obtain ⟨-, xs, hxs, hw⟩ := read_cell_eq_ok.mp h
  rw [Store.size_of_get? hxs]
  exact (List.getElem?_eq_some_iff.mp hw).choose

theorem Store.mem_numbers_of_get? {s : Store} {n : Int} {xs : List Value} (h : s.get? n = some xs) :
    n ∈ s.numbers := by
  obtain ⟨l, hl, -⟩ := Option.map_eq_some_iff.mp h
  have hn := List.find?_some hl
  exact List.mem_map.mpr ⟨l, List.mem_of_find?_eq_some hl, beq_iff_eq.mp hn⟩

namespace Machine

variable {s : Store} {n : Int}

theorem exists_take {i : Nat} (h : i < s.size n) : ∃ v ys, take n i s = .ok v (s.put n ys) := by
  cases hget : s.get? n with
  | none =>
    rw [Store.size, hget] at h
    cases h
  | some xs =>
    rw [Store.size_of_get? hget] at h
    refine ⟨xs[i], xs.eraseIdx i, ?_⟩
    unfold take Index.remove?
    rw [bind_ok (list_of_get? hget), Index.resolve?_natCast h, Option.bind_some,
      List.getElem?_eq_getElem h]
    rfl

end Machine

namespace Step

variable {st : Step} {before : Answer} {s t : Store}

theorem write_of_perform {a : Answer} (h : st.role = some .data)
    (hp : perform before st s = .ok a t) :
    st.write s = .ok () t := by
  rw [perform_data h] at hp
  cases hw : st.write s with
  | ok _ u =>
    rw [hw] at hp
    cases hp
    rfl
  | error f u =>
    rw [hw] at hp
    cases hp

theorem perform_eq_error {f : Fault} (h : st.role = some .data) :
    perform before st s = .error f t ↔ st.write s = .error f t := by
  rw [perform_data h]
  cases st.write s with
  | ok _ u => simp
  | error e u => simp

end Step

/-- Changing cells of a list one after the other fails only where a value cannot be computed. -/
theorem Step.overCells_error {f : Nat → Value → Except Fault Value} (hf : ∀ i v, Computes (f i v))
    {n : Int} {count i : Nat} {s t : Store} {xs : List Value} (hget : s.get? n = some xs)
    (hlen : i + count ≤ xs.length) {e : Fault} (h : overCells f n count i s = .error e t) :
    e.isArithmetic = true := by
  induction count generalizing i s xs with
  | zero => cases h
  | succ count ih =>
    obtain ⟨v, hv⟩ : ∃ v, xs[i]? = some v := ⟨_, List.getElem?_eq_getElem (by omega)⟩
    unfold overCells at h
    rw [Machine.bind_ok (Machine.list_of_get? hget),
      Machine.bind_ok (Machine.cell_of_getElem? hv s)] at h
    obtain h | ⟨u, s', hu, h⟩ := Machine.bind_eq_error.mp h
    · exact hf i v e (Machine.lift_eq_error.mp h).1
    · obtain ⟨-, rfl⟩ := Machine.lift_eq_ok.mp hu
      rw [Machine.bind_ok (Machine.write_of_lt hget (by omega) u)] at h
      exact ih (Store.get?_put_self _ hget) (by rw [List.length_set]; omega) h

namespace Assignment

variable {a : Assignment} {s t u : Store} {xs : List Value} {w : Value} {e : Fault}

theorem onCell_error {f : Value → Except Fault Value} (hf : ∀ v, Computes (f v))
    (hget : s.get? a.list = some xs) (h : a.step.onCell f s = .error e t) :
    e.isArithmetic = true ∨ e = .outOfRange ∧ xs.length ≤ a.cell := by
  have hend := ending_onCell hget f
  rw [Machine.ending, h] at hend
  obtain hcell | ⟨v, -, hend⟩ := Outcome.bind_eq_error.mp hend.symm
  · right
    unfold cellAt at hcell
    cases hx : xs[a.cell]? with
    | none =>
      rw [hx] at hcell
      exact ⟨(Except.error.inj hcell).symm, List.getElem?_eq_none_iff.mp hx⟩
    | some v =>
      rw [hx] at hcell
      cases hcell
  · obtain hend | ⟨v', -, hend⟩ := Outcome.bind_eq_error.mp hend
    · exact Or.inl (hf v e hend)
    · cases hend

theorem overList_error {f : Nat → Value → Except Fault Value} (hf : ∀ i v, Computes (f i v))
    (hget : s.get? a.list = some xs) (h : a.step.overList f s = .error e t) :
    e.isArithmetic = true := by
  change (Machine.list a.list >>= fun ys => Step.overCells f a.list ys.length 0) s = .error e t at h
  rw [Machine.bind_ok (Machine.list_of_get? hget)] at h
  exact Step.overCells_error hf hget (by omega) h

/-! ## Commands for lists -/

theorem apply_insert (hpairs : Act.pairs a.act = false) (hc : a.command = some .insert)
    (hget : s.get? a.list = some xs) (w : Value) :
    a.step.apply a.act (.one w) s = .ok () (s.put a.list (Index.insert xs a.cell w)) := by
  unfold command at hc
  unfold Step.apply
  rw [hpairs, hc]
  exact Machine.bind_ok (Machine.list_of_get? hget)

theorem apply_append (hpairs : Act.pairs a.act = false) (hc : a.command = some .append)
    (hget : s.get? a.list = some xs) (w : Value) :
    a.step.apply a.act (.one w) s = .ok () (s.put a.list (xs ++ [w])) := by
  unfold command at hc
  unfold Step.apply
  rw [hpairs, hc]
  exact Machine.append_of_get? hget w

theorem apply_pop (hpairs : Act.pairs a.act = false) (hc : a.command = some .pop) (w : Value) :
    a.step.apply a.act (.one w) = a.step.onCell (·.add w) >>= fun _ =>
      match a.source with
      | .value _ => pure ()
      | .cell n c => discard (Machine.take n c) := by
  unfold command at hc
  unfold Step.apply
  rw [hpairs, hc]
  cases hsource : a.source with
  | value n => simp only [step, hsource]; rfl
  | cell n c => simp only [step, hsource]; rfl

theorem apply_popAppend_of_cell {n : Int} {c : Nat} (hpairs : Act.pairs a.act = false)
    (hc : a.command = some .popAppend) (hsource : a.source = .cell n c)
    (hget : s.get? a.list = some xs) (hlt : c < s.size n) (w : Value) :
    ∃ t, a.step.apply a.act (.one w) s = .ok () t := by
  obtain ⟨v, ys, htake⟩ := Machine.exists_take hlt
  obtain ⟨zs, hzs⟩ := Store.exists_get?_put hget n ys
  have href : a.step.ref = some ⟨n, c⟩ := by simp only [step, hsource]
  unfold command at hc
  unfold Step.apply
  rw [hpairs, hc, href]
  show ∃ t, ((discard (Machine.list a.list) : Machine PUnit) >>= fun _ =>
    Machine.take n c >>= Machine.append a.list) s = .ok () t
  rw [Machine.bind_ok (Machine.discard_ok (Machine.list_of_get? hget)), Machine.bind_ok htake,
    Machine.append_of_get? hzs]
  exact ⟨_, rfl⟩

theorem apply_popAppend_of_value {n : Option Int} (hpairs : Act.pairs a.act = false)
    (hc : a.command = some .popAppend) (hsource : a.source = .value n)
    (hget : s.get? a.list = some xs) (w : Value) :
    a.step.apply a.act (.one w) s = .error (.missingField "ref_cell") s := by
  have href : a.step.ref = none := by simp only [step, hsource]
  exact Step.apply_popAppend hpairs hc rfl (Store.mem_numbers_of_get? hget) href

/-- **How working on the list fails**, once the value has been read: a value cannot be computed,
there is no cell to be popped, or the list is too short for the cell that is written to. -/
theorem apply_error (hd : a.Drawn) (hpairs : Act.pairs a.act = false)
    (hget : s.get? a.list = some xs) (hread : a.source.read s = .ok w)
    (h : a.step.apply a.act (.one w) s = .error e t) :
    e.isArithmetic = true ∨ e = .missingField "ref_cell" ∨
      e = .outOfRange ∧ xs.length ≤ a.cell ∧ a.command.any Command.appends = false := by
  cases hcells : a.effect.cellwise with
  | true =>
    have hcellwise : a.Cellwise := ⟨hd, hpairs, hcells⟩
    have hcomputes : ∀ v, Computes (a.effect.apply v w) := fun v => Command.computes_apply _ v w
    rw [hcellwise.apply_eq] at h
    split at h
    · exact Or.inl (overList_error (fun _ => hcomputes) hget h)
    · exact (onCell_error hcomputes hget h).imp_right fun hout =>
        Or.inr ⟨hout.1, hout.2, hcellwise.appends⟩
  | false =>
    obtain ⟨c, hc⟩ : ∃ c, a.command = some c := by
      unfold effect at hcells
      cases hc : a.command with
      | none =>
        rw [hc] at hcells
        cases hcells
      | some c => exact ⟨c, rfl⟩
    have hcells' : c.cellwise = false := by
      rw [effect, hc] at hcells
      exact hcells
    cases c with
    | insert =>
      rw [apply_insert hpairs hc hget] at h
      cases h
    | append =>
      rw [apply_append hpairs hc hget] at h
      cases h
    | pop =>
      rw [apply_pop hpairs hc] at h
      obtain h | ⟨_, u, hu, h⟩ := Machine.bind_eq_error.mp h
      · refine (onCell_error (fun v => Value.computes_add v w) hget h).imp_right fun hout =>
          Or.inr ?_
        exact ⟨hout.1, hout.2, by rw [hc]; rfl⟩
      · have hgrows := (a.step.onCell_grows (·.add w)).of_ok hu
        cases hsource : a.source with
        | value n =>
          rw [hsource] at h
          cases h
        | cell n c =>
          rw [hsource] at hread h
          obtain ⟨v, ys, htake⟩ := Machine.exists_take ((Source.lt_size hread).trans_le (hgrows n))
          cases (Machine.discard_ok htake).symm.trans h
    | popAppend =>
      cases hsource : a.source with
      | value n =>
        rw [apply_popAppend_of_value hpairs hc hsource hget] at h
        cases h
        exact Or.inr (Or.inl rfl)
      | cell n c =>
        rw [hsource] at hread
        obtain ⟨u, hu⟩ := apply_popAppend_of_cell hpairs hc hsource hget (Source.lt_size hread) w
        cases hu.symm.trans h
    | add | subtract | overwrite | multiply | divide | modulo | power | root | other =>
      cases hcells'

/-! ## Writing -/

/-- What extending the list of an assignment comes to, where it has cells up to the one that is
written to: that cell is there afterwards, unless the command puts its value at the end. -/
theorem exists_extended (hget : s.get? a.list = some xs) (hcell : a.cell ≤ xs.length) :
    ∃ u ys, a.step.extend s = .ok () u ∧ u.get? a.list = some ys ∧ a.cell ≤ ys.length ∧
      (a.command.any Command.appends = false → a.cell < ys.length) := by
  rw [extend_eq hget]
  by_cases hlen : xs.length = a.cell ∧ a.command.any Command.appends = false
  · rw [if_pos hlen]
    refine ⟨_, xs ++ [.int 0], rfl, Store.get?_put_self _ hget, ?_, fun _ => ?_⟩ <;>
      rw [List.length_append, List.length_singleton] <;> omega
  · rw [if_neg hlen]
    refine ⟨s, xs, rfl, hget, hcell, fun happends => ?_⟩
    have : xs.length ≠ a.cell := fun h => hlen ⟨h, happends⟩
    omega

theorem write_pairs (hpairs : Act.pairs a.act = true) (hextend : a.step.extend s = .ok () u) :
    a.step.write s = .error (.missingField "ref_list") u := by
  show (a.step.extend >>= fun _ => a.step.operand a.act >>= a.step.apply a.act) s = _
  rw [Machine.bind_ok hextend, Machine.bind_error (Step.operand_pairs hpairs rfl)]

/-- **Writing**: the value is read after the list has been extended. -/
theorem write_eq (hpairs : Act.pairs a.act = false) (hextend : a.step.extend s = .ok () u) :
    a.step.write s = match a.source.read u with
      | .error f => .error f u
      | .ok w => a.step.apply a.act (.one w) u := by
  show (a.step.extend >>= fun _ => a.step.operand a.act >>= a.step.apply a.act) s = _
  rw [Machine.bind_ok hextend]
  have hoperand := operand_eq hpairs u
  cases hread : a.source.read u with
  | error f =>
    rw [hread] at hoperand
    exact Machine.bind_error hoperand
  | ok w =>
    rw [hread] at hoperand
    exact Machine.bind_ok hoperand

/-- An assignment whose list has cells up to the one that is written to finds all places. -/
theorem write_ne_outOfRange (hd : a.Drawn) (hget : s.get? a.list = some xs)
    (hcell : a.cell ≤ xs.length) :
    a.step.write s ≠ .error .outOfRange t := by
  obtain ⟨u, ys, hextend, hys, -, hlt⟩ := exists_extended hget hcell
  intro h
  cases hpairs : Act.pairs a.act with
  | true => cases (write_pairs hpairs hextend).symm.trans h
  | false =>
    rw [write_eq hpairs hextend] at h
    cases hread : a.source.read u with
    | error f =>
      rw [hread] at h
      cases h
      obtain ⟨c, hc⟩ | ⟨n, hn⟩ := Source.read_eq_error hread
      · cases hc
      · cases hn
    | ok w =>
      rw [hread] at h
      obtain harith | hmissing | ⟨-, hle, happends⟩ := apply_error hd hpairs hys hread h
      · cases harith
      · cases hmissing
      · have := hlt happends
        omega

/-- After an assignment that pops nothing the cell is there, if the list had cells up to it. -/
theorem lt_size_of_write (hget : s.get? a.list = some xs) (hcell : a.cell ≤ xs.length)
    (hpops : a.step.pops = false) (h : a.step.write s = .ok () t) : a.cell < t.size a.list := by
  obtain ⟨u, ys, hextend, hys, hle, hlt⟩ := exists_extended hget hcell
  have hpairs : Act.pairs a.act = false := by
    cases hpairs : Act.pairs a.act with
    | true => cases (write_pairs hpairs hextend).symm.trans h
    | false => rfl
  rw [write_eq hpairs hextend] at h
  cases hread : a.source.read u with
  | error f =>
    rw [hread] at h
    cases h
  | ok w =>
    rw [hread] at h
    cases happends : a.command.any Command.appends with
    | false =>
      have hgrows : u.GrowsTo t := (Step.apply_grows rfl hpops (.one w)).of_ok h
      have hsize := hgrows a.list
      rw [Store.size_of_get? hys] at hsize
      exact (hlt happends).trans_le hsize
    | true =>
      obtain ⟨c, hc, happends⟩ := (Option.any_eq_true _ _).mp happends
      cases c with
      | append =>
        cases (apply_append hpairs hc hys w).symm.trans h
        rw [Store.size_of_get? (Store.get?_put_self _ hys), List.length_append,
          List.length_singleton]
        omega
      | popAppend =>
        cases hsource : a.source with
        | value n => cases (apply_popAppend_of_value hpairs hc hsource hys w).symm.trans h
        | cell n c =>
          obtain ⟨act, hact, hcommand⟩ := Option.bind_eq_some_iff.mp hc
          have hdrains : a.step.Drains n :=
            ⟨⟨n, c⟩, act, by simp only [step, hsource], rfl, congrArg some hact, Or.inr hcommand⟩
          cases hpops.symm.trans (Step.pops_iff.mpr ⟨n, hdrains⟩)
      | add | subtract | overwrite | multiply | divide | modulo | power | root | insert | pop |
        other =>
        cases happends

end Assignment

end StrandScript
