import StrandScript.Proofs.Answer
import StrandScript.Proofs.Assignment
import StrandScript.Proofs.LiteralStep

/-!
# What assignments do

A step performed alone leaves a store or ends in a fault (`Step.result`). The step of an assignment
reads its value (`Source.read`) and then works on its list. A command that goes cell by cell changes
one cell (`Cellwise.result_cell`) or, if its action is for the whole list, every cell
(`Cellwise.cells_of_result`); a command that puts its value at the end of the list does not look at
the cell that it was given (`Assignment.result_of_appends`).

* `Assignment.Ready`: a store on which an assignment need not extend its list first.
-/

namespace StrandScript

/-! ## Steps performed alone -/

namespace Machine

variable {α β : Type}

/-- How a computation ends: in the store that it leaves, or in its fault. -/
def ending (x : Machine α) (s : Store) : Except Fault Store :=
  match x s with
  | .ok _ t => .ok t
  | .error f _ => .error f

variable {x : Machine α} {k : α → Machine β} {s t : Store} {f : Fault}

theorem cell_of_getElem?_none {xs : List Value} {i : Nat} (h : xs[i]? = none) (s : Store) :
    cell xs i s = .error .outOfRange s := by
  have hi : ¬ (i : Int) < xs.length := by
    rw [List.getElem?_eq_none_iff] at h
    omega
  unfold cell Index.get? Index.resolve?
  simp only [hi, and_false, if_false, show ¬ (i : Int) < 0 by omega, Option.bind_none]
  rfl

theorem ending_bind_ok {a : α} (h : x s = .ok a t) : ending (x >>= k) s = ending (k a) t := by
  unfold ending
  rw [bind_ok h]

theorem ending_bind_error (h : x s = .error f t) : ending (x >>= k) s = .error f := by
  unfold ending
  rw [bind_error h]

theorem lift_eq_ok {x : Except Fault α} {a : α} : lift x s = .ok a t ↔ x = .ok a ∧ s = t := by
  cases x with
  | error e =>
    constructor
    · intro h
      cases h
    · rintro ⟨⟨⟩, -⟩
  | ok b => rw [lift, pure_eq_ok, Except.ok.injEq]

theorem lift_eq_error {x : Except Fault α} :
    lift x s = .error f t ↔ x = .error f ∧ s = t := by
  cases x with
  | error e =>
    constructor
    · intro h
      cases h
      exact ⟨rfl, rfl⟩
    · rintro ⟨⟨⟩, rfl⟩
      rfl
  | ok a =>
    constructor
    · intro h
      cases h
    · rintro ⟨⟨⟩, -⟩

theorem ending_eq_ok {x : Machine Unit} : ending x s = .ok t ↔ x s = .ok () t := by
  unfold ending
  cases x s with
  | ok a u => simp
  | error e u => simp

end Machine

/-- What performing a step alone comes to. -/
def Step.result (st : Step) : Store → Except Fault Store := Machine.ending (Step.performAll [st])

theorem Step.result_eq (st : Step) : st.result = Machine.ending (Step.perform .proceed st) := by
  unfold result performAll
  rw [List.foldlM_cons]
  simp only [List.foldlM_nil, bind_pure]

/-- A data step writes, and leaves the answer as it was. -/
theorem Step.perform_data {st : Step} (h : st.role = some .data) (before : Answer) (s : Store) :
    Step.perform before st s = match st.write s with
      | .ok _ t => .ok before t
      | .error f t => .error f t := by
  have hperform : Step.perform before st = st.write >>= fun _ => pure before := by
    unfold Step.perform
    rw [h]
    rfl
  rw [hperform]
  cases hw : st.write s with
  | ok a t => exact Machine.bind_ok hw
  | error f t => exact Machine.bind_error hw

theorem Step.result_of_data {st : Step} (h : st.role = some .data) (s : Store) :
    st.result s = Machine.ending st.write s := by
  rw [result_eq, Machine.ending, perform_data h, Machine.ending]
  cases st.write s with
  | ok a t => rfl
  | error f t => rfl

/-! ## Sources -/

/-- The value that a source gives on a store. Cells of lists from number `18` on are never read. -/
def Source.read (src : Source) (s : Store) : Except Fault Value :=
  match src with
  | .value n => .ok (n.elim .empty .int)
  | .cell n c =>
    if 18 ≤ n then .error (.complaint .listOutOfBounds)
    else
      match s.get? n with
      | none => .error (.missingList n)
      | some xs =>
        match xs[c]? with
        | none => .error (.complaint .cellOutOfBounds)
        | some v => .ok v

theorem Source.read_cell_eq_ok {s : Store} {n : Int} {c : Nat} {w : Value} :
    (Source.cell n c).read s = .ok w ↔ n < 18 ∧ ∃ xs, s.get? n = some xs ∧ xs[c]? = some w := by
  unfold read
  by_cases hn : 18 ≤ n
  · simp [hn, Int.not_lt.mpr hn]
  · simp only [if_neg hn, Int.not_le.mp hn, true_and]
    cases s.get? n with
    | none => simp
    | some xs => cases hc : xs[c]? <;> simp [hc]

/-- A cell of a list. -/
def cellAt (xs : List Value) (i : Nat) : Except Fault Value :=
  match xs[i]? with
  | none => .error .outOfRange
  | some v => .ok v

theorem cellAt_eq_ok {xs : List Value} {i : Nat} {v : Value} :
    cellAt xs i = .ok v ↔ xs[i]? = some v := by
  unfold cellAt
  cases xs[i]? with
  | none => simp
  | some u => simp

namespace Assignment

variable {a : Assignment} {s t : Store} {xs : List Value}

theorem referred_eq {n : Int} {c : Nat} (h : a.source = .cell n c) (s : Store) :
    a.step.referred s = Machine.lift (a.source.read s) s := by
  have href : a.step.ref = some ⟨n, c⟩ := by simp only [step, h]
  have hfields : (a.step.fields : Int) = 18 := by simp only [step, h]; rfl
  unfold Step.referred
  rw [href, Machine.bind_ok (Machine.field_some _ _ _), h, Source.read, hfields]
  by_cases hn : 18 ≤ n
  · simp only [if_pos hn]
    rfl
  · simp only [if_neg hn]
    cases hget : s.get? n with
    | none => exact Machine.bind_error (Machine.list_of_get?_none hget)
    | some xs =>
      show (Machine.list n >>= _) s = _
      rw [Machine.bind_ok (Machine.list_of_get? hget)]
      cases hc : xs[c]? with
      | none =>
        have hle : (xs.length : Int) ≤ c := by simpa using hc
        simp only [if_pos hle, hc]
        rfl
      | some v =>
        obtain ⟨hlt, -⟩ := List.getElem?_eq_some_iff.mp hc
        simp only [if_neg (show ¬ (xs.length : Int) ≤ c by omega), hc]
        exact Machine.cell_of_getElem? hc s

/-- The operand of an assignment is what its source gives. -/
theorem operand_eq (hpairs : Act.pairs a.act = false) (s : Store) :
    a.step.operand a.act s = Machine.lift ((a.source.read s).map .one) s := by
  unfold Step.operand Step.partner
  rw [hpairs]
  cases hsource : a.source with
  | value n =>
    have hform : a.step.form = some .value := by simp only [step, hsource]
    have hvalue : a.step.value = some (n.elim .empty .int) := by simp only [step, hsource]
    rw [hform, hvalue]
    rfl
  | cell n c =>
    have hform : a.step.form = some .ref := by simp only [step, hsource]
    rw [hform]
    show (a.step.referred >>= fun w => pure (Operand.one w)) s = _
    have href := referred_eq hsource s
    rw [hsource] at href
    cases hread : Source.read (.cell n c) s with
    | ok w =>
      rw [hread] at href
      exact Machine.bind_ok href
    | error f =>
      rw [hread] at href
      exact Machine.bind_error href

/-! ## Lists that are extended first -/

/-- A store with the list of an assignment, which does not end just before its cell. -/
def Ready (a : Assignment) (s : Store) (xs : List Value) : Prop :=
  s.get? a.list = some xs ∧ xs.length ≠ a.cell

theorem extend_eq (hget : s.get? a.list = some xs) : a.step.extend s =
    .ok () (if xs.length = a.cell ∧ a.command.any Command.appends = false
      then s.put a.list (xs ++ [.int 0]) else s) := by
  have hcell : a.step.cell = some (a.cell : Int) := rfl
  have hlist : a.step.list = some a.list := rfl
  have haction : a.step.action = some a.act := rfl
  unfold Step.extend
  rw [hcell, hlist, haction]
  simp only
  rw [Machine.bind_ok (Machine.field_some _ _ _), Machine.bind_ok (Machine.list_of_get? hget)]
  simp only [Int.ofNat_inj]
  by_cases hlen : xs.length = a.cell
  · rw [if_pos hlen, Machine.bind_ok (Machine.field_some _ _ _)]
    show (if (!a.command.any Command.appends) = true then _ else _ : Machine Unit) s = _
    cases a.command.any Command.appends with
    | true => simp [hlen]; rfl
    | false => simp [hlen, Machine.append_of_get? hget]
  · rw [if_neg hlen, if_neg (fun h => hlen h.1)]
    rfl

theorem extend_of_none (hget : s.get? a.list = none) :
    a.step.extend s = .error (.missingList a.list) s := by
  show ((Machine.list a.list) >>= _) s = _
  exact Machine.bind_error (Machine.list_of_get?_none hget)

theorem extend_of_ready (h : a.Ready s xs) : a.step.extend s = .ok () s := by
  rw [extend_eq h.1, if_neg (fun h' => h.2 h'.1)]

/-- An assignment does what is left after its list is extended. -/
theorem result_eq (s : Store) : a.step.result s =
    Machine.ending (a.step.extend >>= fun _ => a.step.operand a.act >>= a.step.apply a.act) s :=
  Step.result_of_data rfl s

/-- Whatever an assignment makes of a store it also makes of one that is ready. -/
theorem exists_ready (h : a.step.result s = .ok t)
    (happends : a.command.any Command.appends = false) :
    ∃ u xs, a.Ready u xs ∧ a.step.result u = .ok t := by
  cases hget : s.get? a.list with
  | none =>
    rw [result_eq, Machine.ending_bind_error (extend_of_none hget)] at h
    cases h
  | some xs =>
    by_cases hlen : xs.length = a.cell
    · have hready : a.Ready (s.put a.list (xs ++ [.int 0])) (xs ++ [.int 0]) :=
        ⟨Store.get?_put_self _ hget, by simp [hlen]⟩
      refine ⟨_, _, hready, ?_⟩
      rw [result_eq, Machine.ending_bind_ok (extend_eq hget), if_pos ⟨hlen, happends⟩] at h
      rw [result_eq, Machine.ending_bind_ok (extend_of_ready hready)]
      exact h
    · exact ⟨s, xs, ⟨hget, hlen⟩, h⟩

end Assignment

/-! ## Commands that go cell by cell -/

/-- Whether a command goes cell by cell. -/
def Command.cellwise : Command → Bool
  | .insert | .append | .pop | .popAppend => false
  | _ => true

namespace Step

/-- Changing one cell after the other changes them all, and no others. -/
theorem cells_of_overCells {f : Value → Except Fault Value} {n : Int} {count i : Nat} {s t : Store}
    {xs : List Value} (h : overCells (fun _ => f) n count i s = .ok () t)
    (hget : s.get? n = some xs) (hlen : i + count = xs.length) :
    ∃ ys, t.get? n = some ys ∧ (∀ j < i, ys[j]? = xs[j]?) ∧
      ∀ j, i ≤ j → ∀ v, xs[j]? = some v → ∃ u, f v = .ok u ∧ ys[j]? = some u := by
  induction count generalizing i s xs with
  | zero =>
    obtain ⟨-, rfl⟩ := Machine.pure_eq_ok.mp h
    refine ⟨xs, hget, fun _ _ => rfl, fun j hj v hv => ?_⟩
    obtain ⟨hlt, -⟩ := List.getElem?_eq_some_iff.mp hv
    omega
  | succ count ih =>
    obtain ⟨v, hv⟩ : ∃ v, xs[i]? = some v := ⟨_, List.getElem?_eq_getElem (by omega)⟩
    unfold overCells at h
    rw [Machine.bind_ok (Machine.list_of_get? hget),
      Machine.bind_ok (Machine.cell_of_getElem? hv s)] at h
    obtain ⟨u, s', hu, h⟩ := Machine.bind_eq_ok.mp h
    obtain ⟨hfu, rfl⟩ := Machine.lift_eq_ok.mp hu
    rw [Machine.bind_ok (Machine.write_of_lt hget (by omega) u)] at h
    obtain ⟨ys, hys, hbefore, hafter⟩ := ih h (Store.get?_put_self _ hget) (by simp; omega)
    refine ⟨ys, hys, fun j hj => ?_, fun j hj v' hv' => ?_⟩
    · rw [hbefore j (by omega), List.getElem?_set_ne (by omega)]
    · rcases Nat.eq_or_lt_of_le hj with rfl | hj
      · obtain rfl := Option.some.inj (hv.symm.trans hv')
        refine ⟨u, hfu, ?_⟩
        rw [hbefore i (by omega), List.getElem?_set_self (by omega)]
      · exact hafter j hj v' (by rw [List.getElem?_set_ne (by omega), hv'])

end Step

namespace Assignment

variable {a : Assignment} {s t : Store} {xs : List Value}

/-- The command that an assignment carries out: without one the value is added. -/
def effect (a : Assignment) : Command := a.command.getD .add

/-- An assignment whose command goes cell by cell, with one value for all of them. -/
structure Cellwise (a : Assignment) : Prop where
  drawn : a.Drawn
  alone : Act.pairs a.act = false
  cells : a.effect.cellwise = true

theorem Cellwise.appends (h : a.Cellwise) : a.command.any Command.appends = false := by
  have hcommand := h.cells
  unfold effect at hcommand
  cases hc : a.command with
  | none => rfl
  | some c =>
    rw [hc] at hcommand
    cases c with
    | append | popAppend => cases hcommand
    | add | subtract | overwrite | multiply | divide | modulo | power | root | insert | pop |
      other => rfl

/-- What a command that goes cell by cell is applied to: the cell, or all cells of the list. -/
theorem Cellwise.apply_eq (h : a.Cellwise) (w : Value) : a.step.apply a.act (.one w) =
      if a.form = some .list then a.step.overList fun _ v => a.effect.apply v w
      else a.step.onCell fun v => a.effect.apply v w := by
  have hcellwise := h.cells
  unfold Step.apply
  rw [h.alone]
  unfold effect command at hcellwise
  unfold effect form command
  cases hact : a.act with
  | none => rfl
  | some b =>
    have hfields : ∀ b ∈ Act.drawn, b.command.isSome = true ∧ b.form.isSome = true := by decide
    obtain ⟨hcommand, hform⟩ := hfields b (h.drawn b hact)
    obtain ⟨c, hc⟩ := Option.isSome_iff_exists.mp hcommand
    obtain ⟨f, hf⟩ := Option.isSome_iff_exists.mp hform
    simp only [hact, Option.bind_some, hc, Option.getD_some] at hcellwise
    simp only [Option.bind_some, hc, hf, Option.getD_some, Act.resolve]
    cases c with
    | insert | append | pop | popAppend => cases hcellwise
    | add | subtract | overwrite | multiply | divide | modulo | power | root | other =>
      cases f <;> rfl

theorem ending_onCell (hget : s.get? a.list = some xs) (f : Value → Except Fault Value) :
    Machine.ending (a.step.onCell f) s = do
      let v ← cellAt xs a.cell
      let u ← f v
      return s.put a.list (xs.set a.cell u) := by
  show Machine.ending (Machine.list a.list >>= fun xs => Machine.cell xs (a.cell : Int) >>= fun v =>
    Machine.lift (f v) >>= Machine.write a.list a.cell) s = _
  rw [Machine.ending_bind_ok (Machine.list_of_get? hget)]
  unfold cellAt
  cases hv : xs[a.cell]? with
  | none => exact Machine.ending_bind_error (Machine.cell_of_getElem?_none hv s)
  | some v =>
    rw [Machine.ending_bind_ok (Machine.cell_of_getElem? hv s)]
    obtain ⟨hlt, -⟩ := List.getElem?_eq_some_iff.mp hv
    show _ = f v >>= fun u => pure (s.put a.list (xs.set a.cell u))
    cases f v with
    | error e => rfl
    | ok u =>
      have hu : Machine.lift (.ok u) s = .ok u s := rfl
      rw [Machine.ending_bind_ok hu, Machine.ending, Machine.write_of_lt hget hlt]
      rfl

/-- **A command for one cell**, on a store that is ready. -/
theorem Cellwise.result_cell (h : a.Cellwise) (hform : a.form ≠ some .list) (hs : a.Ready s xs) :
    a.step.result s = do
      let w ← a.source.read s
      let v ← cellAt xs a.cell
      let u ← a.effect.apply v w
      return s.put a.list (xs.set a.cell u) := by
  have hoperand := operand_eq h.alone s
  rw [result_eq, Machine.ending_bind_ok (extend_of_ready hs)]
  cases hread : a.source.read s with
  | error f =>
    rw [hread] at hoperand
    exact Machine.ending_bind_error hoperand
  | ok w =>
    rw [hread] at hoperand
    rw [Machine.ending_bind_ok hoperand, h.apply_eq, if_neg hform, ending_onCell hs.1]
    rfl

/-- **A command for the whole list**, on a store that is ready. -/
theorem Cellwise.cells_of_result (h : a.Cellwise) (hform : a.form = some .list) (hs : a.Ready s xs)
    (hresult : a.step.result s = .ok t) :
    ∃ w, a.source.read s = .ok w ∧ ∃ ys, t.get? a.list = some ys ∧
      ∀ (j : Nat) (v : Value), xs[j]? = some v →
        ∃ u, a.effect.apply v w = .ok u ∧ ys[j]? = some u := by
  rw [result_eq, Machine.ending_bind_ok (extend_of_ready hs), Machine.ending_eq_ok] at hresult
  obtain ⟨o, s', ho, hresult⟩ := Machine.bind_eq_ok.mp hresult
  rw [operand_eq h.alone, Machine.lift_eq_ok, Outcome.map_eq_ok] at ho
  obtain ⟨⟨w, hw, rfl⟩, rfl⟩ := ho
  rw [h.apply_eq, if_pos hform] at hresult
  change (Machine.list a.list >>= fun ys => Step.overCells _ a.list ys.length 0) s =
    .ok () t at hresult
  rw [Machine.bind_ok (Machine.list_of_get? hs.1)] at hresult
  obtain ⟨ys, hys, -, hcells⟩ := Step.cells_of_overCells hresult hs.1 (Nat.zero_add _)
  exact ⟨w, hw, ys, hys, fun j v hv => hcells j (Nat.zero_le j) v hv⟩

/-- What a command for one cell needs to succeed, and what it then does. -/
theorem Cellwise.result_cell_eq_ok (h : a.Cellwise) (hform : a.form ≠ some .list)
    (hs : a.Ready s xs) :
    a.step.result s = .ok t ↔
      ∃ w v u, a.source.read s = .ok w ∧ xs[a.cell]? = some v ∧ a.effect.apply v w = .ok u ∧
        t = s.put a.list (xs.set a.cell u) := by
  rw [h.result_cell hform hs]
  constructor
  · intro hok
    obtain ⟨w, hw, hok⟩ := Outcome.bind_eq_ok.mp hok
    obtain ⟨v, hv, hok⟩ := Outcome.bind_eq_ok.mp hok
    obtain ⟨u, hu, hok⟩ := Outcome.bind_eq_ok.mp hok
    cases hok
    exact ⟨w, v, u, hw, cellAt_eq_ok.mp hv, hu, rfl⟩
  · rintro ⟨w, v, u, hw, hv, hu, rfl⟩
    refine Outcome.bind_eq_ok.mpr ⟨w, hw, ?_⟩
    refine Outcome.bind_eq_ok.mpr ⟨v, cellAt_eq_ok.mpr hv, ?_⟩
    exact Outcome.bind_eq_ok.mpr ⟨u, hu, rfl⟩

/-- Whatever a command that goes cell by cell is for, it has been applied to its own cell. -/
theorem Cellwise.cell_of_result (h : a.Cellwise) (hs : a.Ready s xs)
    (hresult : a.step.result s = .ok t) {v : Value} (hv : xs[a.cell]? = some v) :
    ∃ w, a.source.read s = .ok w ∧ ∃ ys, t.get? a.list = some ys ∧
      ∃ u, a.effect.apply v w = .ok u ∧ ys[a.cell]? = some u := by
  by_cases hform : a.form = some .list
  · obtain ⟨w, hw, ys, hys, hcells⟩ := h.cells_of_result hform hs hresult
    exact ⟨w, hw, ys, hys, hcells a.cell v hv⟩
  · obtain ⟨w, v', u, hw, hv', hu, rfl⟩ := (h.result_cell_eq_ok hform hs).mp hresult
    obtain rfl := Option.some.inj (hv.symm.trans hv')
    obtain ⟨hlt, -⟩ := List.getElem?_eq_some_iff.mp hv
    exact ⟨w, hw, _, Store.get?_put_self _ hs.1, u, hu, List.getElem?_set_self hlt⟩

/-- A command that puts its value at the end of the list does not look at the cell. -/
theorem result_of_appends (h : a.command.any Command.appends = true) (k : Nat) :
    ({ a with cell := k } : Assignment).step.result = a.step.result := by
  funext s
  have hextend : ({ a with cell := k } : Assignment).step.extend s = a.step.extend s := by
    cases hget : s.get? a.list with
    | none =>
      rw [extend_of_none hget]
      exact extend_of_none hget
    | some xs =>
      have hcommand : ({ a with cell := k } : Assignment).command = a.command := rfl
      rw [extend_eq hget, extend_eq (a := { a with cell := k }) hget, hcommand, h]
      simp
  have happly : ({ a with cell := k } : Assignment).step.apply a.act = a.step.apply a.act := by
    unfold command at h
    funext o
    unfold Step.apply
    cases hc : a.act.bind (·.command) with
    | none =>
      rw [hc] at h
      cases h
    | some c =>
      rw [hc] at h
      cases c with
      | append | popAppend => rfl
      | add | subtract | overwrite | multiply | divide | modulo | power | root | insert | pop |
        other =>
        cases h
  rw [result_eq, result_eq]
  show Machine.ending (_ >>= fun _ => a.step.operand a.act >>= _) s = _
  rw [happly]
  cases hx : a.step.extend s with
  | ok u t => rw [Machine.ending_bind_ok (hextend.trans hx), Machine.ending_bind_ok hx]
  | error f t => rw [Machine.ending_bind_error (hextend.trans hx), Machine.ending_bind_error hx]

end Assignment

end StrandScript
