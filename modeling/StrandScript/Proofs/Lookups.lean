import StrandScript.Proofs.Arithmetic
import StrandScript.Proofs.Frame

/-!
# Lookups that succeed

Which computations never fail for want of a field or of a list. Operations on values never do
(`Computes.found`). A computation on the store does not as long as the fields that it reads are
given, and the lists that it looks up are lists of the store, whose set never changes
(`Machine.Finds`). One lemma for each way in which the machine's computations are put together, and
one for each part of a step.

* `Fault.isMissing`: the faults of lookups.
* `Step.apply_finds`, `Step.ask_finds`: what a step must carry for all its lookups to succeed.
-/

namespace StrandScript

/-- A fault of a lookup: a field, a list, a command or a theme that is not there. -/
def Fault.isMissing : Fault → Bool
  | .missingField _ | .missingList _ | .missingCommand _ | .missingTheme _ => true
  | _ => false

variable {α β : Type}

/-- The computation does not fail for want of anything. -/
def Found (x : Except Fault α) : Prop := ∀ f, x = .error f → f.isMissing = false

theorem found_ok (a : α) : Found (.ok a) := fun _ h => by cases h

theorem found_error {f : Fault} (h : f.isMissing = false) : Found (.error f : Except Fault α) :=
  fun _ hf => Except.error.inj hf ▸ h

/-- What values make fail does not fail for want of anything. -/
theorem Computes.found {x : Except Fault α} (h : Computes x) : Found x := by
  intro f hf
  have harith := h f hf
  cases f <;> first | rfl | cases harith

theorem Act.found_resolve (a : Option Act) (v w : Value) : Found (Act.resolve a v w) := by
  unfold Act.resolve
  split
  · exact (Command.computes_apply _ v w).found
  · exact found_error rfl

/-! ## Computations on the store -/

namespace Machine

variable {N : List Int}

/-- A result with the lists `N`, or a fault that is not for want of anything. -/
def Kept (N : List Int) : EStateM.Result Fault Store α → Prop
  | .ok _ t => t.numbers = N
  | .error f _ => f.isMissing = false

/-- On a store with the lists `N` the computation keeps these, and does not fail for want of
anything. -/
def Finds (N : List Int) (x : Machine α) : Prop := ∀ s, s.numbers = N → Kept N (x s)

theorem Finds.bind {x : Machine α} {k : α → Machine β} (hx : Finds N x) (hk : ∀ a, Finds N (k a)) :
    Finds N (x >>= k) := by
  intro s hs
  have hxs := hx s hs
  change Kept N (EStateM.bind x k s)
  unfold EStateM.bind
  cases h : x s with
  | ok a t =>
    rw [h] at hxs
    exact hk a t hxs
  | error f t =>
    rw [h] at hxs
    exact hxs

theorem finds_pure (a : α) : Finds N (pure a) := fun _ hs => hs

theorem finds_throw {f : Fault} (hf : f.isMissing = false) : Finds N (throw f : Machine α) :=
  fun _ _ => hf

/-- A computation behind a condition that may stop it. -/
theorem Finds.guard {p : Prop} [Decidable p] {f : Fault} (hf : f.isMissing = false) {x : Machine α}
    (hx : Finds N x) : Finds N (if p then (throw f : Machine Unit) >>= fun _ => x else x) := by
  split
  · exact (finds_throw hf).bind fun _ => hx
  · exact hx

theorem finds_lift {x : Except Fault α} (h : Found x) : Finds N (lift x) := by
  cases x with
  | error f => exact finds_throw (h f rfl)
  | ok a => exact finds_pure a

/-- A field that is given is found, and what follows on it need only be looked at there. -/
theorem finds_field {name : String} {o : Option α} {a : α} {k : α → Machine β} (ho : o = some a)
    (hk : Finds N (k a)) : Finds N (field name o >>= k) := by
  subst ho
  exact hk

theorem get?_of_mem {s : Store} {n : Int} (h : n ∈ s.numbers) : ∃ xs, s.get? n = some xs := by
  obtain ⟨l, hl, rfl⟩ := List.mem_map.mp h
  have hfind : (s.lists.find? fun l' => l'.1 == l.1).isSome := by
    rw [List.find?_isSome]
    exact ⟨l, hl, beq_self_eq_true _⟩
  obtain ⟨l', hl'⟩ := Option.isSome_iff_exists.mp hfind
  exact ⟨l'.2, by rw [Store.get?, hl', Option.map_some]⟩

theorem finds_list {n : Int} (hn : n ∈ N) : Finds N (list n) := by
  intro s hs
  obtain ⟨xs, hxs⟩ := get?_of_mem (hs.symm ▸ hn)
  rw [list_of_get? hxs]
  exact hs

theorem finds_cell (xs : List Value) (i : Int) : Finds N (cell xs i) := by
  unfold cell
  split
  · exact finds_pure _
  · exact finds_throw rfl

theorem finds_put (n : Int) (xs : List Value) : Finds N (put n xs) := by
  intro s hs
  rw [put_eq]
  exact (Store.numbers_put s n xs).trans hs

theorem finds_write {n : Int} (hn : n ∈ N) (i : Int) (v : Value) : Finds N (write n i v) := by
  refine (finds_list hn).bind fun xs => ?_
  split
  · exact finds_put n _
  · exact finds_throw rfl

theorem finds_take {n : Int} (hn : n ∈ N) (i : Int) : Finds N (take n i) := by
  refine (finds_list hn).bind fun xs => ?_
  split
  · exact (finds_put n _).bind fun _ => finds_pure _
  · exact finds_throw rfl

theorem finds_append {n : Int} (hn : n ∈ N) (v : Value) : Finds N (append n v) :=
  (finds_list hn).bind fun xs => finds_put n (xs ++ [v])

theorem Finds.discard {x : Machine α} (h : Finds N x) : Finds N (discard x) := by
  intro s hs
  have hx := h s hs
  change Kept N (EStateM.map (Function.const α PUnit.unit) x s)
  unfold EStateM.map
  cases hxs : x s <;> rw [hxs] at hx <;> exact hx

end Machine

/-! ## Steps -/

namespace Step

open Machine

variable {N : List Int} {st : Step} {n c : Int} {a : Option Act}

theorem extend_finds (hlist : st.list = some n) (hn : n ∈ N) (hact : st.action = some a) :
    Finds N st.extend := by
  unfold extend
  split
  · exact finds_pure ()
  · refine finds_field hlist ((finds_list hn).bind fun xs => ?_)
    split
    · refine finds_field hact ?_
      split
      · exact finds_append hn _
      · exact finds_pure ()
    · exact finds_pure ()

theorem referred_finds {r : CellRef} (hr : st.ref = some r) (hn : r.list ∈ N) :
    Finds N st.referred := by
  unfold referred
  refine finds_field hr (Finds.guard rfl ?_)
  exact (finds_list hn).bind fun xs => Finds.guard rfl (finds_cell xs r.cell)

/-- Where the value of a data step comes from: it is given, or read from a cell that is given. -/
def Sourced (N : List Int) (st : Step) : Prop :=
  (st.form = some .value ∧ ∃ v, st.value = some v) ∨
    (st.form = some .ref ∧ ∃ r, st.ref = some r ∧ r.list ∈ N)

theorem operand_finds (hpairs : Act.pairs a = false) (hsource : st.Sourced N) :
    Finds N (st.operand a) := by
  unfold operand partner
  rw [hpairs]
  refine (finds_pure _).bind fun base => ?_
  obtain ⟨hform, v, hv⟩ | ⟨hform, r, hr, hn⟩ := hsource
  · exact finds_field hform (finds_field hv (finds_pure _))
  · exact finds_field hform ((referred_finds hr hn).bind fun _ => finds_pure _)

theorem overCells_finds {f : Nat → Value → Except Fault Value} (hf : ∀ i v, Found (f i v))
    (hn : n ∈ N) (count i : Nat) : Finds N (overCells f n count i) := by
  induction count generalizing i with
  | zero => exact finds_pure ()
  | succ count ih =>
    refine (finds_list hn).bind fun xs => (finds_cell xs i).bind fun v => ?_
    exact (finds_lift (hf i v)).bind fun w => (finds_write hn i w).bind fun _ => ih (i + 1)

theorem overList_finds {f : Nat → Value → Except Fault Value} (hf : ∀ i v, Found (f i v))
    (hlist : st.list = some n) (hn : n ∈ N) : Finds N (st.overList f) :=
  finds_field hlist ((finds_list hn).bind fun xs => overCells_finds hf hn xs.length 0)

theorem onCell_finds {f : Value → Except Fault Value} (hf : ∀ v, Found (f v))
    (hlist : st.list = some n) (hn : n ∈ N) (hcell : st.cell = some c) : Finds N (st.onCell f) := by
  refine finds_field hlist ((finds_list hn).bind fun xs => finds_field hcell ?_)
  exact (finds_cell xs c).bind fun v => (finds_lift (hf v)).bind fun w => finds_write hn c w

theorem apply_finds (hpairs : Act.pairs a = false) (hlist : st.list = some n) (hn : n ∈ N)
    (hcell : st.cell = some c) (hform : ∀ b, a = some b → ∃ f, b.form = some f)
    (hpop : a.bind (·.command) = some .pop → st.form = some .ref →
      ∃ r, st.ref = some r ∧ r.list ∈ N)
    (htake : a.bind (·.command) = some .popAppend → ∃ r, st.ref = some r ∧ r.list ∈ N)
    (o : Operand) :
    Finds N (st.apply a o) := by
  unfold apply
  rw [hpairs]
  have hsingle : Found o.single := by
    cases o with
    | one v => exact found_ok v
    | many vs => exact found_error rfl
  refine (finds_lift hsingle).bind fun w => ?_
  split
  · exact onCell_finds (fun v => (Value.computes_add v w).found) hlist hn hcell
  · exact finds_field hlist ((finds_list hn).bind fun xs => finds_field hcell (finds_put n _))
  · exact finds_field hlist (finds_append hn w)
  · rename_i hcommand
    refine (onCell_finds (fun v => (Value.computes_add v w).found) hlist hn hcell).bind fun _ => ?_
    split
    · rename_i href
      obtain ⟨r, hr, hrn⟩ := hpop hcommand href
      exact finds_field hr (finds_take hrn r.cell).discard
    · exact finds_pure ()
  · rename_i hcommand
    obtain ⟨r, hr, hrn⟩ := htake hcommand
    refine finds_field hlist ((finds_list hn).discard.bind fun _ => finds_field hr ?_)
    exact (finds_take hrn r.cell).bind fun v => finds_append hn v
  · rename_i hcommand
    obtain ⟨b, rfl, -⟩ := Option.bind_eq_some_iff.mp hcommand
    obtain ⟨form, hb⟩ := hform b rfl
    refine finds_field hb ?_
    split
    · exact overList_finds (fun i v => Act.found_resolve _ v w) hlist hn
    · exact onCell_finds (fun v => Act.found_resolve _ v w) hlist hn hcell

theorem holds_finds_cell {r : CellRef} (hsubject : st.subject = some .cell) (hr : st.ref = some r)
    (hn : r.list ∈ N) : Finds N st.holds := by
  refine finds_field hsubject (finds_field hr ((finds_list hn).bind fun xs => ?_))
  exact (finds_cell xs r.cell).bind fun v => finds_lift (Value.computes_isPositive v).found

theorem holds_finds_list (hsubject : st.subject = some .list) (hlist : st.refList = some n)
    (hn : n ∈ N) : Finds N st.holds := by
  refine finds_field hsubject (finds_field hlist ((finds_list hn).bind fun xs => ?_))
  exact finds_lift (Value.computes_allPositive xs).found

theorem ask_finds {rep : Repetition} (hholds : Finds N st.holds) (hrep : st.repetition = some rep) :
    Finds N st.ask := by
  refine hholds.bind fun yes => ?_
  split
  · refine finds_field hrep ?_
    split <;> exact finds_pure _
  · exact finds_pure _

end Step

end StrandScript
