import StrandScript.Proofs.Machine
import StrandScript.Store

/-!
# What a step writes

A computation of the machine changes the store by single writes, each of which replaces one list.
Its log is the list of these writes, in their order; it may depend on the store that the computation
meets, and it ends where the computation fails. A step writes to the list that it names and, where
it pops, to the list that it refers to (`Step.perform_logs`).

* `Store.AgreeOutside`: two stores have the same lists, and the same in them apart from some
  numbers.
* `Machine.Reads`: a computation changes nothing.
* `Machine.Logs`: a computation makes the writes of a log, one after the other, all to lists of some
  numbers. One lemma for each way in which the machine's computations are put together.
* `Machine.stages`: the stores that some writes lead through. In the end a list holds what the last
  write to it has put there (`get?_written`).
* `Step.log`, `Step.logAll`: the writes of a step, and of the steps of a glyph.
-/

namespace StrandScript

/-! ## Stores that agree -/

/-- The same lists, with the same contents except for the numbers in `W`. -/
structure Store.AgreeOutside (W : Int → Prop) (s t : Store) : Prop where
  numbers : t.numbers = s.numbers
  get? : ∀ n, ¬ W n → t.get? n = s.get? n

namespace Store.AgreeOutside

variable {W W' : Int → Prop} {s t u : Store}

theorem refl (W : Int → Prop) (s : Store) : AgreeOutside W s s := ⟨rfl, fun _ _ => rfl⟩

theorem trans (h : AgreeOutside W s t) (h' : AgreeOutside W t u) : AgreeOutside W s u :=
  ⟨h'.numbers.trans h.numbers, fun n hn => (h'.get? n hn).trans (h.get? n hn)⟩

theorem mono (h : AgreeOutside W s t) (hW : ∀ n, W n → W' n) : AgreeOutside W' s t :=
  ⟨h.numbers, fun n hn => h.get? n fun hw => hn (hW n hw)⟩

theorem put {n : Int} (hn : W n) (s : Store) (xs : List Value) : AgreeOutside W s (s.put n xs) := by
  refine ⟨numbers_put s n xs, fun m hm => ?_⟩
  rw [get?_put, if_neg]
  rintro rfl
  exact hm hn

end Store.AgreeOutside

namespace Machine

variable {α β : Type} {W : Int → Prop}

/-- The store that a computation leaves, whether or not it ends in a fault. -/
def left (x : Machine α) (s : Store) : Store :=
  match x s with
  | .ok _ t => t
  | .error _ t => t

/-- The computation leaves every store as it is. -/
def Reads (x : Machine α) : Prop := ∀ s, left x s = s

theorem left_bind (x : Machine α) (f : α → Machine β) (s : Store) :
    left (x >>= f) s = match x s with
      | .ok a t => left (f a) t
      | .error _ t => t := by
  change left (EStateM.bind x f) s = _
  unfold left EStateM.bind
  cases x s <;> rfl

theorem left_discard (x : Machine α) (s : Store) : left (discard x) s = left x s := by
  change left (EStateM.map (Function.const α PUnit.unit) x) s = left x s
  unfold left EStateM.map
  cases x s <;> rfl

/-! ## Computations that only read -/

theorem Reads.bind {x : Machine α} {f : α → Machine β} (hx : Reads x) (hf : ∀ a, Reads (f a)) :
    Reads (x >>= f) := by
  intro s
  have hs := hx s
  rw [left_bind]
  unfold left at hs
  cases hxs : x s with
  | ok a t =>
    rw [hxs] at hs
    obtain rfl : t = s := hs
    exact hf a t
  | error e t =>
    rw [hxs] at hs
    exact hs

theorem Reads.discard {x : Machine α} (h : Reads x) : Reads (discard x) := fun s =>
  (left_discard x s).trans (h s)

theorem reads_pure (a : α) : Reads (pure a : Machine α) := fun _ => rfl

theorem reads_throw (f : Fault) : Reads (throw f : Machine α) := fun _ => rfl

theorem reads_field (name : String) (o : Option α) : Reads (field name o) := by
  cases o with
  | none => exact reads_throw _
  | some a => exact reads_pure a

theorem reads_lift (x : Except Fault α) : Reads (lift x) := by
  cases x with
  | error f => exact reads_throw f
  | ok a => exact reads_pure a

theorem reads_get : Reads (get : Machine Store) := fun _ => rfl

theorem reads_list (n : Int) : Reads (list n) := by
  refine reads_get.bind fun s => ?_
  cases s.get? n with
  | none => exact reads_throw _
  | some xs => exact reads_pure xs

theorem reads_cell (xs : List Value) (i : Int) : Reads (cell xs i) := by
  unfold cell
  cases Index.get? xs i with
  | none => exact reads_throw _
  | some v => exact reads_pure v

/-- A computation behind a condition that may stop it. -/
theorem Reads.guard {p : Prop} [Decidable p] (f : Fault) {x : Machine α} (hx : Reads x) :
    Reads (if p then (throw f : Machine Unit) >>= fun _ => x else x) := by
  split
  · exact (reads_throw f).bind fun _ => hx
  · exact hx

/-! ## Computations that write -/

/-- One write: a number, and what its list is replaced by. -/
abbrev Write := Int × List Value

/-- The stores that some writes lead through: the first one, and one after each of them. -/
def stages : Store → List Write → List Store
  | s, [] => [s]
  | s, w :: ws => s :: stages (s.put w.1 w.2) ws

/-- The store after some writes. -/
def written (s : Store) (ws : List Write) : Store := ws.foldl (fun s w => s.put w.1 w.2) s

theorem mem_stages_self (s : Store) (ws : List Write) : s ∈ stages s ws := by
  cases ws <;> simp [stages]

theorem written_mem_stages (s : Store) (ws : List Write) : written s ws ∈ stages s ws := by
  induction ws generalizing s with
  | nil => exact List.mem_singleton.mpr rfl
  | cons w ws ih => exact List.mem_cons_of_mem _ (ih _)

theorem written_append (s : Store) (ws vs : List Write) :
    written s (ws ++ vs) = written (written s ws) vs := List.foldl_append

/-- What the last write to a list puts there, if there is one. -/
def lastTo (n : Int) : List Write → Option (List Value)
  | [] => none
  | w :: ws => (lastTo n ws).or (if n = w.1 then some w.2 else none)

/-- After some writes a list holds what the last write to it has put there. -/
theorem get?_written (s : Store) (ws : List Write) (n : Int) :
    (written s ws).get? n = (s.get? n).map fun xs => (lastTo n ws).getD xs := by
  induction ws generalizing s with
  | nil => cases hs : s.get? n <;> simp [written, lastTo, hs]
  | cons w ws ih =>
    change (written (s.put w.1 w.2) ws).get? n = _
    rw [ih, Store.get?_put, lastTo]
    split
    · rename_i hn
      subst hn
      cases lastTo w.1 ws <;> simp [Function.comp_def]
    · simp

/-- The writes that a computation makes, for each store that it may meet. -/
abbrev Log := Store → List Write

/-- The writes of a computation that only reads, and of what is done with its result. -/
def reading (x : Machine α) (next : α → Log) : Log := fun s =>
  match x s with
  | .ok a t => next a t
  | .error _ _ => []

/-- The writes of a computation, and of what is done with its result. -/
def writing (x : Machine α) (log : Log) (next : α → Log) : Log := fun s =>
  log s ++ reading x next s

/-- The computation makes the writes of a log, all to lists of the numbers in `W`. -/
structure Logs (W : Int → Prop) (log : Log) (x : Machine α) : Prop where
  left_eq (s : Store) : left x s = written s (log s)
  mem (s : Store) : ∀ w ∈ log s, W w.1

theorem Reads.logs {x : Machine α} (h : Reads x) : Logs W (fun _ => []) x :=
  ⟨h, fun _ _ hw => nomatch hw⟩

theorem Logs.mono {x : Machine α} {log : Log} (h : Logs W log x) (hW : ∀ n, W n → W' n) :
    Logs W' log x :=
  ⟨h.left_eq, fun s w hw => hW _ (h.mem s w hw)⟩

theorem Logs.writing {x : Machine α} {f : α → Machine β} {log : Log} {next : α → Log}
    (hx : Logs W log x) (hf : ∀ a, Logs W (next a) (f a)) :
    Logs W (writing x log next) (x >>= f) := by
  constructor
  · intro s
    have hs := hx.left_eq s
    rw [left_bind, Machine.writing, written_append, ← hs, reading]
    unfold left at hs ⊢
    cases hxs : x s with
    | ok a t => exact (hf a).left_eq t
    | error e t => rfl
  · intro s w hw
    rw [Machine.writing, List.mem_append, reading] at hw
    rcases hw with hw | hw
    · exact hx.mem s w hw
    · cases hxs : x s with
      | ok a t =>
        rw [hxs] at hw
        exact (hf a).mem t w hw
      | error e t =>
        rw [hxs] at hw
        cases hw

theorem Logs.reading {x : Machine α} {f : α → Machine β} {next : α → Log} (hx : Reads x)
    (hf : ∀ a, Logs W (next a) (f a)) : Logs W (reading x next) (x >>= f) :=
  hx.logs.writing hf

theorem Logs.andReads {x : Machine α} {f : α → Machine β} {log : Log} (hx : Logs W log x)
    (hf : ∀ a, Reads (f a)) : Logs W log (x >>= f) := by
  refine ⟨fun s => ?_, hx.mem⟩
  rw [← hx.left_eq, left_bind]
  unfold left
  cases x s with
  | ok a t => exact hf a t
  | error e t => rfl

/-- What follows on a field need only be looked at where the field is given. -/
theorem Logs.field {name : String} {o : Option α} {f : α → Machine β} {next : α → Log}
    (hf : ∀ a, o = some a → Logs W (next a) (f a)) :
    Logs W (Machine.reading (field name o) next) (field name o >>= f) := by
  cases o with
  | none => exact (reads_throw _).logs
  | some a => exact hf a rfl

theorem Logs.discard {x : Machine α} {log : Log} (h : Logs W log x) : Logs W log (discard x) :=
  ⟨fun s => (left_discard x s).trans (h.left_eq s), h.mem⟩

/-- The write of a list. -/
def putLog (n : Int) (xs : List Value) : Log := fun _ => [(n, xs)]

/-- The write of a list, if there is one to write. -/
def putLog? (n : Int) : Option (List Value) → Log
  | some xs => putLog n xs
  | none => fun _ => []

theorem logs_put {n : Int} (hn : W n) (xs : List Value) : Logs W (putLog n xs) (put n xs) :=
  ⟨fun _ => rfl, fun _ => List.forall_mem_singleton.mpr hn⟩

def writeLog (n i : Int) (v : Value) : Log :=
  reading (list n) fun xs => putLog? n (Index.set? xs i v)

theorem logs_write {n : Int} (hn : W n) (i : Int) (v : Value) :
    Logs W (writeLog n i v) (write n i v) := by
  refine .reading (reads_list n) fun xs => ?_
  cases Index.set? xs i v with
  | none => exact (reads_throw _).logs
  | some ys => exact logs_put hn ys

def takeLog (n i : Int) : Log :=
  reading (list n) fun xs => putLog? n ((Index.remove? xs i).map (·.2))

theorem logs_take {n : Int} (hn : W n) (i : Int) : Logs W (takeLog n i) (take n i) := by
  refine .reading (reads_list n) fun xs => ?_
  cases Index.remove? xs i with
  | none => exact (reads_throw _).logs
  | some r => exact (logs_put hn r.2).andReads fun _ => reads_pure r.1

def appendLog (n : Int) (v : Value) : Log := reading (list n) fun xs => putLog n (xs ++ [v])

theorem logs_append {n : Int} (hn : W n) (v : Value) : Logs W (appendLog n v) (append n v) :=
  .reading (reads_list n) fun xs => logs_put hn (xs ++ [v])

/-! ## The stores between writes -/

theorem mem_stages_append {s t : Store} {ws vs : List Write} :
    t ∈ stages s (ws ++ vs) ↔ t ∈ stages s ws ∨ t ∈ stages (written s ws) vs := by
  induction ws generalizing s with
  | nil =>
    rw [List.nil_append, stages, List.mem_singleton]
    exact ⟨Or.inr, fun h => h.elim (fun h => h ▸ mem_stages_self s vs) id⟩
  | cons w ws ih =>
    rw [List.cons_append, stages, stages, List.mem_cons, List.mem_cons, ih, or_assoc]
    rfl

theorem stages_agree {s : Store} {ws : List Write} (h : ∀ w ∈ ws, W w.1) :
    ∀ t ∈ stages s ws, Store.AgreeOutside W s t := by
  induction ws generalizing s with
  | nil => simp [stages, Store.AgreeOutside.refl]
  | cons w ws ih =>
    rw [List.forall_mem_cons] at h
    rw [stages, List.forall_mem_cons]
    exact ⟨.refl W s, fun t ht => (Store.AgreeOutside.put h.1 s w.2).trans (ih h.2 t ht)⟩

theorem Logs.agree {x : Machine α} {log : Log} (h : Logs W log x) (s : Store) :
    Store.AgreeOutside W s (left x s) := by
  rw [h.left_eq]
  exact stages_agree (h.mem s) _ (written_mem_stages s _)

end Machine

/-! ## Steps -/

namespace Step

open Machine

variable {W : Int → Prop} {st : Step}

/-- The step takes a cell out of a list: it refers to the list, and pops. -/
def Drains (st : Step) (n : Int) : Prop :=
  ∃ r a, st.ref = some r ∧ r.list = n ∧ st.action = some (some a) ∧
    (a.command = some .pop ∧ st.form = some .ref ∨ a.command = some .popAppend)

/-- A data step may write to the list that it names and to one that it takes a cell out of. -/
def Touches (st : Step) (n : Int) : Prop :=
  (∃ r, st.role = some r ∧ r ≠ .question) ∧ (st.list = some n ∨ st.Drains n)

theorem referred_reads (st : Step) : Reads st.referred := by
  unfold referred
  refine (reads_field _ _).bind fun r => Reads.guard _ ?_
  exact (reads_list _).bind fun xs => Reads.guard _ (reads_cell xs r.cell)

theorem partner_reads (st : Step) (a : Option Act) : Reads (st.partner a) := by
  unfold partner
  split
  · refine (reads_field _ _).bind fun n => (reads_list n).bind fun xs => ?_
    exact reads_pure (Operand.many xs)
  · exact reads_pure _

theorem operand_reads (st : Step) (a : Option Act) : Reads (st.operand a) := by
  refine (partner_reads st a).bind fun base => (reads_field _ _).bind fun form => ?_
  cases form with
  | value => exact (reads_field _ _).bind fun v => reads_pure (Operand.one v)
  | ref => exact st.referred_reads.bind fun v => reads_pure (Operand.one v)
  | element => exact reads_pure base
  | list => exact reads_pure base
  | listToList => exact reads_pure base
  | other => exact reads_pure base

/-! ### The writes of a step -/

def extendLog (st : Step) : Log :=
  match st.cell with
  | none => fun _ => []
  | some c =>
    reading (field "list" st.list) fun n => reading (Machine.list n) fun xs =>
      if (xs.length : Int) = c then
        reading (field "action" st.action) fun a =>
          if !(a.bind (·.command)).any (·.appends) then appendLog n (.int 0) else fun _ => []
      else fun _ => []

theorem extend_logs (hlist : ∀ n, st.list = some n → W n) : Logs W st.extendLog st.extend := by
  unfold extend extendLog
  cases st.cell with
  | none => exact (reads_pure ()).logs
  | some c =>
    refine .field fun n hn => .reading (reads_list n) fun xs => ?_
    split
    · refine .reading (reads_field _ _) fun a => ?_
      split
      · exact logs_append (hlist n hn) _
      · exact (reads_pure ()).logs
    · exact (reads_pure ()).logs

def overCellsLog (f : Nat → Value → Except Fault Value) (n : Int) : Nat → Nat → Log
  | 0, _ => fun _ => []
  | count + 1, i =>
    reading (Machine.list n) fun xs => reading (Machine.cell xs i) fun v =>
      reading (lift (f i v)) fun w =>
        writing (Machine.write n i w) (Machine.writeLog n i w) fun _ =>
          overCellsLog f n count (i + 1)

theorem overCells_logs (f : Nat → Value → Except Fault Value) {n : Int} (hn : W n)
    (count i : Nat) : Logs W (overCellsLog f n count i) (overCells f n count i) := by
  induction count generalizing i with
  | zero => exact (reads_pure ()).logs
  | succ count ih =>
    refine .reading (reads_list n) fun xs => .reading (reads_cell xs i) fun v => ?_
    refine .reading (reads_lift _) fun w => (logs_write hn i w).writing fun _ => ?_
    exact ih (i + 1)

def overListLog (st : Step) (f : Nat → Value → Except Fault Value) : Log :=
  reading (field "list" st.list) fun n => reading (Machine.list n) fun xs =>
    overCellsLog f n xs.length 0

theorem overList_logs (hlist : ∀ n, st.list = some n → W n)
    (f : Nat → Value → Except Fault Value) : Logs W (st.overListLog f) (st.overList f) := by
  refine .field fun n hn => .reading (reads_list n) fun xs => ?_
  exact overCells_logs f (hlist n hn) xs.length 0

def onCellLog (st : Step) (f : Value → Except Fault Value) : Log :=
  reading (field "list" st.list) fun n => reading (Machine.list n) fun xs =>
    reading (field "assign_to_cell" st.cell) fun i => reading (Machine.cell xs i) fun v =>
      reading (lift (f v)) fun w => Machine.writeLog n i w

theorem onCell_logs (hlist : ∀ n, st.list = some n → W n) (f : Value → Except Fault Value) :
    Logs W (st.onCellLog f) (st.onCell f) := by
  refine .field fun n hn => .reading (reads_list n) fun xs => ?_
  refine .reading (reads_field _ _) fun i => .reading (reads_cell xs i) fun v => ?_
  exact .reading (reads_lift _) fun w => logs_write (hlist n hn) i w

def resolveLog (st : Step) (a : Option Act) (w : Value) : Log :=
  reading (field "subtype" (a.bind (·.form))) fun
    | .list => st.overListLog fun _ v => Act.resolve a v w
    | _ => st.onCellLog fun v => Act.resolve a v w

theorem resolve_logs (hlist : ∀ n, st.list = some n → W n) (a : Option Act) (w : Value) :
    Logs W (st.resolveLog a w) (do
      match ← field "subtype" (a.bind (·.form)) with
      | .list => st.overList fun _ v => Act.resolve a v w
      | _ => st.onCell fun v => Act.resolve a v w) := by
  refine .reading (reads_field _ _) fun form => ?_
  cases form with
  | list => exact overList_logs hlist _
  | _ => exact onCell_logs hlist _

def applyLog (st : Step) (a : Option Act) (o : Operand) : Log :=
  if Act.pairs a then st.overListLog fun i v => do Act.resolve a v (← o.at i)
  else reading (lift o.single) fun w =>
    match a.bind (·.command) with
    | none => st.onCellLog (·.add w)
    | some .insert =>
      reading (field "list" st.list) fun n => reading (Machine.list n) fun xs =>
        reading (field "assign_to_cell" st.cell) fun i => putLog n (Index.insert xs i w)
    | some .append => reading (field "list" st.list) fun n => appendLog n w
    | some .pop =>
      writing (st.onCell (·.add w)) (st.onCellLog (·.add w)) fun _ =>
        if st.form = some .ref then
          reading (field "ref_cell" st.ref) fun r => takeLog r.list r.cell
        else fun _ => []
    | some .popAppend =>
      reading (field "list" st.list) fun n => reading (discard (Machine.list n)) fun _ =>
        reading (field "ref_cell" st.ref) fun r =>
          writing (take r.list r.cell) (takeLog r.list r.cell) fun v => appendLog n v
    | some _ => st.resolveLog a w

theorem apply_logs {a : Option Act} (ha : st.action = some a)
    (hlist : ∀ n, st.list = some n → W n) (hdrain : ∀ n, st.Drains n → W n) (o : Operand) :
    Logs W (st.applyLog a o) (st.apply a o) := by
  unfold apply applyLog
  split
  · exact overList_logs hlist _
  · refine .reading (reads_lift _) fun w => ?_
    have drains {r : CellRef} (hr : st.ref = some r) {act : Act} (hact : a = some act)
        (hpop : act.command = some .pop ∧ st.form = some .ref ∨ act.command = some .popAppend) :
        W r.list := hdrain _ ⟨r, act, hr, rfl, hact ▸ ha, hpop⟩
    cases hc : a.bind (·.command) with
    | none => exact onCell_logs hlist _
    | some c =>
      obtain ⟨act, hact, hcommand⟩ := Option.bind_eq_some_iff.mp hc
      cases c with
      | insert =>
        refine .field fun n hn => .reading (reads_list n) fun xs => ?_
        exact .reading (reads_field _ _) fun i => logs_put (hlist n hn) _
      | append => exact .field fun n hn => logs_append (hlist n hn) w
      | pop =>
        refine (onCell_logs hlist _).writing fun _ => ?_
        split
        · rename_i hform
          refine .field fun r hr => Logs.discard (logs_take ?_ r.cell)
          exact drains hr hact (Or.inl ⟨hcommand, hform⟩)
        · exact (reads_pure ()).logs
      | popAppend =>
        refine .field fun n hn => .reading (Reads.discard (reads_list n)) fun _ => ?_
        refine .field fun r hr => (logs_take ?_ r.cell).writing fun v => ?_
        · exact drains hr hact (Or.inr hcommand)
        · exact logs_append (hlist n hn) v
      | _ => exact resolve_logs hlist a w

def writeLog (st : Step) : Log :=
  writing st.extend st.extendLog fun _ => reading (field "action" st.action) fun a =>
    reading (st.operand a) fun o => st.applyLog a o

/-- A data step writes to the list it names and to one it takes a cell out of. -/
theorem write_logs (st : Step) :
    Logs (fun n => st.list = some n ∨ st.Drains n) st.writeLog st.write := by
  refine (extend_logs fun n => Or.inl).writing fun _ => .field fun a ha => ?_
  exact .reading (st.operand_reads a) fun o =>
    apply_logs ha (fun n => Or.inl) (fun n => Or.inr) o

theorem holds_reads (st : Step) : Reads st.holds := by
  refine (reads_field _ _).bind fun subject => ?_
  cases subject with
  | cell =>
    refine (reads_field _ _).bind fun r => (reads_list _).bind fun xs => ?_
    exact (reads_cell xs r.cell).bind fun v => reads_lift _
  | list => exact (reads_field _ _).bind fun n => (reads_list n).bind fun xs => reads_lift _
  | unknown => exact reads_throw _

theorem ask_reads (st : Step) : Reads st.ask := by
  refine st.holds_reads.bind fun yes => ?_
  split
  · refine (reads_field _ _).bind fun r => ?_
    cases r <;> exact reads_pure _
  · exact reads_pure _

/-- A question changes nothing. -/
theorem perform_reads (before : Answer) (h : st.role = some .question) :
    Reads (perform before st) := by
  unfold perform
  rw [h]
  exact st.ask_reads

/-- The writes of a step. -/
def log (st : Step) : Log :=
  match st.role with
  | none | some .question => fun _ => []
  | some _ => st.writeLog

/-- **A step writes to the lists it may touch only.** -/
theorem perform_logs (before : Answer) (st : Step) :
    Logs st.Touches st.log (perform before st) := by
  have hdata : ∀ r, st.role = some r → r ≠ .question →
      Logs st.Touches st.writeLog (st.write >>= fun _ => pure before) := by
    intro r hr hq
    have hwrite : Logs st.Touches st.writeLog st.write :=
      st.write_logs.mono fun n hn => ⟨⟨r, hr, hq⟩, hn⟩
    exact hwrite.andReads fun _ => reads_pure before
  unfold perform log
  cases hr : st.role with
  | none => exact (reads_throw _).logs
  | some r =>
    cases r with
    | question => exact st.ask_reads.logs
    | data => exact hdata _ hr nofun
    | other => exact hdata _ hr nofun

/-- The writes of the steps of a glyph, up to their end or to the fault that ends them. -/
def logAll (before : Answer) : List Step → Log
  | [] => fun _ => []
  | st :: ss => writing (perform before st) st.log fun a => logAll a ss

theorem performAll_logs (before : Answer) {ss : List Step}
    (h : ∀ st ∈ ss, ∀ n, st.Touches n → W n) :
    Logs W (logAll before ss) (ss.foldlM perform before) := by
  induction ss generalizing before with
  | nil => exact (reads_pure before).logs
  | cons st ss ih =>
    rw [List.forall_mem_cons] at h
    rw [List.foldlM_cons]
    exact ((perform_logs before st).mono h.1).writing fun a => ih a h.2

end Step

end StrandScript
