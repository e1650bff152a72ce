import StrandScript.Proofs.PathSums
import StrandScript.Proofs.TokenFields

/-!
# Assignments

What a data token tells the machine is an assignment: the list and the cell that it writes to, the
action that is attached to it, and where its value comes from. Of the actions that the machine
knows, only those that strands draw are attached to tokens (`Act.drawn`): nine commands for one
cell, and their variants for the whole list and from list to list.

* `Assignment.step`: the step of an assignment.
* `Program.assignment_of_parse`: the data tokens of a program that is read are assignments with an
  action that can be drawn.
-/

namespace StrandScript

/-- Where the value of an assignment comes from: a number, if there is any, or a cell. -/
inductive Source where
  | value (n : Option Int)
  | cell (list : Int) (cell : Nat)
deriving DecidableEq

/-- What a data token tells the machine. -/
structure Assignment where
  list : Int
  cell : Nat
  act : Option Act
  source : Source
deriving DecidableEq

namespace Assignment

/-- The command of an assignment. -/
def command (a : Assignment) : Option Command := a.act.bind (·.command)

/-- What the action of an assignment applies to. -/
def form (a : Assignment) : Option Form := a.act.bind (·.form)

/-- The step of an assignment. -/
def step (a : Assignment) : Step where
  role := some .data
  form := match a.source with
    | .value _ => some .value
    | .cell .. => some .ref
  list := some a.list
  cell := some a.cell
  value := match a.source with
    | .value n => some (n.elim .empty .int)
    | .cell .. => some .empty
  ref := match a.source with
    | .value _ => none
    | .cell n c => some ⟨n, c⟩
  refList := none
  action := some a.act
  subject := none
  repetition := none
  test := none
  fields := match a.source with
    | .value _ => 15
    | .cell .. => 18

end Assignment

/-- The assignment of a data token. -/
def DataToken.assignment (d : DataToken) : Assignment where
  list := d.list
  cell := d.cell
  act := d.action.bind Strand.act
  source := match d.strand.meaning, d.ref with
    | .value n, _ => .value n
    | _, some r => .cell r.list r.cell.toNat
    | _, none => .value none

/-! ## Actions that are drawn -/

/-- The commands that action strands have numbers for. -/
def Command.drawn : List Command :=
  [.overwrite, .insert, .subtract, .multiply, .divide, .pop, .modulo, .power, .root]

/-- The actions that strands draw. -/
def Act.drawn : List Act :=
  Command.drawn.map (fun c => ⟨some c, some .element, 14⟩) ++
    Command.drawn.map (fun c => ⟨some c.forList, some .list, 14⟩) ++
    Command.drawn.map fun c => ⟨some c.forList, some .listToList, 17⟩

/-- An assignment without an action or with one that is drawn. -/
def Assignment.Drawn (a : Assignment) : Prop := ∀ act, a.act = some act → act ∈ Act.drawn

theorem Command.mem_drawn {n : Int} {c : Command} (h : ofNumber? n = some c) : c ∈ drawn := by
  unfold ofNumber? at h
  split_ifs at h <;> cases h <;> decide

/-- What an action strand draws. -/
theorem Act.mem_drawn {n : Int} {c : Command} {scope : Scope} (hc : Command.ofNumber? n = some c)
    {s : Strand} (hs : s.meaning = .act n (if scope = .element then c else c.forList) scope)
    {act : Act} (h : s.act = some act) : act ∈ drawn := by
  have hmem := Command.mem_drawn hc
  unfold Strand.act at h
  rw [hs] at h
  unfold drawn
  cases scope with
  | element =>
    cases h
    exact List.mem_append_left _ (List.mem_append_left _ (List.mem_map.mpr ⟨c, hmem, rfl⟩))
  | list =>
    cases h
    exact List.mem_append_left _ (List.mem_append_right _ (List.mem_map.mpr ⟨c, hmem, rfl⟩))
  | listToList p =>
    cases h
    exact List.mem_append_right _ (List.mem_map.mpr ⟨c, hmem, rfl⟩)

/-! ## Data tokens -/

theorem Arrangement.refAt_cell {primes : List Nat} {ds : List DataToken} {question : Option Pos}
    {p : Pos} {r : CellRef} (h : refAt primes ds question p = .ok r) : 0 ≤ r.cell := by
  obtain ⟨n, -, h⟩ := Outcome.bind_eq_ok.mp h
  obtain ⟨c, -, h⟩ := Outcome.bind_eq_ok.mp h
  cases h
  exact Int.natCast_nonneg c

/-- A data token with all its fields has the step of its assignment. -/
theorem DataToken.Told.step_eq {d : DataToken} (h : d.Told)
    (hcell : ∀ r, d.ref = some r → 0 ≤ r.cell) :
    d.step = d.assignment.step := by
  obtain ⟨⟨n, hn⟩, hr⟩ | ⟨⟨p, hp⟩, r, hr⟩ := h.source
  · unfold step assignment Assignment.step
    rw [hn, hr]
    cases n with
    | none => rfl
    | some n => rfl
  · obtain ⟨list, cell⟩ := r
    have hc : ((cell.toNat : Nat) : Int) = cell := Int.toNat_of_nonneg (hcell _ hr)
    unfold step assignment Assignment.step
    rw [hp, hr]
    simp only [hc]

theorem Program.cell_nonneg_of_parse {limit : Nat} {text : String} {gs : List Glyph}
    (h : parseWithin limit text = .ok gs) {g : Glyph} (hg : g ∈ gs) {d : DataToken}
    (hd : Token.data d ∈ g.tokens) {r : CellRef} (hr : d.ref = some r) : 0 ≤ r.cell := by
  obtain ⟨-, -, primes, -, -, -, -, htokens⟩ := parseGrid_eq_ok h
  obtain ⟨i, ss, -, hts⟩ := htokens g hg
  obtain ⟨ds, question, p, href⟩ := Arrangement.refAt_of_tokens hts hd hr
  exact Arrangement.refAt_cell href

/-- **Data tokens are assignments**, and their actions are drawn. -/
theorem Program.assignment_of_parse {limit : Nat} {text : String} {gs : List Glyph}
    (h : parseWithin limit text = .ok gs) {g : Glyph} (hg : g ∈ gs) {d : DataToken}
    (hd : Token.data d ∈ g.tokens) : d.step = d.assignment.step ∧ d.assignment.Drawn := by
  have htold := told_of_parse h hg hd
  obtain ⟨-, -, primes, -, -, -, -, htokens⟩ := parseGrid_eq_ok h
  obtain ⟨i, ss, hss, hts⟩ := htokens g hg
  constructor
  · exact htold.step_eq fun r hr => cell_nonneg_of_parse h hg hd hr
  · intro act hact
    obtain ⟨a, ha, hact⟩ := Option.bind_eq_some_iff.mp hact
    obtain ⟨hmem, hkind⟩ := Arrangement.action_of_tokens hts hd ha
    obtain ⟨sums, stop, -, hm⟩ := Grid.strands_walks hss hmem
    rw [hkind] at hm
    obtain ⟨n, c, scope, hmeaning, -, hc⟩ := Meaning.act_of_sum hm
    exact Act.mem_drawn hc hmeaning hact

end StrandScript
