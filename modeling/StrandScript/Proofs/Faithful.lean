import StrandScript.Proofs.Execution
import StrandScript.Proofs.LineText
import StrandScript.Proofs.MissingFields

/-!
# Lines and what they stand for

The line of a data token does not tell all that its step depends on. What it leaves out
(`Assignment.untold`) is whether the command is a root, and whether the action is for one cell, for
the whole list or from list to list. Two tokens with the same line for which the same is left out do
the same (`Assignment.result_of_shown_untold`). All others some store tells apart, as soon as one of
them can be carried out at all: a further cell tells one cell from the whole list
(`Assignment.not_alike_of_list`), whole numbers tell a sum from a root
(`Assignment.not_alike_of_root`), and only an action from list to list fails for want of a list
(`DataToken.pairs_of_result`).
-/

namespace StrandScript

/-- What the line of an assignment does not tell: whether its command is a root, and what its action
applies to. -/
def Assignment.untold (a : Assignment) : Bool × Option Form := (a.command == some .root, a.form)

/-! ## Assignments with the same line and nothing untold between them -/

/-- No action, and the actions that are drawn. -/
def Act.choices : List (Option Act) := none :: Act.drawn.map some

namespace Assignment

variable {a b : Assignment}

theorem Drawn.mem_choices (h : a.Drawn) : a.act ∈ Act.choices := by
  unfold Act.choices
  cases hact : a.act with
  | none => exact List.mem_cons_self
  | some act => exact List.mem_cons_of_mem _ (List.mem_map_of_mem (h act hact))

/-- The cell is told by every command that looks at it. -/
theorem cell_of_shown (h : a.shown = b.shown) (hb : b.command.any Command.appends = false) :
    a.cell = b.cell ∧ a.command.any Command.appends = false := by
  have hcell : a.shown.cell = b.shown.cell := congrArg Listing.Shown.cell h
  simp only [shown, hb] at hcell
  split at hcell
  · cases hcell
  · rename_i ha
    exact ⟨Option.some.inj hcell, Bool.eq_false_iff.mpr ha⟩

/-- **What a line tells and what it does not tell settle together what is done.** -/
theorem result_of_shown_untold (ha : a.Drawn) (hb : b.Drawn) (hshown : a.shown = b.shown)
    (huntold : a.untold = b.untold) : a.step.result = b.step.result := by
  have hchoices : ∀ x ∈ Act.choices, ∀ y ∈ Act.choices,
      (x.bind (·.command)).filter (· ≠ .root) = (y.bind (·.command)).filter (· ≠ .root) →
      (x.bind (·.command) == some .root) = (y.bind (·.command) == some .root) →
      x.bind (·.form) = y.bind (·.form) → x = y := by decide +kernel
  have hact : a.act = b.act := hchoices _ ha.mem_choices _ hb.mem_choices
    (congrArg Listing.Shown.command hshown) (congrArg Prod.fst huntold) (congrArg Prod.snd huntold)
  have hlist : a.list = b.list := congrArg Listing.Shown.list hshown
  have hsource : a.source = b.source := congrArg Listing.Shown.source hshown
  have hsame : a = { b with cell := a.cell } := by
    rw [← hlist, ← hact, ← hsource]
  cases happends : b.command.any Command.appends with
  | true =>
    rw [hsame]
    exact result_of_appends happends a.cell
  | false =>
    rw [hsame, (cell_of_shown hshown happends).1]

end Assignment

/-! ## Values that a command moves -/

theorem Value.pair_empty_ne {w v : Value} {k : Value.Pair → Except Fault Value} :
    (Value.pair .empty w >>= k) ≠ .ok v := by
  have hpair : Value.pair .empty w = .error .wrongKind := by cases w <;> rfl
  rw [hpair]
  intro h
  cases h

/-- Every command that goes cell by cell changes some value, or refuses it. -/
theorem Command.exists_moved {c : Command} (hc : c.cellwise = true) (w : Value) :
    ∃ z, c.apply z w ≠ .ok z := by
  cases c with
  | insert | append | pop | popAppend => cases hc
  | overwrite =>
    cases w with
    | empty => exact ⟨.int 0, fun h => by cases h⟩
    | int | real | complex => exact ⟨.empty, fun h => by cases h⟩
  | other => exact ⟨.int 0, fun h => by cases h⟩
  | add | subtract | multiply | divide | power => exact ⟨.empty, Value.pair_empty_ne⟩
  | modulo =>
    refine ⟨.empty, ?_⟩
    cases w with
    | complex => exact fun h => by cases h
    | int | real | empty => exact Value.pair_empty_ne
  | root =>
    refine ⟨.empty, fun h => ?_⟩
    obtain ⟨q, -, h⟩ := Outcome.bind_eq_ok.mp h
    exact Value.pair_empty_ne h

/-- A power of doubles is never a whole number. -/
theorem Value.realPow_ne_int (x y : Float) (i : Int) : Value.realPow x y ≠ .ok (.int i) := by
  have hreal (z : Float) : (Except.ok (Value.real z) : Except Fault Value) ≠ .ok (.int i) :=
    fun h => by cases h
  have herror (f : Fault) : (Except.error f : Except Fault Value) ≠ .ok (.int i) :=
    fun h => by cases h
  have hite {p : Prop} [Decidable p] {v w : Except Fault Value} (hv : v ≠ .ok (.int i))
      (hw : w ≠ .ok (.int i)) : (if p then v else w) ≠ .ok (.int i) := by
    by_cases hp : p
    · rwa [if_pos hp]
    · rwa [if_neg hp]
  unfold Value.realPow
  refine hite (hreal _) (hite (hreal _) (hite (hreal _) (hite ?_ (hite ?_ (hite ?_ (hite ?_ ?_))))))
  -- An infinite exponent, an infinite base, and the base zero.
  · exact hite (hreal _) (hite (hreal _) (hreal _))
  · exact hite (hreal _) (hreal _)
  · exact hite (herror _) (hreal _)
  -- A negative base with a broken exponent.
  · intro h
    obtain ⟨p, -, hp⟩ := Outcome.map_eq_ok.mp h
    cases hp
  · exact hite (hreal _) (hite (herror _) (hreal _))

/-- A root of a whole number is never a whole number. -/
theorem Command.root_ne_int (m j i : Int) :
    Command.root.apply (.int m) (.int j) ≠ .ok (.int i) := by
  intro h
  obtain ⟨q, hq, h⟩ := Outcome.bind_eq_ok.mp h
  have hdiv : (Value.intDiv 1 j >>= fun x => .ok (.real x)) = .ok q := hq
  obtain ⟨x, -, hx⟩ := Outcome.bind_eq_ok.mp hdiv
  cases hx
  obtain ⟨p, hp, h⟩ := Outcome.bind_eq_ok.mp h
  have hpair : (Value.floatOfInt m).map (fun y => .reals y x) = .ok p := hp
  obtain ⟨y, -, rfl⟩ := Outcome.map_eq_ok.mp hpair
  exact Value.realPow_ne_int y x i h

/-! ## Stores that tell assignments apart -/

theorem Source.read_longer {src : Source} {s : Store} {n : Int} {xs : List Value} {w : Value}
    (hget : s.get? n = some xs) (h : src.read s = .ok w) (z : Value) :
    src.read (s.put n (xs ++ [z])) = .ok w := by
  cases src with
  | value m => exact h
  | cell m c =>
    rw [read_cell_eq_ok] at h ⊢
    obtain ⟨hm, ys, hys, hc⟩ := h
    refine ⟨hm, ?_⟩
    by_cases hmn : m = n
    · subst hmn
      obtain rfl := Option.some.inj (hget.symm.trans hys)
      obtain ⟨hlt, -⟩ := List.getElem?_eq_some_iff.mp hc
      exact ⟨_, Store.get?_put_self _ hget, by rw [List.getElem?_append_left hlt, hc]⟩
    · exact ⟨ys, by rw [Store.get?_put, if_neg hmn, hys], hc⟩

/-- On some store a source that can be read, and whose value can be added, gives a whole number, and
so does every cell of a list that is long enough. -/
theorem Source.exists_ones {src : Source} {s : Store} {v w u : Value} (hw : src.read s = .ok w)
    (hu : v.add w = .ok u) (n : Int) (k : Nat) :
    ∃ (t : Store) (m : Nat) (j : Int), t.get? n = some (List.replicate m (.int 1)) ∧ k < m ∧
      src.read t = .ok (.int j) := by
  cases src with
  | value i =>
    cases i with
    | none =>
      cases hw
      have hpair : v.pair .empty = .error .wrongKind := by cases v <;> rfl
      simp only [Option.elim_none, Value.add, hpair] at hu
      cases hu
    | some i =>
      refine ⟨⟨[(n, List.replicate (k + 1) (.int 1))]⟩, k + 1, i, ?_, Nat.lt_succ_self k, rfl⟩
      simp [Store.get?]
  | cell n' c =>
    obtain ⟨h18, -⟩ := read_cell_eq_ok.mp hw
    refine ⟨⟨[(n, List.replicate (k + c + 1) (.int 1)), (n', List.replicate (k + c + 1) (.int 1))]⟩,
      k + c + 1, 1, ?_, by omega,
        read_cell_eq_ok.mpr ⟨h18, List.replicate (k + c + 1) (.int 1), ?_, ?_⟩⟩
    · simp [Store.get?]
    · by_cases hn : n = n'
      · simp [Store.get?, hn]
      · have hne : (n == n') = false := by simpa using hn
        simp [Store.get?, List.find?, hne]
    · rw [List.getElem?_replicate, if_pos (by omega)]

namespace Assignment

variable {a b : Assignment}

/-- Two assignments with the same list, cell and source. -/
structure Aligned (a b : Assignment) : Prop where
  list : a.list = b.list
  cell : a.cell = b.cell
  source : a.source = b.source

theorem Aligned.symm (h : a.Aligned b) : b.Aligned a := ⟨h.list.symm, h.cell.symm, h.source.symm⟩

theorem Aligned.ready (h : a.Aligned b) {s : Store} {xs : List Value} (hs : a.Ready s xs) :
    b.Ready s xs := by
  rw [Ready, ← h.list, ← h.cell]
  exact hs

/-- One cell and the whole list: a further cell tells them apart. -/
theorem not_alike_of_list (ha : a.Cellwise) (hb : b.Cellwise) (hab : a.Aligned b)
    (hcommand : a.command = b.command) (hfa : a.form ≠ some .list) (hfb : b.form = some .list)
    {s t : Store} (hok : a.step.result s = .ok t) : ∃ s, a.step.result s ≠ b.step.result s := by
  obtain ⟨s, xs, hs, hok⟩ := exists_ready hok ha.appends
  obtain ⟨w, v, u, hw, hv, hu, -⟩ := (ha.result_cell_eq_ok hfa hs).mp hok
  obtain ⟨hlt, -⟩ := List.getElem?_eq_some_iff.mp hv
  obtain ⟨z, hz⟩ := Command.exists_moved ha.cells w
  have hs' : a.Ready (s.put a.list (xs ++ [z])) (xs ++ [z]) :=
    ⟨Store.get?_put_self _ hs.1, by simp; omega⟩
  have hok' := (ha.result_cell_eq_ok hfa hs').mpr ⟨w, v, u, Source.read_longer hs.1 hw z,
    by rw [List.getElem?_append_left hlt, hv], hu, rfl⟩
  refine ⟨s.put a.list (xs ++ [z]), fun hsame => hz ?_⟩
  rw [hok'] at hsame
  obtain ⟨w', hw', ys, hys, hcells⟩ := hb.cells_of_result hfb (hab.ready hs') hsame.symm
  rw [← hab.source, Source.read_longer hs.1 hw z] at hw'
  cases hw'
  rw [← hab.list, Store.get?_put_self _ hs'.1] at hys
  cases hys
  obtain ⟨z', hz', hlast⟩ := hcells xs.length z (by simp)
  rw [List.getElem?_set_ne (by omega)] at hlast
  obtain rfl : z = z' := by simpa using hlast
  rw [effect, hcommand]
  exact hz'

/-- No command and a root: whole numbers tell them apart. -/
theorem not_alike_of_root (ha : a.Cellwise) (hb : b.Cellwise) (hab : a.Aligned b)
    (hca : a.act = none) (hcb : b.command = some .root) {s t : Store}
    (hok : a.step.result s = .ok t) : ∃ s, a.step.result s ≠ b.step.result s := by
  have hfa : a.form ≠ some .list := by simp [form, hca]
  have heffect : a.effect = .add := by simp [effect, command, hca]
  have hroot : b.effect = .root := by simp [effect, hcb]
  obtain ⟨s, xs, hs, hok⟩ := exists_ready hok ha.appends
  obtain ⟨w, v, u, hw, -, hu, -⟩ := (ha.result_cell_eq_ok hfa hs).mp hok
  rw [heffect] at hu
  obtain ⟨t, m, j, hget, hlt, hj⟩ := Source.exists_ones hw hu a.list a.cell
  have ht : a.Ready t (List.replicate m (.int 1)) := ⟨hget, by simp; omega⟩
  have hone : (List.replicate m (Value.int 1))[a.cell]? = some (.int 1) := by
    rw [List.getElem?_replicate, if_pos hlt]
  have hsum : a.effect.apply (.int 1) (.int j) = .ok (.int (1 + j)) := by
    rw [heffect]
    rfl
  have hok' := (ha.result_cell_eq_ok hfa ht).mpr ⟨_, _, _, hj, hone, hsum, rfl⟩
  refine ⟨t, fun hsame => ?_⟩
  rw [hok'] at hsame
  -- The cell has become a whole number, which no root is.
  rw [hab.cell] at hone
  obtain ⟨w', hw', ys, hys, u', hu', hcell⟩ := hb.cell_of_result (hab.ready ht) hsame.symm hone
  rw [← hab.source, hj] at hw'
  cases hw'
  rw [← hab.list, Store.get?_put_self _ hget] at hys
  cases hys
  rw [← hab.cell, List.getElem?_set_self (by simpa using hlt)] at hcell
  cases hcell
  rw [hroot] at hu'
  exact Command.root_ne_int _ _ _ hu'

/-- Assignments with the same line that are not from list to list: nothing is untold between them,
or one is for one cell and the other for the whole list, or one has no action and the other is a
root. -/
theorem untold_cases (ha : a.Drawn) (hb : b.Drawn) (hpa : Act.pairs a.act = false)
    (hpb : Act.pairs b.act = false) (hshown : a.shown = b.shown) :
    a.untold = b.untold ∨
    (a.Cellwise ∧ b.Cellwise ∧ a.Aligned b ∧
      ((a.command = b.command ∧ (a.form = some .list ↔ b.form ≠ some .list)) ∨
        (a.act = none ∧ b.command = some .root) ∨ b.act = none ∧ a.command = some .root)) := by
  have hchoices : ∀ x ∈ Act.choices, ∀ y ∈ Act.choices, Act.pairs x = false → Act.pairs y = false →
      (x.bind (·.command)).filter (· ≠ .root) = (y.bind (·.command)).filter (· ≠ .root) →
      ((x.bind (·.command) == some .root) = (y.bind (·.command) == some .root) ∧
        x.bind (·.form) = y.bind (·.form)) ∨
      (((x.bind (·.command)).getD .add).cellwise = true ∧
        ((y.bind (·.command)).getD .add).cellwise = true ∧
        ((x.bind (·.command) = y.bind (·.command) ∧
            (x.bind (·.form) = some .list ↔ y.bind (·.form) ≠ some .list)) ∨
          (x = none ∧ y.bind (·.command) = some .root) ∨
          y = none ∧ x.bind (·.command) = some .root)) := by decide +kernel
  obtain ⟨hroot, hform⟩ | ⟨hca, hcb, hcases⟩ := hchoices _ ha.mem_choices _ hb.mem_choices hpa hpb
    (congrArg Listing.Shown.command hshown)
  · exact .inl (Prod.ext hroot hform)
  · have hb' : b.Cellwise := ⟨hb, hpb, hcb⟩
    refine .inr ⟨⟨ha, hpa, hca⟩, hb', ⟨congrArg Listing.Shown.list hshown, ?_,
      congrArg Listing.Shown.source hshown⟩, hcases⟩
    exact (cell_of_shown hshown hb'.appends).1

/-- **Assignments with the same line that do the same**, and that can be carried out at all, have
nothing untold between them. -/
theorem untold_of_result (ha : a.Drawn) (hb : b.Drawn) (hpa : Act.pairs a.act = false)
    (hpb : Act.pairs b.act = false) (hshown : a.shown = b.shown)
    (hsame : ∀ s, a.step.result s = b.step.result s) {s t : Store} (hok : a.step.result s = .ok t) :
    a.untold = b.untold := by
  have hok' : b.step.result s = .ok t := (hsame s).symm.trans hok
  obtain huntold | ⟨hca, hcb, hab, hcases⟩ := untold_cases ha hb hpa hpb hshown
  · exact huntold
  · exfalso
    obtain ⟨hcommand, hform⟩ | ⟨hnone, hroot⟩ | ⟨hnone, hroot⟩ := hcases
    · by_cases hfa : a.form = some .list
      · obtain ⟨u, hu⟩ := not_alike_of_list hcb hca hab.symm hcommand.symm (hform.mp hfa) hfa hok'
        exact hu (hsame u).symm
      · obtain ⟨u, hu⟩ := not_alike_of_list hca hcb hab hcommand hfa
          (by by_contra hfb; exact hfa (hform.mpr hfb)) hok
        exact hu (hsame u)
    · obtain ⟨u, hu⟩ := not_alike_of_root hca hcb hab hnone hroot hok
      exact hu (hsame u)
    · obtain ⟨u, hu⟩ := not_alike_of_root hcb hca hab.symm hnone hroot hok'
      exact hu (hsame u).symm

end Assignment

/-! ## Data tokens -/

namespace DataToken

variable {d e : DataToken} {N : List Int} {s : Store} {f : Fault}

theorem result_of_lacks (hd : Token.Sound N (.data d)) (hs : s.numbers = N)
    (h : (Token.data d).lacks N = some f) : d.step.result s = .error f := by
  obtain ⟨t, ht⟩ : ∃ t, Step.perform .proceed d.step s = .error f t := Token.data_lacks hd h hs
  rw [Step.result_eq, Machine.ending, ht]

theorem not_isMissing_of_result (hd : Token.Sound N (.data d)) (hs : s.numbers = N)
    (h : (Token.data d).lacks N = none) (hf : d.step.result s = .error f) :
    f.isMissing = false := by
  have hkept : Machine.Kept N (Step.perform .proceed d.step s) := Token.data_finds hd h s hs
  rw [Step.result_eq, Machine.ending] at hf
  cases hperform : Step.perform .proceed d.step s with
  | ok a t =>
    rw [hperform] at hf
    cases hf
  | error f' t =>
    rw [hperform] at hf hkept
    cases hf
    exact hkept

/-- Data tokens that do the same are both from list to list or both not: only an action from list to
list fails for want of a list to pair with. -/
theorem pairs_of_result (hd : d.Told) (he : e.Told) (hsame : ∀ s, d.step.result s = e.step.result s)
    (hp : Act.pairs d.assignment.act = true) : Act.pairs e.assignment.act = true := by
  let N := (Token.data d).lists ++ (Token.data e).lists
  have hsd : Token.Sound N (.data d) :=
    ⟨fun _ h => Token.data.inj h ▸ hd, fun n hn => by simp [N, hn]⟩
  have hse : Token.Sound N (.data e) :=
    ⟨fun _ h => Token.data.inj h ▸ he, fun n hn => by simp [N, hn]⟩
  have hN : Store.numbers ⟨N.map fun n => (n, [])⟩ = N := by simp [Store.numbers, Function.comp_def]
  have hresult := hsame ⟨N.map fun n => (n, [])⟩
  obtain ⟨hlacks, -⟩ | ⟨-, hpd, -⟩ | ⟨-, hpd, -⟩ := hd.lacks_cases (N := N)
  · rw [result_of_lacks hsd hN hlacks] at hresult
    obtain ⟨-, hpe⟩ | ⟨hlacks', -⟩ | ⟨hlacks', -⟩ := he.lacks_cases (N := N)
    · exact hpe
    · rw [result_of_lacks hse hN hlacks'] at hresult
      simp at hresult
    · cases not_isMissing_of_result hse hN hlacks' hresult.symm
  · exact absurd (hp.symm.trans hpd) Bool.noConfusion
  · exact absurd (hp.symm.trans hpd) Bool.noConfusion

end DataToken

/-! ## Programs that are accepted -/

/-- A data token of a program that is accepted. -/
def DataToken.Accepted (d : DataToken) : Prop :=
  ∃ limit text gs, Program.parseWithin limit text = .ok gs ∧ ∃ g ∈ gs, Token.data d ∈ g.tokens

namespace DataToken.Accepted

variable {d e : DataToken}

theorem told (h : d.Accepted) : d.Told := by
  obtain ⟨limit, text, gs, hparse, g, hg, hd⟩ := h
  exact Program.told_of_parse hparse hg hd

theorem step_eq (h : d.Accepted) : d.step = d.assignment.step := by
  obtain ⟨limit, text, gs, hparse, g, hg, hd⟩ := h
  exact (Program.assignment_of_parse hparse hg hd).1

theorem drawn (h : d.Accepted) : d.assignment.Drawn := by
  obtain ⟨limit, text, gs, hparse, g, hg, hd⟩ := h
  exact (Program.assignment_of_parse hparse hg hd).2

theorem line_eq (h : d.Accepted) {l : String} (hl : Listing.line (.of d.step) = .ok l) :
    l = d.assignment.shown.text := by
  rw [h.step_eq] at hl
  exact (Listing.line_eq_ok.mp hl).1

/-- **Data tokens with the same line that do the same**, and that can be carried out at all, have
nothing untold between them. -/
theorem untold_of_result (hd : d.Accepted) (he : e.Accepted)
    (hshown : d.assignment.shown = e.assignment.shown)
    (hsame : ∀ s, d.step.result s = e.step.result s) {s t : Store} (hok : d.step.result s = .ok t) :
    d.assignment.untold = e.assignment.untold := by
  have hpaired : ∀ x ∈ Act.choices, ∀ y ∈ Act.choices, Act.pairs x = true → Act.pairs y = true →
      (x.bind (·.command)).filter (· ≠ .root) = (y.bind (·.command)).filter (· ≠ .root) →
      (x.bind (·.command) == some .root) = (y.bind (·.command) == some .root) ∧
        x.bind (·.form) = y.bind (·.form) := by decide +kernel
  cases hp : Act.pairs d.assignment.act with
  | true =>
    obtain ⟨hroot, hform⟩ := hpaired _ hd.drawn.mem_choices _ he.drawn.mem_choices hp
      (pairs_of_result hd.told he.told hsame hp) (congrArg Listing.Shown.command hshown)
    exact Prod.ext hroot hform
  | false =>
    have hp' : Act.pairs e.assignment.act = false := by
      rw [← Bool.not_eq_true]
      intro hp'
      rw [pairs_of_result he.told hd.told (fun s => (hsame s).symm) hp'] at hp
      cases hp
    rw [hd.step_eq, he.step_eq] at hsame
    rw [hd.step_eq] at hok
    exact Assignment.untold_of_result hd.drawn he.drawn hp hp' hshown hsame hok

end DataToken.Accepted

namespace Listing

/-- **How far a line is faithful.** Take two data tokens of programs that are accepted. Their lines
are the same exactly if they have the same list, the same command but for a root, which is not told,
the same source, and the same cell unless the command puts its value at the end of the list. Two
tokens with the same line do the same on every store exactly if neither or both are roots and they
apply to the same, one cell, the whole list or a list and another one; or if neither can ever be
carried out, and they always fail alike. -/
theorem same_line_iff {d e : DataToken} (hd : d.Accepted) (he : e.Accepted) {l l' : String}
    (hl : line (.of d.step) = .ok l) (hl' : line (.of e.step) = .ok l') :
    (l = l' ↔ d.assignment.shown = e.assignment.shown) ∧
    (l = l' → ((∀ s, d.step.result s = e.step.result s) ↔
      d.assignment.untold = e.assignment.untold ∨
        ∀ s, ∃ f, d.step.result s = .error f ∧ e.step.result s = .error f)) := by
  have hshown : l = l' ↔ d.assignment.shown = e.assignment.shown := by
    rw [hd.line_eq hl, he.line_eq hl']
    exact ⟨shown_of_text hd.drawn he.drawn, fun h => by rw [h]⟩
  refine ⟨hshown, fun hsame => ⟨fun hresult => ?_, fun h s => ?_⟩⟩
  · by_cases hok : ∃ s t, d.step.result s = .ok t
    · obtain ⟨s, t, hok⟩ := hok
      exact .inl (hd.untold_of_result he (hshown.mp hsame) hresult hok)
    · right
      intro s
      cases hf : d.step.result s with
      | ok t => exact absurd ⟨s, t, hf⟩ hok
      | error f => exact ⟨f, rfl, (hresult s).symm.trans hf⟩
  · obtain huntold | hfails := h
    · rw [hd.step_eq, he.step_eq,
        Assignment.result_of_shown_untold hd.drawn he.drawn (hshown.mp hsame) huntold]
    · obtain ⟨f, hf, hf'⟩ := hfails s
      rw [hf, hf']

/-! ## Lines that are not faithful -/

theorem fits_of_lt_ten {n : Int} (h : n.natAbs < 10) : Value.fits n = true := by
  unfold Value.fits Value.tooLong
  -- The power itself is out of reach.
  obtain ⟨k, hk, hpos⟩ : ∃ k, 4300 = k ∧ 1 ≤ k := ⟨4300, rfl, by decide⟩
  rw [hk, decide_eq_true_iff]
  exact h.trans_le (Nat.pow_le_pow_right (show 0 < 10 by decide) hpos)

/-- The assignments of a drawing. -/
def assignments (text : String) : Option (List Assignment) :=
  (Program.parseWithin nestingLimit text).toOption.map fun gs => gs.flatMap fun g =>
    g.tokens.flatMap fun
      | .data d => [d.assignment]
      | .question _ => []

theorem exists_accepted {text : String} {as : List Assignment} (h : assignments text = some as)
    {a : Assignment} (ha : a ∈ as) :
    ∃ d : DataToken, d.Accepted ∧ d.assignment = a ∧ d.step = a.step := by
  obtain ⟨gs, hgs, rfl⟩ := Option.map_eq_some_iff.mp h
  obtain ⟨g, hg, ha⟩ := List.mem_flatMap.mp ha
  obtain ⟨t, ht, ha⟩ := List.mem_flatMap.mp ha
  cases t with
  | data d =>
    obtain rfl := List.mem_singleton.mp ha
    have hd : d.Accepted := ⟨_, text, gs, Outcome.toOption_eq_some.mp hgs, g, hg, ht⟩
    exact ⟨d, hd, rfl, hd.step_eq⟩
  | question q => cases ha

/-- The cell `0` of list `1` is doubled. -/
def doubling (form : Form) : Assignment :=
  ⟨1, 0, some ⟨some .multiply, some form, 14⟩, .value (some 2)⟩

theorem exists_doubling_cell :
    ∃ d : DataToken, d.Accepted ∧ d.assignment = doubling .element ∧
      d.step = (doubling .element).step := by
  have h : assignments "╵╰──\n ╭\n │\n │ ╷" = some [doubling .element] := by cbv
  exact exists_accepted h List.mem_cons_self

/-- An action that ends sideways is for the whole list. -/
theorem exists_doubling_list :
    ∃ d : DataToken, d.Accepted ∧ d.assignment = doubling .list ∧
      d.step = (doubling .list).step := by
  have h : assignments "╵╰──\n ╭\n │\n │\n ╰─ ╷" = some [doubling .list] := by cbv
  exact exists_accepted h List.mem_cons_self

theorem line_doubling (form : Form) : line (.of (doubling form).step) = .ok "list1[0] *= 2\n" := by
  have hshown : (doubling form).shown = ⟨1, some 0, some .multiply, .value (some 2)⟩ := rfl
  refine line_eq_ok.mpr ⟨?_, fits_of_lt_ten (by decide)⟩
  rw [hshown]
  cbv

/-- One cell doubled, and all cells of its list. -/
theorem same_line_iff_doubled : ∃ d e : DataToken, d.Accepted ∧ e.Accepted ∧
    line (.of d.step) = .ok "list1[0] *= 2\n" ∧ line (.of e.step) = .ok "list1[0] *= 2\n" ∧
    d.assignment.shown = e.assignment.shown ∧ ¬ ∀ s, d.step.result s = e.step.result s := by
  obtain ⟨d, hd, hda, hds⟩ := exists_doubling_cell
  obtain ⟨e, he, hea, hes⟩ := exists_doubling_list
  have hline : line (.of d.step) = .ok "list1[0] *= 2\n" := hds ▸ line_doubling .element
  have hline' : line (.of e.step) = .ok "list1[0] *= 2\n" := hes ▸ line_doubling .list
  obtain ⟨hshown, hresult⟩ := same_line_iff hd he hline hline'
  refine ⟨d, e, hd, he, hline, hline', hshown.mp rfl, fun hsame => ?_⟩
  obtain huntold | hfails := (hresult rfl).mp hsame
  · rw [hda, hea] at huntold
    exact absurd huntold (by decide)
  · obtain ⟨f, hf, -⟩ := hfails ⟨[(1, [.int 3])]⟩
    rw [hds] at hf
    cases hf

/-- **Two slips of the listing.** The line of an action for a whole list is that of the action for
one cell, and the line of a root is that of a token without an action. -/
theorem same_line_differs :
    (∃ d e : DataToken, d.Accepted ∧ e.Accepted ∧
      line (.of d.step) = .ok "list1[0] *= 2\n" ∧ line (.of e.step) = .ok "list1[0] *= 2\n" ∧
      d.step.result ⟨[(1, [.int 3, .int 5])]⟩ = .ok ⟨[(1, [.int 6, .int 5])]⟩ ∧
      e.step.result ⟨[(1, [.int 3, .int 5])]⟩ = .ok ⟨[(1, [.int 6, .int 10])]⟩) ∧
    ∃ d e : DataToken, d.Accepted ∧ e.Accepted ∧
      line (.of d.step) = .ok "list1[0] += 2\n" ∧ line (.of e.step) = .ok "list1[0] += 2\n" ∧
      ∃ s, d.step.result s ≠ e.step.result s := by
  constructor
  · obtain ⟨d, hd, -, hds⟩ := exists_doubling_cell
    obtain ⟨e, he, -, hes⟩ := exists_doubling_list
    refine ⟨d, e, hd, he, ?_⟩
    rw [hds, hes]
    exact ⟨line_doubling .element, line_doubling .list, rfl, rfl⟩
  · have hplain : assignments "╵╰──\n   ╷" = some [⟨1, 0, none, .value (some 2)⟩] := by cbv
    have hroot : assignments "╵╰──\n  │\n  │\n ╭╯  ╷" =
        some [⟨1, 0, some ⟨some .root, some .element, 14⟩, .value (some 2)⟩] := by cbv
    obtain ⟨d, hd, hda, hds⟩ := exists_accepted hplain List.mem_cons_self
    obtain ⟨e, he, hea, hes⟩ := exists_accepted hroot List.mem_cons_self
    refine ⟨d, e, hd, he, ?_⟩
    have hok : d.step.result ⟨[(1, [])]⟩ = .ok ⟨[(1, [.int 2])]⟩ := by
      rw [hds]
      rfl
    rw [hds] at hok ⊢
    rw [hes]
    refine ⟨line_eq_ok.mpr ⟨by rfl, fits_of_lt_ten (by decide)⟩,
      line_eq_ok.mpr ⟨by rfl, fits_of_lt_ten (by decide)⟩, ?_⟩
    exact Assignment.not_alike_of_root ⟨hda ▸ hd.drawn, rfl, rfl⟩ ⟨hea ▸ he.drawn, rfl, rfl⟩
      ⟨rfl, rfl, rfl⟩ rfl rfl hok

end Listing

end StrandScript
