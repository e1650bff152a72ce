import Mathlib.Data.Rat.Floor
import StrandScript.Proofs.Corners
import StrandScript.Proofs.StrayFaults

/-!
# The sums of a strand

What a strand says by its length is told by the path as it is drawn: along a row each straight line
counts the number of its row, to the right for it and to the left against it, and along a column the
number of the column, downward for it and upward against it (`strand_sums`). The sums are kept up on
the way and told apart from no sum at all, so a strand that winds back to nothing counts `0`, and
only one without any straight line has no sum.

* `Strand.steps`: the cells of a strand, each with the place that it is entered from.
* `Strand.acrossSum?`, `Strand.downSum?`: the sums of the drawn path.
* `Grid.sumsAfter_eq`: what one cell adds; `Grid.Walks.sums_eq`: what a whole walk does.
-/

namespace StrandScript

/-! ## Sums of a drawn path -/

namespace Strand

/-- Cells that follow `p`, each with the place that it is entered from. -/
def stepsFrom : Pos → List Cell → List (Pos × Cell)
  | _, [] => []
  | p, c :: cs => (p, c) :: stepsFrom c.pos cs

/-- What a cell that is entered from `p` counts along its row. -/
def acrossRun (primes : List Nat) (p : Pos) (c : Cell) : Int :=
  if c.symbol = '─' then
    if c.pos = p.step .right then (primes.getD c.pos.y.toNat 0 : Int)
    else if c.pos = p.step .left then -(primes.getD c.pos.y.toNat 0 : Int)
    else 0
  else 0

/-- What a cell that is entered from `p` counts along its column, for a hook in column `hookX`. -/
def downRun (primes : List Nat) (hookX : Int) (p : Pos) (c : Cell) : Int :=
  if c.symbol = '│' then
    if c.pos = p.step .down then (primes.getD (columnIndex hookX c.pos.x) 0 : Int)
    else if c.pos = p.step .up then -(primes.getD (columnIndex hookX c.pos.x) 0 : Int)
    else 0
  else 0

/-- A straight line along a row, entered along it from `p`. -/
def RunsAcross (p : Pos) (c : Cell) : Prop :=
  c.symbol = '─' ∧ (c.pos = p.step .right ∨ c.pos = p.step .left)

/-- A straight line along a column, entered along it from `p`. -/
def RunsDown (p : Pos) (c : Cell) : Prop :=
  c.symbol = '│' ∧ (c.pos = p.step .down ∨ c.pos = p.step .up)

/-- A straight line, entered along it from `p`. -/
def Runs (p : Pos) (c : Cell) : Prop := RunsAcross p c ∨ RunsDown p c

instance (p : Pos) (c : Cell) : Decidable (RunsAcross p c) := inferInstanceAs (Decidable (_ ∧ _))

instance (p : Pos) (c : Cell) : Decidable (RunsDown p c) := inferInstanceAs (Decidable (_ ∧ _))

instance (p : Pos) (c : Cell) : Decidable (Runs p c) := inferInstanceAs (Decidable (_ ∨ _))

/-- The cells of a strand after its hook, each with the place that it is entered from. -/
def steps (s : Strand) : List (Pos × Cell) := stepsFrom s.hook.pos s.cells

/-- Whether some cell is a straight line that is entered along it. -/
def HasRun (s : Strand) : Prop := ∃ e ∈ s.steps, Runs e.1 e.2

instance (s : Strand) : Decidable s.HasRun := inferInstanceAs (Decidable (∃ e ∈ s.steps, _))

/-- The sum along rows of the drawn path, if there is any run. -/
def acrossSum? (primes : List Nat) (s : Strand) : Option Int :=
  if s.HasRun then some (s.steps.map fun e => acrossRun primes e.1 e.2).sum else none

/-- The sum along columns of the drawn path, if there is any run. -/
def downSum? (primes : List Nat) (s : Strand) : Option Int :=
  if s.HasRun then some (s.steps.map fun e => downRun primes s.hook.pos.x e.1 e.2).sum else none

variable {p : Pos} {c : Cell} {primes : List Nat} {hookX : Int}

theorem acrossRun_of_not (h : ¬ Runs p c) : acrossRun primes p c = 0 := by
  unfold acrossRun
  unfold Runs RunsAcross at h
  grind

theorem downRun_of_not (h : ¬ Runs p c) : downRun primes hookX p c = 0 := by
  unfold downRun
  unfold Runs RunsDown at h
  grind

end Strand

/-- The sums after a run that counts `x` along a row and `y` along a column. -/
def Sums.plus (a : Sums) (x y : Int) : Sums :=
  ⟨some (a.across.getD 0 + x), some (a.down.getD 0 + y)⟩

theorem Sums.plus_plus (a : Sums) (x y x' y' : Int) :
    (a.plus x y).plus x' y' = a.plus (x + x') (y + y') := by
  simp [plus, Int.add_assoc]

/-- The sums after a cell that is entered from a place. -/
def Sums.count (primes : List Nat) (hookX : Int) (a : Sums) (e : Pos × Cell) : Sums :=
  if Strand.Runs e.1 e.2 then
    a.plus (Strand.acrossRun primes e.1 e.2) (Strand.downRun primes hookX e.1 e.2)
  else a

/-- The sums after some cells: those of all runs, if there is any. -/
theorem Sums.foldl_count (primes : List Nat) (hookX : Int) (a : Sums) (es : List (Pos × Cell)) :
    es.foldl (Sums.count primes hookX) a =
      if ∃ e ∈ es, Strand.Runs e.1 e.2 then
        a.plus (es.map fun e => Strand.acrossRun primes e.1 e.2).sum
          (es.map fun e => Strand.downRun primes hookX e.1 e.2).sum
      else a := by
  induction es generalizing a with
  | nil => simp
  | cons e es ih =>
    rw [List.foldl_cons, ih, List.map_cons, List.map_cons, List.sum_cons, List.sum_cons, count]
    simp only [List.exists_mem_cons_iff]
    by_cases he : Strand.Runs e.1 e.2 <;> by_cases hes : ∃ e ∈ es, Strand.Runs e.1 e.2
    · simp only [he, hes, true_or, if_true, plus_plus]
    · have hzero : ∀ f : Pos × Cell → Int, (∀ e, ¬ Strand.Runs e.1 e.2 → f e = 0) →
          (es.map f).sum = 0 := fun f hf => by
        rw [List.map_congr_left fun x hx => hf x fun hx' => hes ⟨x, hx, hx'⟩]
        simp
      rw [hzero _ fun e he => Strand.acrossRun_of_not he,
        hzero _ fun e he => Strand.downRun_of_not he]
      simp only [he, hes, true_or, if_true, if_false, Int.add_zero]
    · rw [Strand.acrossRun_of_not he, Strand.downRun_of_not he]
      simp only [he, hes, or_true, if_true, if_false, Int.zero_add]
    · simp only [he, hes, or_false, if_false]

/-- The sums counted along a strand are those of its drawn path. -/
theorem Sums.count_steps (primes : List Nat) (s : Strand) :
    s.steps.foldl (Sums.count primes s.hook.pos.x) .none =
      ⟨s.acrossSum? primes, s.downSum? primes⟩ := by
  rw [foldl_count]
  by_cases h : s.HasRun
  · have hrun : ∃ e ∈ s.steps, Strand.Runs e.1 e.2 := h
    rw [if_pos hrun, Strand.acrossSum?, Strand.downSum?, if_pos h, if_pos h]
    simp only [plus, none, Option.getD_none, Int.zero_add]
  · have hrun : ¬ ∃ e ∈ s.steps, Strand.Runs e.1 e.2 := h
    rw [if_neg hrun, Strand.acrossSum?, Strand.downSum?, if_neg h, if_neg h, none]

/-- Different directions lead from a place to different places. -/
theorem Pos.step_inj {p : Pos} {d e : Dir} : p.step d = p.step e ↔ d = e := by
  cases d <;> cases e <;> simp [step] <;> omega

/-! ## Sums along a walk -/

namespace Grid

open Strand

variable {g : Grid} {primes : List Nat} {hookX : Int} {p : Pos} {d : Dir} {sums sums' : Sums}

theorem number_eq_ok {i : Nat} {n : Int} (h : Primes.number primes i = .ok n) :
    i < primes.length ∧ n = (primes.getD i 0 : Int) := by
  unfold Primes.number at h
  cases hi : primes[i]? with
  | none =>
    rw [hi] at h
    cases h
  | some k =>
    rw [hi] at h
    cases h
    obtain ⟨hlt, -⟩ := List.getElem?_eq_some_iff.mp hi
    exact ⟨hlt, by rw [List.getD_eq_getElem?_getD, hi, Option.getD_some]⟩

theorem addRun_eq_ok (h : addRun primes hookX sums p d = .ok sums') :
    runIndex hookX p d < primes.length ∧
      sums' = sums.plus
        (if d = .right then (primes.getD p.y.toNat 0 : Int)
          else if d = .left then -(primes.getD p.y.toNat 0 : Int) else 0)
        (if d = .down then (primes.getD (columnIndex hookX p.x) 0 : Int)
          else if d = .up then -(primes.getD (columnIndex hookX p.x) 0 : Int) else 0) := by
  cases d <;>
  · obtain ⟨n, hn, h⟩ := Outcome.bind_eq_ok.mp h
    obtain ⟨hlt, rfl⟩ := number_eq_ok hn
    cases h
    exact ⟨hlt, by simp [Sums.plus, Int.sub_eq_add_neg]⟩

/-- **What one cell adds to the sums**: a straight line that is entered along it counts its number,
and nothing else changes them. -/
theorem sumsAfter_eq {s : Sign} {c : Char} (hs : Sign.ofChar? c = some s) (dir : Option Dir)
    (h : sumsAfter primes hookX sums s (p.step d) (s.through d) = .ok sums') :
    let cell : Cell := ⟨c, p.step d, dir⟩
    (RunsAcross p cell → (p.step d).y.toNat < primes.length) ∧
      (RunsDown p cell → columnIndex hookX (p.step d).x < primes.length) ∧
      sums' = sums.count primes hookX (p, cell) := by
  have hacross : c = '─' ↔ s = .horizontal := by
    constructor
    · rintro rfl
      exact (Option.some.inj hs).symm
    · rintro rfl
      exact List.mem_singleton.mp (Sign.mem_chars_iff.mpr hs)
  have hdown : c = '│' ↔ s = .vertical := by
    constructor
    · rintro rfl
      exact (Option.some.inj hs).symm
    · rintro rfl
      exact List.mem_singleton.mp (Sign.mem_chars_iff.mpr hs)
  simp only [Sums.count, Runs, RunsAcross, RunsDown, acrossRun, downRun, Pos.step_inj, hacross,
    hdown]
  cases s with
  | horizontal =>
    cases d with
    | right =>
      have hrun : addRun primes hookX sums (p.step .right) .right = .ok sums' := h
      obtain ⟨hlt, rfl⟩ := addRun_eq_ok hrun
      exact ⟨fun _ => hlt, by simp, by simp⟩
    | left =>
      have hrun : addRun primes hookX sums (p.step .left) .left = .ok sums' := h
      obtain ⟨hlt, rfl⟩ := addRun_eq_ok hrun
      exact ⟨fun _ => hlt, by simp, by simp⟩
    | up | down =>
      cases h
      simp
  | vertical =>
    cases d with
    | up =>
      have hrun : addRun primes hookX sums (p.step .up) .up = .ok sums' := h
      obtain ⟨hlt, rfl⟩ := addRun_eq_ok hrun
      exact ⟨by simp, fun _ => hlt, by simp⟩
    | down =>
      have hrun : addRun primes hookX sums (p.step .down) .down = .ok sums' := h
      obtain ⟨hlt, rfl⟩ := addRun_eq_ok hrun
      exact ⟨by simp, fun _ => hlt, by simp⟩
    | right | left =>
      cases h
      simp
  | opening | closing | downLeft | downRight | upRight | upLeft | stubLeft | stubRight =>
    cases h
    simp

/-- **What a walk adds to the sums**: what its cells add, one after the other. -/
theorem Walks.sums_eq {cells : List Cell} {stop : Stop}
    (h : g.Walks primes hookX p d sums cells sums' stop) :
    (∀ e ∈ stepsFrom p cells, (RunsAcross e.1 e.2 → e.2.pos.y.toNat < primes.length) ∧
      (RunsDown e.1 e.2 → columnIndex hookX e.2.pos.x < primes.length)) ∧
    sums' = (stepsFrom p cells).foldl (Sums.count primes hookX) sums := by
  induction h with
  | ends hc hs hsums hend hstop =>
    obtain ⟨hacross, hdown, heq⟩ := sumsAfter_eq hs none hsums
    exact ⟨List.forall_mem_singleton.mpr ⟨hacross, hdown⟩, heq⟩
  | goes hc hs he hsums hgo hrest ih =>
    rw [← he] at hsums
    obtain ⟨hacross, hdown, heq⟩ := sumsAfter_eq hs (some _) hsums
    refine ⟨List.forall_mem_cons.mpr ⟨⟨hacross, hdown⟩, ih.1⟩, ?_⟩
    rw [stepsFrom, List.foldl_cons, ← heq]
    exact ih.2

end Grid

/-! ## What strands say -/

/-- A column has its place in the table by half its distance from the hook, rounded down and taken
without its sign. -/
theorem Strand.columnIndex_eq_floor (hookX x : ℤ) :
    (columnIndex hookX x : ℤ) = |⌊((hookX - x : ℤ) : ℚ) / 2⌋| := by
  have hfloor := Rat.floor_intCast_div_natCast (hookX - x) 2
  rw [Nat.cast_ofNat] at hfloor
  rw [hfloor, columnIndex, Int.fdiv_eq_ediv_of_nonneg _ (by decide), Int.natCast_natAbs]
  rfl

/-- Two commands have a variant for lists. -/
theorem Command.forList_eq (c : Command) :
    c.forList = if c = .insert then .append else if c = .pop then .popAppend else c := by
  cases c <;> rfl

/-- What an action strand says: the command of its sum, in the variant for lists unless it acts on
one cell. -/
theorem Meaning.act_of_sum {sums : Sums} {stop : Stop} {m : Meaning}
    (h : Meaning.ofStop .action sums stop = .ok m) :
    ∃ n c scope, m = .act n (if scope = .element then c else c.forList) scope ∧ sums.down = some n ∧
      Command.ofNumber? n = some c := by
  simp only [Meaning.ofStop] at h
  split at h
  · rename_i n c hn hc
    rw [hn, Option.bind_some] at hc
    split at h
    · cases h
      exact ⟨n, c, .listToList stop.pos, by simp, hn, hc⟩
    · split at h
      · cases h
        exact ⟨n, c, .list, by simp, hn, hc⟩
      · cases h
        exact ⟨n, c, .element, by simp, hn, hc⟩
  · split at h <;> cases h

/-- What a data strand says: the sum along rows, or the place where it ends. -/
theorem Meaning.value_of_sum {sums : Sums} {stop : Stop} {m : Meaning}
    (h : Meaning.ofStop .data sums stop = .ok m) : m = .value sums.across ∨ ∃ p, m = .ref p := by
  simp only [Meaning.ofStop] at h
  split at h
  · cases h
    exact .inr ⟨_, rfl⟩
  · cases h
    exact .inl rfl

/-- **Strands say the signed sums of their drawn paths.** In any strand that is read, every run has
its number in the table, by its row or by half the distance of its column from the hook; a data
strand that refers to no place says the sum along rows, and an action strand the sum along columns,
by which its command is found. An action on lists inserts at the end, and pops to append. -/
theorem strand_sums (limit : Nat) (primes : List Nat) (g : Grid) (hooks : List Hook)
    (hhooks : g.pad.hooks = .ok hooks) (h : Hook) (hh : h ∈ hooks) (s : Strand)
    (hs : Strand.ofHook limit primes g.pad h = .ok s) :
    (∀ e ∈ s.steps, (Strand.RunsAcross e.1 e.2 → e.2.pos.y.toNat < primes.length) ∧
      (Strand.RunsDown e.1 e.2 → Strand.columnIndex h.pos.x e.2.pos.x < primes.length) ∧
      (Strand.columnIndex h.pos.x e.2.pos.x : ℤ) = |⌊((h.pos.x - e.2.pos.x : ℤ) : ℚ) / 2⌋|) ∧
    (h.kind = .data → s.meaning = .value (s.acrossSum? primes) ∨ ∃ p, s.meaning = .ref p) ∧
    (h.kind = .action → ∃ n c scope, s.downSum? primes = some n ∧ Command.ofNumber? n = some c ∧
      s.meaning = .act n
        (if scope = .element then c
          else if c = .insert then .append
          else if c = .pop then .popAppend
          else c) scope) := by
  have hrect := Grid.rectangular_pad g
  have hhook := Grid.isHook_of_hooksAt hrect (fun _ ha => Grid.mem_cells.mp ha) hhooks h hh
  obtain ⟨c, hc, -⟩ := Option.bind_eq_some_iff.mp hhook.sign
  obtain ⟨⟨cells, sums, stop⟩, hwalk, hk⟩ := Outcome.bind_eq_ok.mp hs
  obtain ⟨m, hm, hk⟩ := Outcome.bind_eq_ok.mp hk
  cases hk
  obtain ⟨hindex, hsums⟩ := (Grid.walks_of_walk hrect hc hwalk).sums_eq
  replace hsums : sums = ⟨Strand.acrossSum? primes ⟨h, cells, m⟩,
      Strand.downSum? primes ⟨h, cells, m⟩⟩ := hsums.trans (Sums.count_steps primes ⟨h, cells, m⟩)
  rw [hsums] at hm
  refine ⟨fun e he => ?_, fun hkind => ?_, fun hkind => ?_⟩
  · exact ⟨(hindex e he).1, (hindex e he).2, Strand.columnIndex_eq_floor _ _⟩
  · rw [hkind] at hm
    exact Meaning.value_of_sum hm
  · rw [hkind] at hm
    obtain ⟨n, c, scope, hact, hn, hc⟩ := Meaning.act_of_sum hm
    exact ⟨n, c, scope, hn, hc, by rw [← Command.forList_eq, hact]⟩

/-- A data strand that winds back, and below it an action strand that ends sideways, two columns
from its hook. -/
def woundDrawing : Grid :=
  ["╰──╮".toList, " ──╯".toList, "╭".toList, "│".toList, "╰─╮".toList, "  │".toList, "  ╰─".toList]

/-- The data strand runs twice to the right in row `0` and twice to the left in row `1`; the action
strand runs down the column of its hook, for `1`, and the second column after it, for `2`, and acts
on the list. -/
theorem strand_sums_wound :
    woundDrawing.pad.hooks =
      .ok [⟨.upRight, ⟨0, 0⟩, .right, .data⟩, ⟨.downRight, ⟨0, 2⟩, .down, .action⟩] ∧
    (∃ s, Strand.ofHook nestingLimit [1, 2, 3, 5, 7, 11, 13] woundDrawing.pad
        ⟨.upRight, ⟨0, 0⟩, .right, .data⟩ = .ok s ∧
      s.meaning = .value (some (-2)) ∧ s.acrossSum? [1, 2, 3, 5, 7, 11, 13] = some (-2)) ∧
    ∃ s, Strand.ofHook nestingLimit [1, 2, 3, 5, 7, 11, 13] woundDrawing.pad
        ⟨.downRight, ⟨0, 2⟩, .down, .action⟩ = .ok s ∧
      s.meaning = .act 3 .popAppend .list ∧ s.downSum? [1, 2, 3, 5, 7, 11, 13] = some 3 ∧
      Command.ofNumber? 3 = some .pop := by
  have hhooks : woundDrawing.pad.hooks =
      .ok [⟨.upRight, ⟨0, 0⟩, .right, .data⟩, ⟨.downRight, ⟨0, 2⟩, .down, .action⟩] := by
    decide +kernel
  have hdata : (Strand.ofHook nestingLimit [1, 2, 3, 5, 7, 11, 13] woundDrawing.pad
      ⟨.upRight, ⟨0, 0⟩, .right, .data⟩).map (·.meaning) = .ok (.value (some (-2))) := by
    decide +kernel
  have haction : (Strand.ofHook nestingLimit [1, 2, 3, 5, 7, 11, 13] woundDrawing.pad
      ⟨.downRight, ⟨0, 2⟩, .down, .action⟩).map (·.meaning) = .ok (.act 3 .popAppend .list) := by
    decide +kernel
  obtain ⟨s, hs, hvalue⟩ := Outcome.map_eq_ok.mp hdata
  obtain ⟨t, ht, hact⟩ := Outcome.map_eq_ok.mp haction
  obtain ⟨-, hsum, -⟩ := strand_sums _ _ _ _ hhooks _ List.mem_cons_self s hs
  obtain ⟨-, -, hcommand⟩ := strand_sums _ _ _ _ hhooks _ (by simp) t ht
  refine ⟨hhooks, ⟨s, hs, hvalue, ?_⟩, t, ht, hact, ?_, rfl⟩
  · obtain h | ⟨p, h⟩ := hsum rfl
    · rw [hvalue] at h
      exact (Meaning.value.inj h).symm
    · rw [hvalue] at h
      cases h
  · obtain ⟨n, c, scope, hdown, -, h⟩ := hcommand rfl
    rw [hact] at h
    rw [hdown, (Meaning.act.inj h).1]

end StrandScript
