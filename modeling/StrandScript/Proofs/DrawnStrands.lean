import Mathlib.Tactic.Abel
import StrandScript.Drawing.Picture
import StrandScript.Proofs.Arrangement
import StrandScript.Proofs.Overlap
import StrandScript.Proofs.PenMoves
import StrandScript.Proofs.TokenFields

/-!
# Drawn strands

The line of a strand is drawn from the middle of one side of a cell to the middle of another, so
that after each cell the pen stands in the middle of the side where the strand leaves it. This
carries over from cell to cell along the walk of the strand (`Pen.draws_walk`), and holds from the
hook on for data and action strands. The strands of a question are drawn half a cell to the left of
it, all along (`drawn_at_middle_iff`).

* `Pen.exit`: the middle of a side.
* `Strand.sideAfter`: the side by which a strand leaves its hook or one of its cells.
* `Pen.Draws`: lines that are drawn, together with the columns they reach.
-/

namespace StrandScript

open PathCommand

/-! ## Sides in the drawing -/

/-- The side by which a strand leaves a cell, after a cell that it left by `a`. -/
def Side.after (a : Side) (c : Cell) : Side := ⟨c.pos, c.dir.getD a.dir⟩

namespace Strand

/-- The side by which a strand leaves its hook, or the last of its first `k` cells. -/
def sideAfter (s : Strand) (k : Nat) : Side := (s.cells.take k).foldl Side.after s.hook.side

/-- A strand with its first `k` cells only. -/
def upTo (s : Strand) (k : Nat) : Strand := { s with cells := s.cells.take k }

@[simp] theorem hook_upTo (s : Strand) (k : Nat) : (s.upTo k).hook = s.hook := rfl

end Strand

namespace Pen

variable (pen : Pen ℚ)

/-- The upper left corner of a place. -/
def corner (p : Pos) : ℚ × ℚ := (p.x * pen.width, p.y * pen.height)

/-- The middle of a side. -/
def exit (a : Side) : ℚ × ℚ := pen.corner a.pos + pen.middle + pen.halfStep a.dir

theorem corner_add (x y dx dy : Int) :
    pen.corner ⟨x + dx, y + dy⟩ = pen.corner ⟨dx, dy⟩ + pen.corner ⟨x, y⟩ := by
  simp only [corner, Prod.mk_add_mk]
  push_cast
  congr 1 <;> ring

theorem corner_step (p : Pos) (d : Dir) :
    pen.corner (p.step d) = pen.corner p + (pen.halfStep d + pen.halfStep d) := by
  cases d with
  | up | down | left | right =>
    simp only [corner, Pos.step, halfStep, Dir.across, Dir.below, Prod.mk_add_mk]
    push_cast
    congr 1 <;> ring

/-- A side has the same middle from either of its places. -/
theorem exit_back (a : Side) : pen.exit a.back = pen.exit a := by
  simp only [exit, Side.back, corner_step, halfStep_opposite]
  abel

/-- From the middle of a side to the middle of a side of the next place. -/
theorem exit_step (a : Side) (e : Dir) :
    pen.exit ⟨a.pos.step a.dir, e⟩ = pen.exit a + (pen.halfStep a.dir + pen.halfStep e) := by
  rw [← exit_back pen a]
  simp only [exit, Side.back, halfStep_opposite]
  abel

variable {pen} {columns cols : List Int} {line : List (PathCommand ℚ)} {a : Side} {d : Dir}

/-! ## Lines and the columns they reach -/

/-- Lines are drawn that satisfy `P`, and some column is reached. -/
def Draws (x : Except Fault (List (PathCommand ℚ) × List Int))
    (P : List (PathCommand ℚ) → Prop) : Prop :=
  ∃ cs cols, x = .ok (cs, cols) ∧ cols ≠ [] ∧ P cs

theorem reach_eq_ok (h : columns ≠ []) (n : Int) :
    ∃ cols, reach columns n = .ok cols ∧ cols ≠ [] := by
  unfold reach
  split
  · exact ⟨columns, rfl, h⟩
  · rw [List.getLast?_eq_some_getLast h]
    exact ⟨_, rfl, by simp⟩

/-- Lines one after the other; the second ones are drawn from the columns that the first ones
reach. -/
theorem draws_append {x : Except Fault (List (PathCommand ℚ) × List Int)}
    {f : List Int → Except Fault (List (PathCommand ℚ) × List Int)}
    {P Q R : List (PathCommand ℚ) → Prop} (hx : Draws x P) (hf : ∀ cols ≠ [], Draws (f cols) Q)
    (hR : ∀ cs cs', P cs → Q cs' → R (cs ++ cs')) :
    Draws (do
      let (here, columns) ← x
      let (rest, columns) ← f columns
      return (here ++ rest, columns)) R := by
  obtain ⟨here, cols, rfl, hcols, hP⟩ := hx
  obtain ⟨rest, cols', hrest, hcols', hQ⟩ := hf cols hcols
  refine ⟨here ++ rest, cols', ?_, hcols', hR here rest hP hQ⟩
  change (f cols >>= _) = _
  rw [hrest]
  rfl

theorem draws_cell (hcols : columns ≠ []) {f : Figure} {start : Bool}
    {P : List (PathCommand ℚ) → Prop} (h : ∃ cs, pen.piece f d start = .ok cs ∧ P cs) :
    Draws (pen.cell (some f) (some d) start columns) P := by
  obtain ⟨cs, hcs, hP⟩ := h
  obtain ⟨cols, hreach, hne⟩ := reach_eq_ok hcols (advance f d)
  refine ⟨cs, cols, ?_, hne, hP⟩
  unfold cell
  simp only [hcs, hreach]
  rfl

/-- With exact lengths every cell is drawn. -/
theorem draws_any_cell (pen : Pen ℚ) (hcols : columns ≠ []) (f : Option Figure) (d : Dir)
    (start : Bool) : Draws (pen.cell f (some d) start columns) fun _ => True := by
  cases f with
  | none => exact ⟨[], columns, rfl, hcols, trivial⟩
  | some f =>
    refine draws_cell hcols ?_
    have hok := isOk_piece pen f d start
    cases h : pen.piece f d start with
    | error e =>
      rw [h] at hok
      cases hok
    | ok cs => exact ⟨cs, rfl, trivial⟩

theorem draws_any_cells (pen : Pen ℚ) (hcols : columns ≠ []) (d : Dir) (cells : List Cell) :
    Draws (pen.cells d columns cells) fun _ => True := by
  induction cells generalizing d columns with
  | nil => exact ⟨[], columns, rfl, hcols, trivial⟩
  | cons c cells ih =>
    exact draws_append (draws_any_cell pen hcols _ _ _) (fun cols hcols => ih hcols _)
      fun _ _ _ _ => trivial

/-- The cells after some cells are drawn from the side where the strand leaves these. -/
theorem cells_append {rest : List (PathCommand ℚ)} {cols' : List Int} {cs cs' : List Cell}
    (h : pen.cells a.dir columns cs = .ok (line, cols))
    (h' : pen.cells (cs.foldl Side.after a).dir cols cs' = .ok (rest, cols')) :
    pen.cells a.dir columns (cs ++ cs') = .ok (line ++ rest, cols') := by
  induction cs generalizing a columns line with
  | nil =>
    cases h
    exact h'
  | cons c cs ih =>
    obtain ⟨⟨here, cols₁⟩, hhere, h⟩ := Outcome.bind_eq_ok.mp h
    obtain ⟨⟨more, cols₂⟩, hmore, h⟩ := Outcome.bind_eq_ok.mp h
    cases h
    have hrest := ih (a := a.after c) hmore h'
    refine Outcome.bind_eq_ok.mpr ⟨_, hhere, Outcome.bind_eq_ok.mpr ⟨_, hrest, ?_⟩⟩
    rw [List.append_assoc]
    rfl

/-! ## Along a strand -/

variable {g : Grid} {primes : List Nat} {s : Strand} {k : Nat} {dx dy : Int}

/-- **Each cell that a strand passes leads on to the middle of the side where the strand leaves
it.** -/
theorem draws_walk (pen : Pen ℚ) {hookX : Int} {p : Pos} {sums sums' : Sums} {cells : List Cell}
    {stop : Stop} (h : g.Walks primes hookX p d sums cells sums' stop) (hk : k < cells.length)
    (hcols : columns ≠ []) :
    Draws (pen.cells d columns (cells.take k)) fun cs => ∀ q,
      followAll q cs =
        q + (pen.exit ((cells.take k).foldl Side.after ⟨p, d⟩) - pen.exit ⟨p, d⟩) := by
  -- On the walk: the first cell leads from the middle of one of its sides to that of another, where
  -- the rest of the walk begins, so that the middles in between cancel.
  induction h generalizing k columns with
  | ends =>
    obtain rfl : k = 0 := by simpa using hk
    exact ⟨[], columns, rfl, hcols, fun q => by simp⟩
  | @goes p d c s e _ _ _ cells _ _ hs he _ _ _ ih =>
    cases k with
    | zero => exact ⟨[], columns, rfl, hcols, fun q => by simp⟩
    | succ k =>
      have hfigure : Figure.ofChar? c = some ⟨s, s.chars.head? != some c⟩ := by
        rw [Figure.ofChar?, hs]
        rfl
      have hhere : Draws (pen.cell (Figure.ofChar? c) (some e) false columns) fun cs => ∀ q,
          followAll q cs = q + (pen.halfStep d + pen.halfStep e) := by
        rw [hfigure]
        exact draws_cell hcols (moves_piece pen he _)
      refine draws_append hhere (fun cols hcols => ih (Nat.lt_of_succ_lt_succ hk) hcols) ?_
      intro cs cs' hcs hcs' q
      rw [followAll_append, hcs, hcs', exit_step pen ⟨p, d⟩ e, List.take_succ_cons, List.foldl_cons]
      simp only [Side.after, Option.getD_some]
      abel

theorem strand_eq_ok {r : List (PathCommand ℚ) × List Int} :
    pen.strand dx dy s columns = .ok r ↔ ∃ hook cols rest cols',
      pen.cell (some (Figure.ofSign s.hook.sign)) (some s.hook.dir) true columns =
        .ok (hook, cols) ∧
      pen.cells s.hook.dir cols s.cells = .ok (rest, cols') ∧
      r = (.moveTo ((s.hook.pos.x + dx : Int) * pen.width)
        ((s.hook.pos.y + dy : Int) * pen.height) ::
        hook ++ rest, cols') := by
  constructor
  · intro h
    obtain ⟨x, hx, h⟩ := Outcome.bind_eq_ok.mp h
    obtain ⟨y, hy, h⟩ := Outcome.bind_eq_ok.mp h
    obtain ⟨⟨hook, cols⟩, hhook, h⟩ := Outcome.bind_eq_ok.mp h
    obtain ⟨⟨rest, cols'⟩, hrest, h⟩ := Outcome.bind_eq_ok.mp h
    cases hx
    cases hy
    exact ⟨hook, cols, rest, cols', hhook, hrest, (Except.ok.inj h).symm⟩
  · rintro ⟨hook, cols, rest, cols', hhook, hrest, rfl⟩
    refine Outcome.bind_eq_ok.mpr ⟨_, rfl, Outcome.bind_eq_ok.mpr ⟨_, rfl, ?_⟩⟩
    exact Outcome.bind_eq_ok.mpr ⟨_, hhook, Outcome.bind_eq_ok.mpr ⟨_, hrest, rfl⟩⟩

theorem draws_any_strand (pen : Pen ℚ) (hcols : columns ≠ []) (dx dy : Int) (s : Strand) :
    Draws (pen.strand dx dy s columns) fun _ => True := by
  obtain ⟨hook, cols, hhook, hcols, -⟩ :=
    draws_any_cell pen hcols (some (Figure.ofSign s.hook.sign)) s.hook.dir true
  obtain ⟨rest, cols', hrest, hcols', -⟩ := draws_any_cells pen hcols s.hook.dir s.cells
  exact ⟨_, cols', strand_eq_ok.mpr ⟨hook, cols, rest, cols', hhook, hrest, rfl⟩, hcols', trivial⟩

/-- The line of a strand begins with the line up to any of its cells. -/
theorem strand_of_upTo (h : pen.strand dx dy (s.upTo k) columns = .ok (line, cols))
    (hcols : cols ≠ []) : Draws (pen.strand dx dy s columns) fun cs => line <+: cs := by
  obtain ⟨hook, cols₁, cs, cols₂, hhook, hcs, heq⟩ := strand_eq_ok.mp h
  obtain ⟨rfl, rfl⟩ := Prod.mk.inj heq
  obtain ⟨rest, cols', hrest, hcols', -⟩ :=
    draws_any_cells pen hcols (s.sideAfter k).dir (s.cells.drop k)
  have hall := cells_append (a := s.hook.side) hcs hrest
  rw [Strand.upTo, List.take_append_drop] at hall
  refine ⟨_, cols', strand_eq_ok.mpr ⟨hook, cols₁, cs ++ rest, cols', hhook, hall, rfl⟩, hcols', ?_⟩
  exact ⟨rest, by simp⟩

/-- **The line of a strand up to a cell that it passes** ends in the middle of the side where the
strand leaves the cell, as far aside as its hook is drawn. -/
theorem draws_upTo (pen : Pen ℚ) {hookX : Int} {sums sums' : Sums} {stop : Stop}
    (hhook : g.IsHook s.hook)
    (hwalk : g.Walks primes hookX s.hook.pos s.hook.dir sums s.cells sums' stop)
    (hk : k < s.cells.length) (hcols : columns ≠ []) (dx dy : Int) :
    Draws (pen.strand dx dy (s.upTo k) columns) fun cs => ∀ q,
      followAll q cs = pen.corner ⟨dx, dy⟩ + pen.exit (s.sideAfter k) - pen.aside s.hook.kind := by
  obtain ⟨hook, cols, hok, hcols, hmoves⟩ := draws_cell hcols (moves_hook pen hhook.kind)
  obtain ⟨rest, cols', hrest, hcols', hwalked⟩ := draws_walk pen hwalk hk hcols
  refine ⟨_, cols', strand_eq_ok.mpr ⟨hook, cols, rest, cols', hok, hrest, rfl⟩, hcols',
    fun q => ?_⟩
  rw [List.cons_append, followAll_cons, followAll_append, hmoves, hwalked]
  change pen.corner ⟨s.hook.pos.x + dx, s.hook.pos.y + dy⟩ + _ +
    (pen.exit (s.sideAfter k) - pen.exit s.hook.side) = _
  rw [corner_add, exit, exit, Hook.side]
  abel

end Pen

/-! ## Programs -/

namespace Picture

open Pen

variable {pen : Pen ℚ} {columns cols : List Int} {dx dy : Int}

theorem draws_lines (pen : Pen ℚ) (hcols : columns ≠ []) (dx dy : Int) (ts : List Strand) :
    Draws (lines pen dx dy columns ts) fun _ => True := by
  induction ts generalizing columns with
  | nil => exact ⟨[], columns, rfl, hcols, trivial⟩
  | cons t ts ih =>
    exact draws_append (draws_any_strand pen hcols dx dy t) (fun cols hcols => ih hcols)
      fun _ _ _ _ => trivial

theorem lines_append {before rest : List (PathCommand ℚ)} {cols' : List Int} {ts ts' : List Strand}
    (h : lines pen dx dy columns ts = .ok (before, cols))
    (h' : lines pen dx dy cols ts' = .ok (rest, cols')) :
    lines pen dx dy columns (ts ++ ts') = .ok (before ++ rest, cols') := by
  induction ts generalizing columns before with
  | nil =>
    cases h
    exact h'
  | cons t ts ih =>
    obtain ⟨⟨here, cols₁⟩, hhere, h⟩ := Outcome.bind_eq_ok.mp h
    obtain ⟨⟨more, cols₂⟩, hmore, h⟩ := Outcome.bind_eq_ok.mp h
    cases h
    refine Outcome.bind_eq_ok.mpr ⟨_, hhere, Outcome.bind_eq_ok.mpr ⟨_, ih hmore, ?_⟩⟩
    rw [List.append_assoc]
    rfl

end Picture

/-- What is drawn of a glyph are strands of it. -/
theorem Arrangement.mem_of_strandsOf {i : Nat} {primes : List Nat} {ss : List Strand}
    {ts : List Token} (h : tokens i primes ss = .ok ts) {t : Token} (ht : t ∈ ts) {s : Strand}
    (hs : s ∈ Picture.strandsOf t) : s ∈ ss := by
  cases t with
  | data d =>
    obtain rfl | hs := List.mem_cons.mp hs
    · exact ((exists_data_iff h).mp ⟨d, ht, rfl⟩).1
    · exact (action_of_tokens h ht (Option.mem_toList.mp hs)).1
  | question q =>
    obtain ⟨ds, q', rfl, -, hqs, -⟩ := tokens_eq_ok h
    have hq : q ∈ q'.toList := by simpa using ht
    have hmem : s ∈ questions ss := by
      rw [hqs]
      exact List.mem_flatMap.mpr ⟨q, hq, hs⟩
    exact List.mem_of_mem_filter ((questions_perm ss).subset hmem)

theorem Pen.aside_eq_zero_iff {pen : Pen ℚ} {k : Kind} :
    pen.aside k = 0 ↔ (k = .question → pen.width = 0) := by
  unfold aside
  split
  · rename_i hk
    simp [hk]
  · rename_i hk
    simp [hk]

/-- **Data and action strands are drawn through the middles of the sides, and questions half a cell
aside.** Take any strand that is drawn for a token of a program, and its hook or any of its cells
but the last. After what is drawn up to there, the pen stands in the middle of the side by which the
strand goes on, moved as its glyph is, exactly if the strand belongs to no question, or if cells
have no width. -/
theorem drawn_at_middle_iff (limit : Nat) (text : String) (gs : List Glyph)
    (h : Program.parseWithin limit text = .ok gs) (g : Glyph) (hg : g ∈ gs) (t : Token)
    (ht : t ∈ g.tokens) (pre post : List Strand) (s : Strand)
    (hs : Picture.strandsOf t = pre ++ s :: post) (k : Nat) (hk : k < s.cells.length)
    (pen : Pen ℚ) (dx dy : Int) (columns : List Int) (hcols : columns ≠ []) :
    ∃ before cols line cols' rest cols'',
      Picture.lines pen dx dy columns pre = .ok (before, cols) ∧
      pen.strand dx dy (s.upTo k) cols = .ok (line, cols') ∧
      Picture.lines pen dx dy columns (Picture.strandsOf t) = .ok (before ++ line ++ rest, cols'') ∧
      ∀ q, followAll q (before ++ line) =
          pen.corner ⟨dx, dy⟩ + pen.exit (s.sideAfter k) - pen.aside s.hook.kind ∧
        (followAll q (before ++ line) = pen.corner ⟨dx, dy⟩ + pen.exit (s.sideAfter k) ↔
          (s.hook.kind = .question → pen.width = 0)) := by
  obtain ⟨-, -, primes, -, -, -, -, htokens⟩ := Program.parseGrid_eq_ok h
  obtain ⟨i, ss, hss, hts⟩ := htokens g hg
  have hmem : s ∈ ss := Arrangement.mem_of_strandsOf hts ht (hs ▸ by simp)
  obtain ⟨sums, stop, hwalk, -⟩ := Grid.strands_walks hss hmem
  obtain ⟨before, cols, hbefore, hcols, -⟩ := Picture.draws_lines pen hcols dx dy pre
  obtain ⟨line, cols', hline, hcols', hpos⟩ :=
    pen.draws_upTo (Grid.strands_isHook hss hmem) hwalk hk hcols dx dy
  obtain ⟨_, cols₁, hstrand, hcols₁, rest, rfl⟩ := Pen.strand_of_upTo hline hcols'
  obtain ⟨after, cols₂, hafter, -, -⟩ := Picture.draws_lines pen hcols₁ dx dy post
  have hall : Picture.lines pen dx dy cols (s :: post) = .ok (line ++ rest ++ after, cols₂) :=
    Outcome.bind_eq_ok.mpr ⟨_, hstrand, Outcome.bind_eq_ok.mpr ⟨_, hafter, rfl⟩⟩
  refine ⟨before, cols, line, cols', rest ++ after, cols₂, hbefore, hline, ?_, fun q => ?_⟩
  · rw [hs, Picture.lines_append hbefore hall]
    simp only [List.append_assoc]
  · rw [followAll_append, hpos, sub_eq_self]
    exact ⟨rfl, Pen.aside_eq_zero_iff⟩

/-- A data strand around two sharp corners, and a question. -/
def bentDrawing : String := "╵╰─┐  ╷\n   │  │\n   └─ ╷\n      │ ╷"

/-- The data strand is drawn to the middle of the side where it enters its last cell. The second
strand of the question leaves its hook at `(70, 80)`, where the middle is `(75, 80)`. -/
theorem drawn_at_middle_iff_bent : ∃ gs g d q,
    Program.parseWithin nestingLimit bentDrawing = .ok gs ∧ g ∈ gs ∧
    (Token.data d ∈ g.tokens ∧ ∃ line rest cols,
      Picture.lines ⟨10, 20, 1 / 3⟩ 1 1 [2] (Picture.strandsOf (.data d)) =
        .ok (line ++ rest, cols) ∧
      ∀ p, followAll p line = (50, 70)) ∧
    Token.question q ∈ g.tokens ∧ ∃ line rest cols,
      Picture.lines ⟨10, 20, 1 / 3⟩ 1 1 [7] (Picture.strandsOf (.question q)) =
        .ok (line ++ rest, cols) ∧
      ∀ p, followAll p line = (70, 80) := by
  let d : DataToken :=
    ⟨⟨⟨.upRight, ⟨1, 0⟩, .right, .data⟩,
      [⟨'─', ⟨2, 0⟩, some .right⟩, ⟨'┐', ⟨3, 0⟩, some .down⟩, ⟨'│', ⟨3, 1⟩, some .down⟩,
        ⟨'└', ⟨3, 2⟩, some .right⟩, ⟨'─', ⟨4, 2⟩, none⟩], .value (some 4)⟩,
      1, 0, 0, none, none⟩
  let q : QuestionToken :=
    ⟨⟨⟨.closing, ⟨6, 0⟩, .down, .question⟩, [⟨'│', ⟨6, 1⟩, some .down⟩, ⟨'╷', ⟨6, 2⟩, none⟩],
        .question ⟨6, 2⟩⟩, 1, false,
      ⟨⟨.closing, ⟨6, 2⟩, .down, .question⟩, [⟨'│', ⟨6, 3⟩, none⟩], .question ⟨6, 3⟩⟩,
      ⟨3, 0⟩, .vertical, .cell ⟨1, 1⟩⟩
  have hread : (Program.parseWithin nestingLimit bentDrawing).map (fun gs => gs.any fun g =>
      g.tokens.contains (.data d) && g.tokens.contains (.question q)) = .ok true := by cbv
  obtain ⟨gs, hgs, hany⟩ := Outcome.map_eq_ok.mp hread
  obtain ⟨g, hg, hboth⟩ := List.any_eq_true.mp hany
  rw [Bool.and_eq_true, List.contains_iff_mem, List.contains_iff_mem] at hboth
  obtain ⟨hd, hq⟩ := hboth
  refine ⟨gs, g, d, q, hgs, hg, ⟨hd, ?_⟩, hq, ?_⟩
  · obtain ⟨before, _, line, _, rest, cols, -, -, hall, hpos⟩ :=
      drawn_at_middle_iff nestingLimit bentDrawing gs hgs g hg (.data d) hd [] [] d.strand rfl 4
        (by decide) ⟨10, 20, 1 / 3⟩ 1 1 [2] (by simp)
    refine ⟨before ++ line, rest, cols, hall, fun p => ?_⟩
    rw [(hpos p).1, Pen.aside, if_neg (by decide)]
    norm_num [d, Pen.corner, Pen.exit, Pen.middle, Strand.sideAfter, Side.after]
  · obtain ⟨before, _, line, _, rest, cols, -, -, hall, hpos⟩ :=
      drawn_at_middle_iff nestingLimit bentDrawing gs hgs g hg (.question q) hq
        [q.strand] [] q.second
        rfl 0 (by decide) ⟨10, 20, 1 / 3⟩ 1 1 [7] (by simp)
    refine ⟨before ++ line, rest, cols, hall, fun p => ?_⟩
    rw [(hpos p).1, Pen.aside, if_pos rfl]
    norm_num [q, Pen.corner, Pen.exit, Pen.middle, Strand.sideAfter, Hook.side]

/-- A question alone. -/
def askingDrawing : String := "╵ ╷\n  │\n  ╷\n  │ ╷"

/-- Before its last cell the first strand of the question is drawn to `(30, 60)`. The side where it
enters that cell has its middle at `(35, 60)`. -/
theorem question_drawn_aside : ∃ gs g q line rest cols cols',
    Program.parseWithin nestingLimit askingDrawing = .ok gs ∧ g ∈ gs ∧ Token.question q ∈ g.tokens ∧
    q.strand.cells.length = 1 + 1 ∧
    Pen.strand ⟨10, 20, 1⟩ 1 1 (q.strand.upTo 1) [3] = .ok (line, cols) ∧
    Picture.lines ⟨10, 20, 1⟩ 1 1 [3] (Picture.strandsOf (.question q)) =
      .ok (line ++ rest, cols') ∧
    (∀ p, followAll p line = (30, 60)) ∧
    Pen.corner ⟨10, 20, 1⟩ ⟨1, 1⟩ + Pen.exit ⟨10, 20, 1⟩ (q.strand.sideAfter 1) = (35, 60) := by
  let q : QuestionToken :=
    ⟨⟨⟨.closing, ⟨2, 0⟩, .down, .question⟩, [⟨'│', ⟨2, 1⟩, some .down⟩, ⟨'╷', ⟨2, 2⟩, none⟩],
        .question ⟨2, 2⟩⟩, 0, false,
      ⟨⟨.closing, ⟨2, 2⟩, .down, .question⟩, [⟨'│', ⟨2, 3⟩, none⟩], .question ⟨2, 3⟩⟩,
      ⟨3, 0⟩, .vertical, .cell ⟨1, 0⟩⟩
  have hread : (Program.parseWithin nestingLimit askingDrawing).map (fun gs => gs.any fun g =>
      g.tokens.contains (.question q)) = .ok true := by cbv
  obtain ⟨gs, hgs, hany⟩ := Outcome.map_eq_ok.mp hread
  obtain ⟨g, hg, hq⟩ := List.any_eq_true.mp hany
  refine ⟨gs, g, q, _, _, _, _, hgs, hg, List.contains_iff_mem.mp hq, rfl, rfl, rfl, ?_, ?_⟩
  · intro p
    norm_num [follow, Measure.ofInt]
  · norm_num [q, Pen.corner, Pen.exit, Pen.middle, Strand.sideAfter, Side.after]

end StrandScript
