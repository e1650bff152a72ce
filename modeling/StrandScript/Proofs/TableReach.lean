import StrandScript.Proofs.Arrangement
import StrandScript.Proofs.Walk

/-!
# Tables that reach far enough

A strand reads the table of primes where it passes straight lines: at the number of the row along
rows, at the number of the column along columns. The rows of a glyph are always in its table, its
columns need not be. So all that a longer table changes is that it holds more columns: with a
shorter one a strand is read alike, exactly if that one reaches all the columns that the strand
counts (`strands_shorter`).

* `Strand.columns`: the numbers of the columns that a strand counts.
* `Grid.walk_eq_ok_iff`: strands that are followed to their ends are the walks within the limit.
* `Arrangement.tokens_shorter`: the arrangement asks for rows only, so that it is the same.
-/

namespace StrandScript

/-! ## Columns -/

namespace Strand

/-- The cells of a strand, each with the direction in which it is entered. -/
def entries : Dir → List Cell → List (Cell × Dir)
  | _, [] => []
  | d, c :: cs => (c, d) :: entries (c.dir.getD d) cs

/-- Whether a cell that is entered in direction `d` is passed along its column. -/
def passesColumn (c : Cell) (d : Dir) : Bool :=
  Sign.ofChar? c.symbol == some .vertical && !d.isHorizontal

/-- The numbers of the columns along which cells are passed, the strand having its hook in column
`hookX`. -/
def columnsFrom (hookX : Int) (d : Dir) (cells : List Cell) : List Nat :=
  ((entries d cells).filter fun e => passesColumn e.1 e.2).map fun e => columnIndex hookX e.1.pos.x

/-- The numbers of the columns that a strand counts. -/
def columns (s : Strand) : List Nat := columnsFrom s.pos.x s.hook.dir s.cells

/-- The place in the table of a straight cell at `p` that is passed in direction `d`. -/
def runIndex (hookX : Int) (p : Pos) (d : Dir) : Nat :=
  if d.isHorizontal then p.y.toNat else columnIndex hookX p.x

theorem forall_columnsFrom_cons {hookX : Int} {d : Dir} {c : Cell} {cs : List Cell}
    {P : Nat → Prop} :
    (∀ k ∈ columnsFrom hookX d (c :: cs), P k) ↔
      (passesColumn c d = true → P (columnIndex hookX c.pos.x)) ∧
        ∀ k ∈ columnsFrom hookX (c.dir.getD d) cs, P k := by
  rw [columnsFrom, entries, List.filter_cons]
  cases hc : passesColumn c d with
  | false => simp [columnsFrom]
  | true => simp [columnsFrom]

end Strand

/-! ## A shorter table -/

section Shorter

variable {primes primes' : List Nat} (h : primes <+: primes')
include h

theorem Primes.number_of_lt {i : Nat} (hi : i < primes.length) :
    Primes.number primes i = Primes.number primes' i := by
  unfold Primes.number
  rw [List.getElem?_eq_getElem hi, List.prefix_iff_getElem?.mp h i hi]

theorem Primes.number_shorter {i : Nat} {n : Int} :
    Primes.number primes i = .ok n ↔ Primes.number primes' i = .ok n ∧ i < primes.length := by
  constructor
  · intro hn
    have hi : i < primes.length := by
      by_contra hi
      rw [Primes.number, List.getElem?_eq_none (by omega)] at hn
      cases hn
    exact ⟨Primes.number_of_lt h hi ▸ hn, hi⟩
  · rintro ⟨hn, hi⟩
    rwa [Primes.number_of_lt h hi]

theorem Strand.addRun_shorter {hookX : Int} {sums sums' : Sums} {p : Pos} {d : Dir} :
    Strand.addRun primes hookX sums p d = .ok sums' ↔
      Strand.addRun primes' hookX sums p d = .ok sums' ∧
        Strand.runIndex hookX p d < primes.length := by
  cases d <;>
    simp only [Strand.addRun, Strand.runIndex, Dir.isHorizontal, Outcome.bind_eq_ok,
      Primes.number_shorter h, if_true, Bool.false_eq_true, if_false] <;>
    grind

end Shorter

namespace Grid

variable {g : Grid} {w : Nat} {p : Pos} {c : Char} {d : Dir} {primes primes' : List Nat}
    {hookX : Int}
  {sums sums' : Sums} {cells : List Cell} {stop : Stop}

/-! ## Walks within a limit -/

/-- A walk is followed to its end, if its cells are within the limit. -/
theorem Walks.walk_eq (hg : g.Rectangular w) (h : g.Walks primes hookX p d sums cells sums' stop)
    (hp : g.char? p = some c) {limit : Nat} (hlimit : cells.length ≤ limit) :
    Strand.walk g primes hookX limit p d sums = .ok (cells, sums', stop) := by
  induction h generalizing c limit with
  | ends hc hs hsums hend hstop =>
    obtain ⟨limit, rfl⟩ : ∃ m, limit = m + 1 := ⟨limit - 1, by simp at hlimit; omega⟩
    rw [walk_sign hg hp hc hs, hsums]
    simp [bind, Except.bind, hend, hstop, pure, Except.pure]
  | goes hc hs he hsums hgo hrest ih =>
    obtain ⟨limit, rfl⟩ : ∃ m, limit = m + 1 := ⟨limit - 1, by simp at hlimit; omega⟩
    have hrec := ih hc (Nat.le_of_succ_le_succ hlimit)
    rw [walk_sign hg hp hc hs, he, hsums]
    simp only [bind, Except.bind, Option.elim_some, hrec]
    rw [if_neg]
    · rfl
    · simpa using hgo

theorem length_of_walk {limit : Nat}
    (h : Strand.walk g primes hookX limit p d sums = .ok (cells, sums', stop)) :
    cells.length ≤ limit := by
  induction limit generalizing p d sums cells with
  | zero => cases h
  | succ limit ih =>
    rw [walk_succ] at h
    obtain ⟨next, -, h⟩ := Outcome.bind_eq_ok.mp h
    cases next with
    | none => cases h
    | some a =>
      rw [Option.elim_some] at h
      cases hs : Sign.ofChar? a.1 with
      | none =>
        simp only [hs, Option.elim_none] at h
        cases h
      | some s =>
        simp only [hs, Option.elim_some] at h
        obtain ⟨sums₁, -, h⟩ := Outcome.bind_eq_ok.mp h
        obtain ⟨goesOn, -, h⟩ := Outcome.bind_eq_ok.mp h
        split at h
        · cases h
          simp
        · cases he : s.through d with
          | none =>
            rw [he] at h
            cases h
          | some e =>
            rw [he, Option.elim_some] at h
            obtain ⟨⟨rest, sums₂, stop'⟩, hrest, h⟩ := Outcome.bind_eq_ok.mp h
            cases h
            simpa using ih hrest

/-- **Strands that are followed to their ends are the walks within the limit.** -/
theorem walk_eq_ok_iff (hg : g.Rectangular w) (hp : g.char? p = some c) {limit : Nat} :
    Strand.walk g primes hookX limit p d sums = .ok (cells, sums', stop) ↔
      g.Walks primes hookX p d sums cells sums' stop ∧ cells.length ≤ limit :=
  ⟨fun h => ⟨walks_of_walk hg hp h, length_of_walk h⟩, fun h => h.1.walk_eq hg hp h.2⟩

/-! ## Walks with a shorter table -/

theorem sumsAfter_shorter (h : primes <+: primes') {s : Sign} (hs : Sign.ofChar? c = some s)
    (hrow : p.y.toNat < primes.length) (dir : Option Dir) :
    sumsAfter primes hookX sums s p (s.through d) = .ok sums' ↔
      sumsAfter primes' hookX sums s p (s.through d) = .ok sums' ∧
        (Strand.passesColumn ⟨c, p, dir⟩ d = true →
          Strand.columnIndex hookX p.x < primes.length) := by
  unfold Strand.passesColumn
  rw [hs]
  cases s with
  | vertical | horizontal =>
    cases d <;>
      simp [sumsAfter, Sign.isStraight, Sign.through, Sign.hasPlace, Sign.readings, Dir.opposite,
        Dir.isHorizontal, Strand.addRun_shorter h, Strand.runIndex, hrow]
  | opening | closing | downLeft | downRight | upRight | upLeft | stubLeft | stubRight =>
    cases d <;> simp [sumsAfter, Sign.isStraight, Sign.hasPlace, Sign.readings]

theorem row_lt (hlen : g.length ≤ primes.length) (hp : g.char? p = some c) :
    p.y.toNat < primes.length := by
  have := char?_bounds hp
  omega

/-- The walks with a shorter table are those whose columns it reaches. -/
theorem walks_shorter (h : primes <+: primes') (hlen : g.length ≤ primes.length) :
    g.Walks primes hookX p d sums cells sums' stop ↔
      g.Walks primes' hookX p d sums cells sums' stop ∧
        ∀ k ∈ Strand.columnsFrom hookX d cells, k < primes.length := by
  constructor
  · intro hw
    induction hw with
    | ends hc hs hsums hend hstop =>
      obtain ⟨hsums', hcolumn⟩ := (sumsAfter_shorter h hs (row_lt hlen hc) none).mp hsums
      refine ⟨.ends hc hs hsums' hend hstop, ?_⟩
      rw [Strand.forall_columnsFrom_cons]
      exact ⟨hcolumn, by simp [Strand.columnsFrom, Strand.entries]⟩
    | goes hc hs he hsums hgo hrest ih =>
      rw [← he] at hsums
      obtain ⟨hsums', hcolumn⟩ := (sumsAfter_shorter h hs (row_lt hlen hc) (some _)).mp hsums
      rw [he] at hsums'
      refine ⟨.goes hc hs he hsums' hgo ih.1, ?_⟩
      rw [Strand.forall_columnsFrom_cons]
      exact ⟨hcolumn, ih.2⟩
  · rintro ⟨hw, hcolumns⟩
    induction hw with
    | ends hc hs hsums hend hstop =>
      rw [Strand.forall_columnsFrom_cons] at hcolumns
      have hsums' := (sumsAfter_shorter h hs (row_lt hlen hc) none).mpr ⟨hsums, hcolumns.1⟩
      exact .ends hc hs hsums' hend hstop
    | goes hc hs he hsums hgo hrest ih =>
      rw [Strand.forall_columnsFrom_cons] at hcolumns
      rw [← he] at hsums
      have hsums' := (sumsAfter_shorter h hs (row_lt hlen hc) (some _)).mpr ⟨hsums, hcolumns.1⟩
      rw [he] at hsums'
      exact .goes hc hs he hsums' hgo (ih hcolumns.2)

theorem ofHook_shorter (h : primes <+: primes') (hg : g.Rectangular w)
    (hlen : g.length ≤ primes.length) {limit : Nat} {k : Hook} {s : Strand}
    (hk : g.char? k.pos = some c) :
    Strand.ofHook limit primes g k = .ok s ↔
      Strand.ofHook limit primes' g k = .ok s ∧ ∀ i ∈ s.columns, i < primes.length := by
  unfold Strand.ofHook
  simp only [Outcome.bind_eq_ok, Prod.exists, walk_eq_ok_iff hg hk, walks_shorter h hlen]
  constructor
  · rintro ⟨cells, sums, stop, ⟨⟨hw, hcolumns⟩, hlimit⟩, m, hm, hs⟩
    obtain rfl := Except.ok.inj hs
    exact ⟨⟨cells, sums, stop, ⟨hw, hlimit⟩, m, hm, rfl⟩, hcolumns⟩
  · rintro ⟨⟨cells, sums, stop, ⟨hw, hlimit⟩, m, hm, hs⟩, hcolumns⟩
    obtain rfl := Except.ok.inj hs
    exact ⟨cells, sums, stop, ⟨⟨hw, hcolumns⟩, hlimit⟩, m, hm, rfl⟩

/-- **A shorter table gives the same strands, exactly if it reaches all their columns.** -/
theorem strands_shorter (h : primes <+: primes') (hlen : g.length ≤ primes.length) {limit : Nat}
    {ss : List Strand} :
    g.strands limit primes = .ok ss ↔
      g.strands limit primes' = .ok ss ∧ ∀ s ∈ ss, ∀ i ∈ s.columns, i < primes.length := by
  have hpad : g.pad.length ≤ primes.length := by rwa [length_pad]
  unfold strands
  rw [Outcome.bind_eq_ok, Outcome.bind_eq_ok, ← exists_and_right]
  refine exists_congr fun hooks => ?_
  rw [and_assoc]
  refine and_congr_right fun hhooks => Outcome.mapM_eq_ok_and fun k hk s => ?_
  have hhook := isHook_of_hooksAt (rectangular_pad g) (fun _ ha => mem_cells.mp ha) hhooks k hk
  obtain ⟨c, hc, -⟩ := Option.bind_eq_some_iff.mp hhook.sign
  exact ofHook_shorter h (rectangular_pad g) hpad hc

/-- A table with all rows has those where strands begin and those that they refer to. -/
theorem strands_rows {limit : Nat} {ss : List Strand} (h : g.strands limit primes' = .ok ss)
    (hlen : g.length ≤ primes.length) : (∀ s ∈ ss, s.pos.y.toNat < primes.length) ∧
      ∀ s ∈ ss, ∀ p, s.meaning = .ref p → p.y.toNat < primes.length := by
  refine ⟨fun s hs => ?_, fun s hs p hp => ?_⟩
  · have := strands_pos h hs
    have hy : s.pos.y = s.hook.pos.y := rfl
    omega
  · have := strands_ref h hs hp
    omega

end Grid

/-! ## The arrangement -/

namespace Arrangement

variable {primes primes' : List Nat} {ss : List Strand} {ds : List DataToken}

theorem placeData_shorter (h : primes <+: primes') (hrow : ∀ s ∈ ss, s.pos.y.toNat < primes.length)
    (seen : List Int) : placeData primes seen ss = placeData primes' seen ss := by
  induction ss generalizing seen with
  | nil => rfl
  | cons s ss ih =>
    rw [List.forall_mem_cons] at hrow
    rw [placeData, placeData, Primes.number_of_lt h hrow.1, ih hrow.2]

theorem refAt_shorter (h : primes <+: primes') {p : Pos} (hp : p.y.toNat < primes.length)
    (question : Option Pos) : refAt primes ds question p = refAt primes' ds question p := by
  rw [refAt, refAt, Primes.number_of_lt h hp]

theorem question?_shorter (h : primes <+: primes') (hrow : ∀ s ∈ ss, s.pos.y.toNat < primes.length)
    (i : Nat) : question? i primes ds ss = question? i primes' ds ss := by
  match ss with
  | [] => rfl
  | [q] => rw [question?, question?, refAt_shorter h (hrow q (by simp))]
  | q :: r :: more =>
    simp only [question?]
    rw [refAt_shorter h (hrow q (by simp)), refAt_shorter h (hrow r (by simp))]

theorem withRefs_shorter (h : primes <+: primes')
    (hrow : ∀ d ∈ ds, ∀ p, d.strand.meaning = .ref p → p.y.toNat < primes.length)
    (question : Option Pos) : withRefs primes ds question = withRefs primes' ds question := by
  refine Outcome.mapM_congr fun d hd => ?_
  split
  · rename_i p hp
    rw [refAt_shorter h (hrow d hd p hp)]
  · rfl

/-- **No table that has all rows matters to the arrangement.** -/
theorem tokens_shorter (h : primes <+: primes')
    (hpos : ∀ s ∈ ss, s.pos.y.toNat < primes.length)
    (href : ∀ s ∈ ss, ∀ p, s.meaning = .ref p → p.y.toNat < primes.length) (i : Nat) :
    tokens i primes ss = tokens i primes' ss := by
  have hdata : ∀ s ∈ byColumn .data ss, s ∈ ss := fun s hs =>
    List.mem_of_mem_filter ((byColumn_perm .data ss).subset hs)
  have hquestions : ∀ s ∈ questions ss, s ∈ ss := fun s hs =>
    List.mem_of_mem_filter ((questions_perm ss).subset hs)
  unfold tokens
  rw [placeData_shorter h fun s hs => hpos s (hdata s hs)]
  cases hds : placeData primes' [] (byColumn .data ss) with
  | error f => rfl
  | ok ds =>
    have hstrand : ∀ d ∈ ds, d.strand ∈ ss := fun d hd =>
      hdata _ (placeData_strand hds ▸ List.mem_map_of_mem hd)
    simp only [bind, Except.bind]
    rw [question?_shorter h fun s hs => hpos s (hquestions s hs)]
    cases question? i primes' ds (questions ss) with
    | error f => rfl
    | ok q =>
      simp only
      rw [withRefs_shorter h fun d hd => href d.strand (hstrand d hd)]

end Arrangement

end StrandScript
