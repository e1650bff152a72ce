import StrandScript.Glyph.Location
import StrandScript.Proofs.ReadingOrder

/-!
# The signs of a plane of characters

Whether a character opens or closes a glyph depends on the characters around it only, those beyond
the edge of a grid counting as blanks. So the signs of a grid are those of the plane of its
characters (`Grid.mem_openings`, `Grid.mem_closings`), and planes put together have the signs of
both.

* `Grid.char`: the plane of a grid.
* `Plane.Opens`, `Plane.Closes`: the signs of a plane.
* `Plane.Joins`: a plane that shows two others (`Plane.Joins.opens_iff`, `Plane.Joins.closes_iff`).
* `Plane.below`, `Plane.beside`: one plane above or left of another (`Plane.joins_below`,
  `Plane.joins_beside`).
-/

namespace StrandScript

/-- A character at every place. -/
abbrev Plane := Nat → Nat → Char

/-- The characters of a grid, with blanks beyond its edges. -/
def Grid.char (g : Grid) : Plane := fun x y => ((g[y]?).bind (·[x]?)).getD ' '

namespace Plane

variable (P Q : Plane)

/-- The character above a place. -/
def above (x : Nat) : Nat → Char
  | 0 => ' '
  | y + 1 => P x y

/-- Whether the sign of a character points in a direction. -/
def points (d : Dir) (c : Char) : Bool := (Sign.ofChar? c).any (·.points d)

/-- No strand reaches the place from above or from below. -/
def Free (x y : Nat) : Prop :=
  points .down (P.above x y) = false ∧ points .up (P x (y + 1)) = false

/-- The number of opening signs that stand side by side left of a place. -/
def run (y : Nat) : Nat → Nat
  | 0 => 0
  | x + 1 => if P x y = '╵' then run y x + 1 else 0

/-- The last of some opening signs side by side, free of strands. -/
def IsOpening (x y : Nat) : Prop := P x y = '╵' ∧ P (x + 1) y ≠ '╵' ∧ P.Free x y

/-- A closing sign free of strands. -/
def IsClosing (x y : Nat) : Prop := P x y = '╷' ∧ P.Free x y

/-- The plane has an opening. -/
def Opens (o : Opening) : Prop :=
  ∃ x y : Nat, P.IsOpening x y ∧ o = ⟨⟨x, y⟩, P.run y x + 1⟩

/-- The plane has a closing sign at a place. -/
def Closes (p : Pos) : Prop := ∃ x y : Nat, P.IsClosing x y ∧ p = ⟨x, y⟩

theorem points_blank (d : Dir) : points d ' ' = false := by cases d <;> decide

end Plane

/-! ## The signs of a grid -/

theorem Index.get?_natCast {α : Type} (xs : List α) (i : Nat) : Index.get? xs i = xs[i]? := by
  unfold Index.get?
  by_cases h : i < xs.length
  · rw [Index.resolve?_natCast h]
    rfl
  · have hnone : Index.resolve? xs.length (i : Int) = none := by
      simp only [Index.resolve?, ite_eq_right_iff, reduceCtorEq, imp_false]
      omega
    rw [hnone, List.getElem?_eq_none (by omega)]
    rfl

namespace Grid

variable (g : Grid)

theorem cell_natCast (x y : Nat) :
    g.cell ⟨x, y⟩ = match (g[y]?).bind (·[x]?) with
      | some c => .ok c
      | none => .error .outOfRange := by
  unfold cell row
  simp only [Index.get?_natCast]
  cases g[y]? with
  | none => rfl
  | some r => rfl

theorem continues_up (x y : Nat) :
    g.continues ⟨x, y⟩ .up = Plane.points .down (g.char.above x y) := by
  cases y with
  | zero => exact (Plane.points_blank _).symm
  | succ y =>
    have hstep : Pos.step ⟨x, (y + 1 : Nat)⟩ .up = ⟨x, y⟩ := by
      simp only [Pos.step, Pos.mk.injEq, true_and]
      omega
    have hpos : (0 : Int) < ((y + 1 : Nat) : Int) := by omega
    unfold continues neighbor hasNeighbor Plane.above Grid.char
    simp only [hstep, cell_natCast, bind, Except.bind, hpos, decide_true, if_true]
    cases (g[y]?).bind (·[x]?) with
    | none => exact (Plane.points_blank _).symm
    | some c => rfl

theorem continues_down (x y : Nat) :
    g.continues ⟨x, y⟩ .down = Plane.points .up (g.char x (y + 1)) := by
  have hstep : Pos.step ⟨x, y⟩ .down = ⟨x, (y + 1 : Nat)⟩ := rfl
  unfold continues neighbor hasNeighbor Grid.char
  simp only [hstep, cell_natCast, bind, Except.bind]
  by_cases hlt : (y : Int) < (g.length : Int) - 1
  · rw [decide_eq_true hlt, if_pos rfl]
    cases (g[y + 1]?).bind (·[x]?) with
    | none => exact (Plane.points_blank _).symm
    | some c => rfl
  · rw [decide_eq_false hlt, List.getElem?_eq_none (by omega)]
    exact (Plane.points_blank _).symm

theorem free_iff (x y : Nat) :
    g.char.Free x y ↔ g.continues ⟨x, y⟩ .up = false ∧ g.continues ⟨x, y⟩ .down = false := by
  rw [continues_up, continues_down]
  rfl

variable {g}

theorem char_eq {x y : Nat} {row : Row} {c : Char} (hrow : g[y]? = some row)
    (hc : row[x]? = some c) : g.char x y = c := by
  unfold char
  rw [hrow, Option.bind_some, hc]
  rfl

theorem char_of_length_le {x y : Nat} (h : g.length ≤ y) : g.char x y = ' ' := by
  unfold char
  rw [List.getElem?_eq_none h]
  rfl

/-- A place that is not blank lies in the grid. -/
theorem exists_of_char_ne {x y : Nat} (h : g.char x y ≠ ' ') :
    ∃ row, g[y]? = some row ∧ row[x]? = some (g.char x y) := by
  unfold char at h ⊢
  cases hrow : g[y]? with
  | none =>
    rw [hrow] at h
    exact absurd rfl h
  | some row =>
    refine ⟨row, rfl, ?_⟩
    rw [hrow, Option.bind_some] at h
    cases hc : row[x]? with
    | none =>
      rw [hc] at h
      exact absurd rfl h
    | some c => simp [hc]

/-- No row ends with a character other than a blank. -/
def BlankEnds (g : Grid) : Prop := ∀ r ∈ g, ∀ c ∈ r.getLast?, c = ' '

/-- The opening signs before a place are counted from the place to the left. -/
theorem length_takeWhile_before {y : Nat} {row : Row} (hrow : g[y]? = some row) {x : Nat}
    (hx : x ≤ row.length) :
    ((row.take x).reverse.takeWhile (Sign.opening.chars.contains ·)).length = g.char.run y x := by
  induction x with
  | zero => simp [Plane.run]
  | succ x ih =>
    have hlt : x < row.length := by omega
    have hchar : g.char x y = row[x] := char_eq hrow (List.getElem?_eq_getElem hlt)
    rw [List.take_succ_eq_append_getElem hlt, List.reverse_append, List.reverse_singleton,
      List.singleton_append, List.takeWhile_cons, Plane.run, hchar]
    by_cases hc : row[x] = '╵'
    · rw [hc, if_pos (by decide), if_pos rfl, List.length_cons, ih (by omega)]
    · rw [if_neg (by simpa [Sign.chars] using hc), if_neg hc]
      rfl

/-- In a row that ends with a blank, an opening sign has a character after it. -/
theorem exists_next {row : Row} (hrow : ∀ c ∈ row.getLast?, c = ' ') {x : Nat}
    (hx : row[x]? = some '╵') : ∃ c, row[x + 1]? = some c := by
  obtain ⟨hlt, hc⟩ := List.getElem?_eq_some_iff.mp hx
  by_cases hnext : x + 1 < row.length
  · exact ⟨_, List.getElem?_eq_getElem hnext⟩
  · have hlast : row.getLast? = some '╵' := by
      rw [List.getLast?_eq_getElem?, show row.length - 1 = x by omega, hx]
    exact absurd (hrow _ hlast) (by decide)

/-- A character of the same row stands right of the place. -/
def Followed (g : Grid) (p : Pos) : Prop :=
  ∃ (x y : Nat) (row : Row), p = ⟨x, y⟩ ∧ g[y]? = some row ∧ x + 1 < row.length

/-- The openings of a grid are those of its plane that the row goes on after. -/
theorem mem_openings_iff (o : Opening) : o ∈ g.openings ↔ g.char.Opens o ∧ g.Followed o.pos := by
  unfold openings openingsInRow Plane.Opens Plane.IsOpening
  simp only [List.mem_flatMap, List.mem_filterMap, Prod.exists, List.mk_mem_zipIdx_iff_getElem?,
    Row.mem_columns, free_iff]
  constructor
  · rintro ⟨row, y, hrow, x, ⟨c, hopen, hc⟩, ho⟩
    simp only [Option.ite_none_right_eq_some, Bool.and_eq_true, Bool.not_eq_true',
      Option.some.injEq] at ho
    obtain ⟨⟨⟨hnext, hup⟩, hdown⟩, rfl⟩ := ho
    obtain rfl : c = '╵' := List.mem_singleton.mp hopen
    obtain ⟨hlt, -⟩ := List.getElem?_eq_some_iff.mp hc
    obtain ⟨d, hd⟩ : ∃ d, row[x + 1]? = some d := by
      cases hd : row[x + 1]? with
      | none => simp [hd] at hnext
      | some d => exact ⟨d, rfl⟩
    obtain ⟨hlt', -⟩ := List.getElem?_eq_some_iff.mp hd
    refine ⟨⟨x, y, ⟨char_eq hrow hc, ?_, hup, hdown⟩, ?_⟩, x, y, row, rfl, hrow, hlt'⟩
    · rw [char_eq hrow hd]
      simpa [hd, Sign.chars] using hnext
    · rw [length_takeWhile_before hrow (by omega)]
  · rintro ⟨⟨x, y, ⟨hopen, hnext, hup, hdown⟩, rfl⟩, x', y', row, hpos, hrow, hlt⟩
    simp only [Pos.mk.injEq, Int.natCast_inj] at hpos
    obtain ⟨rfl, rfl⟩ := hpos
    have hd := List.getElem?_eq_getElem hlt
    have hc : row[x]? = some '╵' := by
      rw [← hopen, char_eq hrow (List.getElem?_eq_getElem (by omega)), List.getElem?_eq_getElem]
    rw [char_eq hrow hd] at hnext
    refine ⟨row, y, hrow, x, ⟨'╵', List.mem_singleton_self _, hc⟩, ?_⟩
    rw [length_takeWhile_before hrow (by omega), hd, hup, hdown, if_pos]
    simpa [Sign.chars] using hnext

theorem mem_openings (hg : g.BlankEnds) (o : Opening) : o ∈ g.openings ↔ g.char.Opens o := by
  rw [mem_openings_iff, and_iff_left_iff_imp]
  rintro ⟨x, y, ⟨hopen, -⟩, rfl⟩
  obtain ⟨row, hrow, hc⟩ := exists_of_char_ne (g := g) (x := x) (y := y) (by rw [hopen]; decide)
  rw [hopen] at hc
  obtain ⟨d, hd⟩ := exists_next (hg row (List.mem_of_getElem? hrow)) hc
  exact ⟨x, y, row, rfl, hrow, (List.getElem?_eq_some_iff.mp hd).1⟩

theorem mem_closings (p : Pos) : p ∈ g.closings ↔ g.char.Closes p := by
  unfold closings closingsInRow Plane.Closes Plane.IsClosing
  simp only [List.mem_flatMap, List.mem_filterMap, Prod.exists, List.mk_mem_zipIdx_iff_getElem?,
    Row.mem_columns, free_iff]
  constructor
  · rintro ⟨row, y, hrow, x, ⟨c, hclose, hc⟩, hp⟩
    simp only [Option.ite_none_right_eq_some, Bool.and_eq_true, Bool.not_eq_true',
      Option.some.injEq] at hp
    obtain ⟨⟨hdown, hup⟩, rfl⟩ := hp
    obtain rfl : c = '╷' := List.mem_singleton.mp hclose
    exact ⟨x, y, ⟨char_eq hrow hc, hup, hdown⟩, rfl⟩
  · rintro ⟨x, y, ⟨hclose, hup, hdown⟩, rfl⟩
    obtain ⟨row, hrow, hc⟩ := exists_of_char_ne (g := g) (x := x) (y := y) (by rw [hclose]; decide)
    rw [hclose] at hc
    refine ⟨row, y, hrow, x, ⟨'╷', List.mem_singleton_self _, hc⟩, ?_⟩
    rw [hup, hdown, if_pos (by decide)]

/-- A blank row that is left out at the end leaves the plane as it is. -/
theorem char_dropLast {l : Row} (hl : g.getLast? = some l) (hblank : isBlankRow l = true) :
    char g.dropLast = g.char := by
  funext x y
  unfold char
  rw [List.getElem?_dropLast]
  split
  · rfl
  · rename_i hy
    rcases Nat.lt_or_ge y g.length with hlt | hge
    · have hrow : g[y]? = some l := by
        rw [← hl, List.getLast?_eq_getElem?]
        congr 1
        omega
      rw [hrow, Option.bind_some, Option.bind_none]
      cases hc : l[x]? with
      | none => rfl
      | some c =>
        have := List.all_eq_true.mp hblank c (List.mem_of_getElem? hc)
        exact (eq_of_beq this).symm
    · rw [List.getElem?_eq_none hge]

/-- The rows that are left when a blank first row is trimmed off. -/
def trimFirst (r : Row) (rs : Grid) : Grid := if isBlankRow r then rs else r :: rs

theorem trim_cons_eq (r : Row) (rs : Grid) :
    trim (r :: rs) = (trimFirst r rs).getLast?.elim (.error .outOfRange) fun l =>
      .ok (if isBlankRow l then (trimFirst r rs).dropLast else trimFirst r rs) := by
  unfold trim trimFirst
  cases hl : (if isBlankRow r then rs else r :: rs).getLast? with
  | none => simp only [hl, Option.elim_none]
  | some l => simp only [hl, Option.elim_some]

theorem trim_cons {r l : Row} {rs : List Row} (hr : isBlankRow r = false)
    (hl : (r :: rs).getLast? = some l) :
    trim (r :: rs) = .ok (if isBlankRow l then (r :: rs).dropLast else r :: rs) := by
  simp only [trim, hr, Bool.false_eq_true, if_false, hl]

/-- A grid that has something in its first row loses a blank row at the end at most. -/
theorem trim_eq {x : Nat} (h : g.char x 0 ≠ ' ') :
    ∃ m, g.trim = .ok (g.take m) ∧ char (g.take m) = g.char := by
  obtain ⟨r, hr, hc⟩ := exists_of_char_ne h
  obtain ⟨rs, rfl⟩ : ∃ rs, g = r :: rs := by
    cases g with
    | nil => cases hr
    | cons r' rs =>
      cases hr
      exact ⟨rs, rfl⟩
  have hfirst : isBlankRow r = false := by
    rw [isBlankRow, List.all_eq_false]
    exact ⟨_, List.mem_of_getElem? hc, by simpa using h⟩
  obtain ⟨l, hl⟩ : ∃ l, (r :: rs).getLast? = some l := ⟨_, List.getLast?_cons⟩
  rw [trim_cons hfirst hl]
  by_cases hlast : isBlankRow l = true
  · rw [if_pos hlast]
    refine ⟨(r :: rs).length - 1, ?_⟩
    rw [← List.dropLast_eq_take]
    exact ⟨rfl, char_dropLast hl hlast⟩
  · rw [if_neg hlast]
    refine ⟨(r :: rs).length, ?_⟩
    rw [List.take_length]
    exact ⟨rfl, rfl⟩

/-- The columns of one character are found from the left. -/
theorem columns_pairwise (c : Char) (row : Row) : (Row.columns [c] row).Pairwise (· < ·) := by
  rw [Row.columns, List.flatMap_singleton, List.pairwise_filterMap]
  refine (zipIdx_pairwise row).imp fun {a b} hab x hx y hy => ?_
  simp only [Option.ite_none_right_eq_some, Option.some.injEq] at hx hy
  rw [← hx.2, ← hy.2]
  exact hab

/-- What is found in a row, each at its own place, is found from the left. -/
theorem foundInRow_readsBefore {α : Type} (pos : α → Pos) {y : Nat} {c : Char} {row : Row}
    {f : Nat → Option α} (hf : ∀ x, ∀ b ∈ f x, pos b = ⟨x, y⟩) :
    ((Row.columns [c] row).filterMap f).Pairwise (fun a b => (pos a).ReadsBefore (pos b)) ∧
      ∀ b ∈ (Row.columns [c] row).filterMap f, (pos b).y = y := by
  constructor
  · rw [List.pairwise_filterMap]
    refine (columns_pairwise c row).imp fun {a b} hab a' ha b' hb => ?_
    rw [hf a a' ha, hf b b' hb]
    exact Or.inr ⟨rfl, Int.ofNat_lt.mpr hab⟩
  · intro b hb
    obtain ⟨a, -, ha⟩ := List.mem_filterMap.mp hb
    rw [hf a b ha]

/-- What is found in reading order in every row is so in the whole grid. -/
theorem found_readsBefore {α : Type} (pos : α → Pos) {f : Row × Nat → List α}
    (hf : ∀ a, (f a).Pairwise (fun b c => (pos b).ReadsBefore (pos c)) ∧
      ∀ b ∈ f a, (pos b).y = a.2) :
    (g.zipIdx.flatMap f).Pairwise fun a b => (pos a).ReadsBefore (pos b) := by
  rw [List.pairwise_flatMap]
  refine ⟨fun a _ => (hf a).1, (zipIdx_pairwise g).imp fun {a b} hab c hc d hd => Or.inl ?_⟩
  rw [(hf a).2 c hc, (hf b).2 d hd]
  exact Int.ofNat_lt.mpr hab

theorem openings_readsBefore : g.openings.Pairwise fun a b => a.pos.ReadsBefore b.pos := by
  refine found_readsBefore _ fun a => foundInRow_readsBefore Opening.pos fun b o ho => ?_
  simp only [Option.mem_def, Option.ite_none_right_eq_some, Option.some.injEq] at ho
  rw [← ho.2]

theorem closings_readsBefore : g.closings.Pairwise Pos.ReadsBefore := by
  refine found_readsBefore (fun p => p) fun a => foundInRow_readsBefore _ fun b p hp => ?_
  simp only [Option.mem_def, Option.ite_none_right_eq_some, Option.some.injEq] at hp
  rw [← hp.2]

end Grid

/-! ## Planes put together -/

/-- The place moved right and down. -/
def Pos.shift (p : Pos) (dx dy : Nat) : Pos := ⟨p.x + dx, p.y + dy⟩

/-- The opening moved right and down. -/
def Opening.shift (o : Opening) (dx dy : Nat) : Opening := ⟨o.pos.shift dx dy, o.level⟩

namespace Plane

variable {R P Q : Plane} {dx dy : Nat}

/-- The plane `R` shows `P`, moved right and down: what is not blank has the same surroundings. -/
structure Shows (R P : Plane) (dx dy : Nat) : Prop where
  char : ∀ {x y}, P x y ≠ ' ' → R (x + dx) (y + dy) = P x y
  next : ∀ {x y}, P x y ≠ ' ' → R (x + dx + 1) (y + dy) = P (x + 1) y
  above : ∀ {x y}, P x y ≠ ' ' → R.above (x + dx) (y + dy) = P.above x y
  under : ∀ {x y}, P x y ≠ ' ' → R (x + dx) (y + dy + 1) = P x (y + 1)
  run : ∀ {x y}, P x y ≠ ' ' → R.run (y + dy) (x + dx) = P.run y x

/-- The plane `R` shows `P` and, moved right and down, `Q`, and nothing else. -/
structure Joins (R P Q : Plane) (dx dy : Nat) : Prop where
  first : R.Shows P 0 0
  second : R.Shows Q dx dy
  cover : ∀ {x y}, R x y ≠ ' ' →
    P x y ≠ ' ' ∨ ∃ x' y', Q x' y' ≠ ' ' ∧ x = x' + dx ∧ y = y' + dy

theorem Shows.free (h : R.Shows P dx dy) {x y : Nat} (hne : P x y ≠ ' ') :
    R.Free (x + dx) (y + dy) ↔ P.Free x y := by
  rw [Free, Free, h.above hne, h.under hne]

theorem Shows.isOpening (h : R.Shows P dx dy) {x y : Nat} (hne : P x y ≠ ' ') :
    R.IsOpening (x + dx) (y + dy) ↔ P.IsOpening x y := by
  rw [IsOpening, IsOpening, h.char hne, h.next hne, h.free hne]

theorem Shows.isClosing (h : R.Shows P dx dy) {x y : Nat} (hne : P x y ≠ ' ') :
    R.IsClosing (x + dx) (y + dy) ↔ P.IsClosing x y := by
  rw [IsClosing, IsClosing, h.char hne, h.free hne]

theorem IsOpening.ne_blank {x y : Nat} (h : P.IsOpening x y) : P x y ≠ ' ' := by
  rw [h.1]
  decide

theorem IsClosing.ne_blank {x y : Nat} (h : P.IsClosing x y) : P x y ≠ ' ' := by
  rw [h.1]
  decide

theorem Shows.opens (h : R.Shows P dx dy) {o : Opening} (ho : P.Opens o) :
    R.Opens (o.shift dx dy) := by
  obtain ⟨x, y, hopen, rfl⟩ := ho
  refine ⟨x + dx, y + dy, (h.isOpening hopen.ne_blank).mpr hopen, ?_⟩
  rw [h.run hopen.ne_blank]
  rfl

theorem Shows.closes (h : R.Shows P dx dy) {p : Pos} (hp : P.Closes p) :
    R.Closes (p.shift dx dy) := by
  obtain ⟨x, y, hclose, rfl⟩ := hp
  exact ⟨x + dx, y + dy, (h.isClosing hclose.ne_blank).mpr hclose, rfl⟩

/-- **Planes joined have the openings of both.** -/
theorem Joins.opens_iff (h : R.Joins P Q dx dy) (o : Opening) :
    R.Opens o ↔ P.Opens o ∨ ∃ o', Q.Opens o' ∧ o = o'.shift dx dy := by
  constructor
  · rintro ⟨x, y, hopen, rfl⟩
    obtain hne | ⟨x, y, hne, rfl, rfl⟩ := h.cover hopen.ne_blank
    · have hrun : R.run y x = P.run y x := h.first.run hne
      rw [hrun]
      exact Or.inl ⟨x, y, (h.first.isOpening hne).mp hopen, rfl⟩
    · rw [h.second.run hne]
      exact Or.inr ⟨_, ⟨x, y, (h.second.isOpening hne).mp hopen, rfl⟩, rfl⟩
  · rintro (ho | ⟨o', ho, rfl⟩)
    · obtain ⟨⟨x, y⟩, level⟩ := o
      simpa [Opening.shift, Pos.shift] using h.first.opens ho
    · exact h.second.opens ho

/-- **Planes joined have the closing signs of both.** -/
theorem Joins.closes_iff (h : R.Joins P Q dx dy) (p : Pos) :
    R.Closes p ↔ P.Closes p ∨ ∃ p', Q.Closes p' ∧ p = p'.shift dx dy := by
  constructor
  · rintro ⟨x, y, hclose, rfl⟩
    obtain hne | ⟨x, y, hne, rfl, rfl⟩ := h.cover hclose.ne_blank
    · exact Or.inl ⟨x, y, (h.first.isClosing hne).mp hclose, rfl⟩
    · exact Or.inr ⟨_, ⟨x, y, (h.second.isClosing hne).mp hclose, rfl⟩, rfl⟩
  · rintro (hp | ⟨p', hp, rfl⟩)
    · simpa [Pos.shift] using h.first.closes hp
    · exact h.second.closes hp

theorem run_succ (P : Plane) (x y : Nat) :
    P.run y (x + 1) = if P x y = '╵' then P.run y x + 1 else 0 := rfl

theorem run_congr {x y z : Nat} (h : ∀ i < x, P i y = Q i z) : P.run y x = Q.run z x := by
  induction x with
  | zero => rfl
  | succ x ih =>
    rw [run_succ, run_succ, h x (Nat.lt_succ_self x), ih fun i hi => h i (Nat.lt_succ_of_lt hi)]

/-- A plane of `h` rows above another one, with a blank row between them. -/
def below (h : Nat) (P Q : Plane) : Plane := fun x y =>
  if y < h then P x y else if y = h then ' ' else Q x (y - (h + 1))

theorem below_lt {h x y : Nat} (hy : y < h) : below h P Q x y = P x y := if_pos hy

theorem below_self {h x : Nat} : below h P Q x h = ' ' := by
  unfold below
  rw [if_neg (Nat.lt_irrefl h), if_pos rfl]

theorem below_add {h x y : Nat} : below h P Q x (y + (h + 1)) = Q x y := by
  unfold below
  rw [if_neg (by omega), if_neg (by omega), Nat.add_sub_cancel]

theorem shows_below_first {h : Nat} (hP : ∀ x y, h ≤ y → P x y = ' ') :
    (below h P Q).Shows P 0 0 := by
  have hlt : ∀ {x y}, P x y ≠ ' ' → y < h := fun {x y} hne => by
    by_contra hy
    exact hne (hP x y (by omega))
  constructor
  case char => exact fun hne => below_lt (hlt hne)
  case next => exact fun hne => below_lt (hlt hne)
  case above =>
    intro x y hne
    cases y with
    | zero => rfl
    | succ y => exact below_lt (Nat.lt_of_succ_lt (hlt hne))
  case under =>
    intro x y hne
    by_cases hy : y + 1 = h
    · subst hy
      exact below_self.trans (hP x _ (Nat.le_refl _)).symm
    · have := hlt hne
      exact below_lt (by omega)
  case run => exact fun hne => run_congr fun i _ => below_lt (hlt hne)

theorem shows_below_second (h : Nat) (P Q : Plane) : (below h P Q).Shows Q 0 (h + 1) := by
  constructor
  case char => exact fun _ => below_add
  case next => exact fun _ => below_add
  case above =>
    intro x y _
    cases y with
    | zero =>
      rw [Nat.zero_add]
      exact below_self
    | succ y =>
      rw [Nat.succ_add_eq_add_succ]
      exact below_add
  case under =>
    intro x y _
    rw [Nat.add_right_comm]
    exact below_add
  case run => exact fun _ => run_congr fun i _ => below_add

theorem joins_below {h : Nat} (hP : ∀ x y, h ≤ y → P x y = ' ') (Q : Plane) :
    (below h P Q).Joins P Q 0 (h + 1) := by
  refine ⟨shows_below_first hP, shows_below_second h P Q, fun {x y} hne => ?_⟩
  rcases Nat.lt_trichotomy y h with hy | rfl | hy
  · rw [below_lt hy] at hne
    exact Or.inl hne
  · exact absurd below_self hne
  · obtain ⟨z, rfl⟩ : ∃ z, y = z + (h + 1) := ⟨y - (h + 1), by omega⟩
    rw [below_add] at hne
    exact Or.inr ⟨x, z, hne, rfl, rfl⟩

theorem char_append_empty (A B : Grid) :
    Grid.char (A ++ [] :: B) = below A.length A.char B.char := by
  funext x y
  rcases Nat.lt_trichotomy y A.length with hy | rfl | hy
  · rw [below_lt hy, Grid.char, Grid.char, List.getElem?_append_left hy]
  · simp [below_self, Grid.char]
  · obtain ⟨z, rfl⟩ : ∃ z, y = z + (A.length + 1) := ⟨y - (A.length + 1), by omega⟩
    rw [below_add, Grid.char, Grid.char, List.getElem?_append_right (by omega),
      show z + (A.length + 1) - A.length = z + 1 by omega, List.getElem?_cons_succ]

theorem below_nil (A : Grid) : below A.length A.char (Grid.char []) = A.char := by
  funext x y
  rcases Nat.lt_trichotomy y A.length with hy | rfl | hy
  · exact below_lt hy
  · rw [below_self, Grid.char_of_length_le (Nat.le_refl _)]
  · obtain ⟨z, rfl⟩ : ∃ z, y = z + (A.length + 1) := ⟨y - (A.length + 1), by omega⟩
    have hA : A.char x (z + (A.length + 1)) = ' ' := Grid.char_of_length_le (by omega)
    rw [below_add, hA]
    exact Grid.char_of_length_le (Nat.zero_le z)

/-- A plane of `w` columns left of another one. -/
def beside (w : Nat) (P Q : Plane) : Plane := fun x y => if x < w then P x y else Q (x - w) y

theorem beside_lt {w x y : Nat} (hx : x < w) : beside w P Q x y = P x y := if_pos hx

theorem beside_add {w x y : Nat} : beside w P Q (x + w) y = Q x y := by
  unfold beside
  rw [if_neg (by omega), Nat.add_sub_cancel]

theorem shows_beside_first {w : Nat} (hP : ∀ x y, w ≤ x + 1 → P x y = ' ') :
    (beside w P Q).Shows P 0 0 := by
  have hlt : ∀ {x y}, P x y ≠ ' ' → x + 1 < w := fun {x y} hne => by
    by_contra hx
    exact hne (hP x y (by omega))
  constructor
  case char => exact fun hne => beside_lt (Nat.lt_of_succ_lt (hlt hne))
  case next => exact fun hne => beside_lt (hlt hne)
  case above =>
    intro x y hne
    cases y with
    | zero => rfl
    | succ y => exact beside_lt (Nat.lt_of_succ_lt (hlt hne))
  case under => exact fun hne => beside_lt (Nat.lt_of_succ_lt (hlt hne))
  case run =>
    intro x y hne
    have hx := hlt hne
    exact run_congr fun i hi => beside_lt (by omega)

theorem run_beside_add {w : Nat} (hP : ∀ x y, w ≤ x + 1 → P x y = ' ') (x y : Nat) :
    (beside w P Q).run y (x + w) = Q.run y x := by
  induction x with
  | zero =>
    -- The last column of the first plane is blank, so none of its signs counts.
    rw [Nat.zero_add]
    cases w with
    | zero => rfl
    | succ w =>
      have hlast : beside (w + 1) P Q w y = ' ' :=
        (beside_lt (Nat.lt_succ_self w)).trans (hP w y (Nat.le_refl _))
      rw [run_succ, hlast]
      rfl
  | succ x ih => rw [Nat.add_right_comm, run_succ, run_succ, beside_add, ih]

theorem shows_beside_second {w : Nat} (hP : ∀ x y, w ≤ x + 1 → P x y = ' ') (Q : Plane) :
    (beside w P Q).Shows Q w 0 := by
  constructor
  case char => exact fun _ => beside_add
  case next =>
    intro x y _
    rw [Nat.add_right_comm]
    exact beside_add
  case above =>
    intro x y _
    cases y with
    | zero => rfl
    | succ y => exact beside_add
  case under => exact fun _ => beside_add
  case run => exact fun _ => run_beside_add hP _ _

theorem joins_beside {w : Nat} (hP : ∀ x y, w ≤ x + 1 → P x y = ' ') (Q : Plane) :
    (beside w P Q).Joins P Q w 0 := by
  refine ⟨shows_beside_first hP, shows_beside_second hP Q, fun {x y} hne => ?_⟩
  rcases Nat.lt_or_ge x w with hx | hx
  · rw [beside_lt hx] at hne
    exact Or.inl hne
  · obtain ⟨z, rfl⟩ : ∃ z, x = z + w := ⟨x - w, by omega⟩
    rw [beside_add] at hne
    exact Or.inr ⟨z, y, hne, rfl, rfl⟩

end Plane

end StrandScript
