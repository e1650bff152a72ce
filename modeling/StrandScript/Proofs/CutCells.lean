import StrandScript.Proofs.GlyphSigns

/-!
# Glyphs cut out, cell by cell

The glyph of a location shows the rectangle of the grid between its signs, with blanks in the place
of the signs and of nothing else (`Location.ShownBy`). Rows that end within the rectangle end within
the glyph.

* `Location.getElem?_cut`: the rows of a glyph, of which the first and the last one are changed.
* `Location.cell_rectangle`: the cells of the rectangle.
* `Location.Signed.shownBy_cut`: what a glyph shows.
-/

namespace StrandScript.Location

open Grid

variable {g : Grid} {l : Location}

/-! ## Rows with signs blanked out -/

theorem getElem?_blankFirst (n : Nat) (r : Row) (j : Nat) :
    (blankFirst n r)[j]? = if j < n then (r[j]?).map fun _ => ' ' else r[j]? := by
  unfold blankFirst
  rw [List.getElem?_append, List.length_replicate, List.getElem?_replicate, List.getElem?_drop]
  by_cases hr : j < r.length
  · rw [List.getElem?_eq_getElem hr, Option.map_some]
    by_cases hn : j < n
    · rw [if_pos (by omega), if_pos (by omega), if_pos hn]
    · rw [if_neg (by omega), if_neg hn, show n + (j - min n r.length) = j by omega,
        List.getElem?_eq_getElem hr]
  · rw [List.getElem?_eq_none (Nat.le_of_not_lt hr), Option.map_none, ite_self, if_neg (by omega)]
    exact List.getElem?_eq_none (by omega)

theorem getElem?_blankLast (r : Row) (j : Nat) :
    (blankLast r)[j]? = if j + 1 = r.length then some ' ' else r[j]? := by
  unfold blankLast
  cases r with
  | nil => simp
  | cons c r =>
    rw [if_neg (by simp), List.getElem?_append, List.length_dropLast, List.getElem?_dropLast]
    by_cases hlast : j + 1 = (c :: r).length
    · rw [if_neg (by omega), if_pos hlast, show j - ((c :: r).length - 1) = 0 by omega]
      rfl
    · rw [if_neg hlast]
      by_cases hj : j < (c :: r).length - 1
      · rw [if_pos hj, if_pos hj]
      · have hbeyond : [' '].length ≤ j - ((c :: r).length - 1) := by
          simp only [List.length_cons, List.length_nil] at hlast hj ⊢
          omega
        rw [if_neg hj, List.getElem?_eq_none hbeyond, List.getElem?_eq_none (by omega)]

theorem getElem?_onFirst (f : Row → Row) (g : Grid) (i : Nat) :
    (onFirst f g)[i]? = if i = 0 then (g[i]?).map f else g[i]? := by
  cases g with
  | nil => simp [onFirst]
  | cons r rs =>
    cases i with
    | zero => rfl
    | succ i => rfl

theorem getElem?_onLast (f : Row → Row) (g : Grid) (i : Nat) :
    (onLast f g)[i]? = if i + 1 = g.length then (g[i]?).map f else g[i]? := by
  induction g generalizing i with
  | nil => simp [onLast]
  | cons r rs ih =>
    cases rs with
    | nil =>
      cases i with
      | zero => rfl
      | succ i => simp [onLast]
    | cons r' rs =>
      cases i with
      | zero => simp [onLast]
      | succ i =>
        show (onLast f (r' :: rs))[i]? = _
        rw [ih i]
        simp

theorem length_cut (l : Location) (g : Grid) : (l.cut g).rows.length = (l.rectangle g).length := by
  rw [← List.length_map (f := List.length), map_length_cut, List.length_map]

/-- The rows of a glyph are those of its rectangle, the first and the last one with signs blanked
out. -/
theorem getElem?_cut (hl : 2 ≤ (l.rectangle g).length) (i : Nat) :
    (l.cut g).rows[i]? = ((l.rectangle g)[i]?).map
      (if i = 0 then blankFirst l.level.toNat
        else if i + 1 = (l.rectangle g).length then blankLast else id) := by
  have hlength : (onFirst (blankFirst l.level.toNat) (l.rectangle g)).length =
      (l.rectangle g).length := by
    rw [← List.length_map (f := List.length), map_length_onFirst (length_blankFirst _),
      List.length_map]
  unfold cut
  rw [getElem?_onLast, getElem?_onFirst, hlength]
  by_cases hfirst : i = 0
  · rw [if_pos hfirst, if_pos hfirst, if_neg (by omega)]
  · rw [if_neg hfirst, if_neg hfirst]
    by_cases hlast : i + 1 = (l.rectangle g).length
    · rw [if_pos hlast, if_pos hlast]
    · rw [if_neg hlast, if_neg hlast, Option.map_id_fun, id]

/-! ## Cells -/

/-- The place of a glyph that shows a place of the grid. -/
def placeIn (l : Location) (p : Pos) : Pos := ⟨p.x - l.firstColumn, p.y - l.start.y⟩

theorem char?_placeIn (l : Location) (rows : Grid) (i j : Nat) :
    rows.char? (l.placeIn ⟨l.firstColumn + j, l.start.y + i⟩) = (rows[i]?).bind (·[j]?) := by
  have hplace : l.placeIn ⟨l.firstColumn + j, l.start.y + i⟩ = ⟨j, i⟩ := by
    rw [placeIn, Pos.mk.injEq]
    constructor <;> simp only <;> omega
  rw [hplace, char?_natCast]

/-- A place below and right of the first sign, by its distances. -/
theorem exists_distances {p : Pos} (hx : l.firstColumn ≤ p.x) (hy : l.start.y ≤ p.y) :
    ∃ i j : Nat, p = ⟨l.firstColumn + j, l.start.y + i⟩ := by
  obtain ⟨x, y⟩ := p
  obtain ⟨j, rfl⟩ := Int.le.dest hx
  obtain ⟨i, rfl⟩ := Int.le.dest hy
  exact ⟨i, j, rfl⟩

/-- The place lies in the rectangle of a glyph. -/
def Covers (l : Location) (p : Pos) : Prop :=
  (l.firstColumn ≤ p.x ∧ p.x ≤ l.stop.x) ∧ l.start.y ≤ p.y ∧ p.y ≤ l.stop.y

/-- A panel shows a location of a grid: it has all rows of the rectangle, its last row ends with the
closing sign, and at every place it shows what the grid has there, a blank instead of a sign of the
glyph, and nothing beyond the rectangle. -/
structure ShownBy (l : Location) (g : Grid) (p : Panel) : Prop where
  level : p.level = l.level
  rows : (p.extent.1 : Int) = l.stop.y - l.start.y + 1
  lastRow : (p.extent.2 : Int) = l.level + l.stop.x - l.start.x
  sign : ∀ q, l.Marks q → p.rows.char? (l.placeIn q) = some ' '
  cell : ∀ q, l.Covers q → ¬ l.Marks q → p.rows.char? (l.placeIn q) = g.char? q
  beyond : ∀ q, ¬ l.Covers q → p.rows.char? (l.placeIn q) = none

/-- The cells of the rectangle are those of the grid, as far as it reaches. -/
theorem cell_rectangle (hx : 0 ≤ l.firstColumn) (hy : 0 ≤ l.start.y) (i j : Nat) :
    ((l.rectangle g)[i]?).bind (·[j]?) =
      if (i : Int) ≤ l.stop.y - l.start.y ∧ l.firstColumn + j ≤ l.stop.x then
        g.char? ⟨l.firstColumn + j, l.start.y + i⟩
      else none := by
  obtain ⟨a, ha⟩ := Int.eq_ofNat_of_zero_le hx
  obtain ⟨b, hb⟩ := Int.eq_ofNat_of_zero_le hy
  unfold rectangle
  rw [ha, hb, List.getElem?_map, List.getElem?_take, List.getElem?_drop, Int.toNat_natCast,
    Int.toNat_natCast]
  by_cases hi : (i : Int) ≤ l.stop.y - b
  · rw [if_pos (by omega)]
    have hchar : g.char? ⟨(a : Int) + j, (b : Int) + i⟩ = (g[b + i]?).bind (·[a + j]?) :=
      char?_natCast g (a + j) (b + i)
    rw [hchar]
    cases hrow : g[b + i]? with
    | none => simp
    | some r =>
      rw [Option.map_some, Option.bind_some, Option.bind_some, List.getElem?_drop,
        List.getElem?_take]
      by_cases hj : (a : Int) + j ≤ l.stop.x
      · rw [if_pos (by omega), if_pos ⟨hi, hj⟩]
      · rw [if_neg (by omega), if_neg fun h => hj h.2]
  · rw [if_neg (by omega), if_neg fun h => hi h.1]
    rfl

theorem Signed.firstColumn_le (h : l.Signed g) : l.firstColumn ≤ l.start.x := by
  have hlevel := h.level
  unfold firstColumn
  omega

/-- A glyph with its signs lies in the grid. -/
theorem Signed.inside (h : l.Signed g) : l.Inside g := by
  obtain ⟨hx, hy, -⟩ := char?_bounds (h.openings l.firstColumn (Int.le_refl _) h.firstColumn_le)
  obtain ⟨x, y, hstop, r, hr, hc⟩ := exists_of_char? h.closing
  obtain ⟨hlt, -⟩ := List.getElem?_eq_some_iff.mp hc
  refine ⟨h.upright, hy, hx, r, ?_, ?_⟩
  · rw [hstop]
    exact hr
  · rw [hstop]
    exact Int.ofNat_lt.mpr hlt

/-- The last row of the rectangle ends with the closing sign. -/
theorem Signed.length_lastRow (h : l.Signed g) {r : Row} (hr : (l.rectangle g).getLast? = some r) :
    (r.length : Int) = l.stop.x - l.firstColumn + 1 := by
  obtain ⟨r', hr', hlt⟩ := h.inside.lastRow
  rw [h.inside.getLast?_rectangle hr'] at hr
  obtain rfl := Option.some.inj hr
  have hfirst := h.inside.firstColumn
  have hle := h.firstColumn_le
  have hup := h.upright.1
  rw [List.length_drop, List.length_take]
  omega

/-- The opening signs stand in the first row of the rectangle. -/
theorem Signed.firstRow (h : l.Signed g) {r : Row} (hr : (l.rectangle g)[0]? = some r) {j : Nat}
    (hj : (j : Int) < l.level) : r[j]? = some '╵' := by
  have hcell := cell_rectangle (g := g) h.inside.firstColumn h.inside.firstRow 0 j
  have hcolumn : l.firstColumn + j ≤ l.start.x := by
    unfold firstColumn
    omega
  have hup := h.upright
  unfold Upright at hup
  rw [hr, Option.bind_some, if_pos (by omega), Int.natCast_zero, Int.add_zero] at hcell
  rw [hcell]
  exact h.openings _ (by omega) hcolumn

theorem Signed.level_le_firstRow (h : l.Signed g) {r : Row} (hr : (l.rectangle g)[0]? = some r) :
    l.level.toNat ≤ r.length := by
  have hlevel := h.level
  obtain ⟨hlt, -⟩ :=
    List.getElem?_eq_some_iff.mp (h.firstRow hr (j := l.level.toNat - 1) (by omega))
  omega

theorem Signed.lastRow_ne_nil (h : l.Signed g) {r : Row} (hr : (l.rectangle g).getLast? = some r) :
    r ≠ [] := by
  rintro rfl
  have hlength := h.length_lastRow hr
  have hle := h.firstColumn_le
  have hup := h.upright.1
  rw [List.length_nil] at hlength
  omega

/-- A rectangle has two rows at least. -/
theorem Signed.exists_rows (h : l.Signed g) :
    ∃ first second rest, l.rectangle g = first :: second :: rest := by
  have hlen := h.inside.length_rectangle
  have hup := h.upright.2
  cases hrect : l.rectangle g with
  | nil =>
    rw [hrect, List.length_nil] at hlen
    omega
  | cons first rest =>
    cases rest with
    | nil =>
      rw [hrect, List.length_singleton] at hlen
      omega
    | cons second rest => exact ⟨first, second, rest, rfl⟩

/-- The cells of a glyph are those of its rectangle, those of its signs apart. -/
theorem Signed.cell_cut (h : l.Signed g) (i j : Nat) :
    ((l.cut g).rows[i]?).bind (·[j]?) =
      if l.Marks ⟨l.firstColumn + j, l.start.y + i⟩ then some ' '
      else ((l.rectangle g)[i]?).bind (·[j]?) := by
  have hlen := h.inside.length_rectangle
  have hup := h.upright
  have hlevel := h.level
  have hle := h.firstColumn_le
  have hmarks : l.Marks ⟨l.firstColumn + j, l.start.y + i⟩ ↔
      (i = 0 ∧ (j : Int) < l.level) ∨
        (i + 1 = (l.rectangle g).length ∧ l.firstColumn + j = l.stop.x) := by
    obtain ⟨⟨sx, sy⟩, ⟨ex, ey⟩, n⟩ := l
    simp only [Marks, firstColumn, Upright, Pos.mk.injEq] at hup hle hlen hlevel ⊢
    omega
  unfold Upright at hup
  rw [getElem?_cut (by omega)]
  cases hr : (l.rectangle g)[i]? with
  | none =>
    have hbeyond := List.getElem?_eq_none_iff.mp hr
    rw [if_neg (c := l.Marks _) (by rw [hmarks]; omega)]
    rfl
  | some r =>
    rw [Option.map_some, Option.bind_some, Option.bind_some]
    by_cases hfirst : i = 0
    · -- The first row has its opening signs first.
      rw [if_pos hfirst, getElem?_blankFirst]
      by_cases hj : (j : Int) < l.level
      · have hsign : r[j]? = some '╵' := h.firstRow (hfirst ▸ hr) hj
        rw [if_pos (by omega), if_pos (hmarks.mpr (Or.inl ⟨hfirst, hj⟩)), hsign]
        rfl
      · rw [if_neg (by omega), if_neg (by rw [hmarks]; omega)]
    · rw [if_neg hfirst]
      by_cases hlast : i + 1 = (l.rectangle g).length
      · have hlength : (r.length : Int) = l.stop.x - l.firstColumn + 1 := by
          refine h.length_lastRow ?_
          rw [List.getLast?_eq_getElem?, ← hlast, Nat.add_sub_cancel, hr]
        rw [if_pos hlast, getElem?_blankLast]
        by_cases hj : j + 1 = r.length
        · rw [if_pos hj, if_pos (hmarks.mpr (Or.inr ⟨hlast, by omega⟩))]
        · rw [if_neg hj, if_neg (by rw [hmarks]; omega)]
      · rw [if_neg hlast, if_neg (by rw [hmarks]; omega)]
        rfl

/-- **What a glyph shows**, with its signs blanked out. -/
theorem Signed.shownBy_cut (h : l.Signed g) : l.ShownBy g (l.cut g) := by
  obtain ⟨hup, hy, hx, -⟩ := h.inside
  have hlen := h.inside.length_rectangle
  have hle := h.firstColumn_le
  unfold Upright at hup
  have hcovers : ∀ q, l.Marks q → l.Covers q := by
    rintro q (⟨hrow, hlow, hhigh⟩ | rfl)
    · exact ⟨⟨hlow, by omega⟩, by omega, by omega⟩
    · exact ⟨⟨by omega, Int.le_refl _⟩, by omega, Int.le_refl _⟩
  constructor
  case level => rfl
  case rows =>
    show ((l.cut g).rows.length : Int) = _
    rw [length_cut]
    omega
  case lastRow =>
    obtain ⟨r, hr, -⟩ := h.inside.lastRow
    have hlast := h.inside.getLast?_rectangle hr
    have hlength := h.length_lastRow hlast
    show (((l.cut g).rows.getLast?.map List.length).getD 0 : Int) = _
    rw [← List.getLast?_map, map_length_cut, List.getLast?_map, hlast, Option.map_some,
      Option.getD_some, hlength, firstColumn]
    omega
  case sign =>
    intro q hq
    obtain ⟨⟨hqx, -⟩, hqy, -⟩ := hcovers q hq
    obtain ⟨i, j, rfl⟩ := exists_distances hqx hqy
    rw [char?_placeIn, h.cell_cut, if_pos hq]
  case cell =>
    intro q hcov hq
    obtain ⟨⟨hqx, hqx'⟩, hqy, hqy'⟩ := hcov
    obtain ⟨i, j, rfl⟩ := exists_distances hqx hqy
    simp only at hqx' hqy'
    rw [char?_placeIn, h.cell_cut, if_neg hq, cell_rectangle hx hy, if_pos (by omega)]
  case beyond =>
    intro q hcov
    by_cases hq : l.firstColumn ≤ q.x ∧ l.start.y ≤ q.y
    · obtain ⟨i, j, rfl⟩ := exists_distances hq.1 hq.2
      rw [char?_placeIn, h.cell_cut, if_neg fun hm => hcov (hcovers _ hm), cell_rectangle hx hy,
        if_neg]
      intro hin
      exact hcov ⟨⟨hq.1, hin.2⟩, hq.2, by simp only; omega⟩
    · unfold placeIn char?
      rw [if_neg (by simp only; omega)]

end StrandScript.Location
