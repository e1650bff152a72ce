import StrandScript.Proofs.Moving
import StrandScript.Proofs.ProgramTree

/-!
# Glyphs cut out

A glyph is the rectangle from its opening signs to its closing sign, in which these signs are
blanked out. The rectangle lies in the grid (`Location.Inside`). Its rows may be short, but its last
one reaches to the closing sign, so that the glyph is as wide as the rectangle
(`Location.Inside.width_cut`) and has all its rows (`Location.Inside.length_rectangle`).
-/

namespace StrandScript

theorem Grid.width_eq {g : Grid} {w : Nat} (hle : ∀ r ∈ g, r.length ≤ w)
    (h : ∃ r ∈ g, r.length = w) :
    g.width = w := by
  obtain ⟨r, hr, rfl⟩ := h
  refine Nat.le_antisymm (Program.foldl_max_le (Nat.zero_le _) (List.forall_mem_map.mpr hle)) ?_
  exact (Program.le_foldl_max _ 0).2 _ (List.mem_map_of_mem hr)

namespace Location

open Grid

variable {g : Grid} {l : Location}

/-! ## Lengths -/

theorem length_blankFirst (n : Nat) (r : Row) : (blankFirst n r).length = r.length := by
  unfold blankFirst
  rw [List.length_append, List.length_replicate, List.length_drop]
  omega

theorem length_blankLast (r : Row) : (blankLast r).length = r.length := by
  unfold blankLast
  cases r with
  | nil => rfl
  | cons c r => simp

theorem map_length_onFirst {f : Row → Row} (hf : ∀ r, (f r).length = r.length) (g : Grid) :
    (onFirst f g).map List.length = g.map List.length := by
  cases g with
  | nil => rfl
  | cons r rs => simp [onFirst, hf]

theorem map_length_onLast {f : Row → Row} (hf : ∀ r, (f r).length = r.length) (g : Grid) :
    (onLast f g).map List.length = g.map List.length := by
  induction g with
  | nil => rfl
  | cons r rs ih =>
    cases rs with
    | nil => simp [onLast, hf]
    | cons r' rs =>
      show r.length :: (onLast f (r' :: rs)).map List.length = _
      rw [ih]
      rfl

/-- Blanking out signs leaves all lengths as they are. -/
theorem map_length_cut (l : Location) (g : Grid) :
    (l.cut g).rows.map List.length = (l.rectangle g).map List.length := by
  unfold cut
  rw [map_length_onLast length_blankLast, map_length_onFirst (length_blankFirst _)]

/-! ## Places -/

/-- A location that was found in a grid: it lies in the grid with all its opening signs, and its
last row reaches to its closing sign. -/
structure Inside (l : Location) (g : Grid) : Prop where
  upright : l.Upright
  firstRow : 0 ≤ l.start.y
  firstColumn : 0 ≤ l.firstColumn
  lastRow : ∃ r, g[l.stop.y.toNat]? = some r ∧ l.stop.x < r.length

theorem inside_of_locations {ls : List Location} (h : g.locations = .ok ls) (hl : l ∈ ls) :
    l.Inside g := by
  obtain ⟨hy, hcol, -, -, hup⟩ := bounds_of_locations h hl
  obtain ⟨-, hclosings, -⟩ := Location.ofSigns_eq_ok h
  obtain ⟨x, y, hclose, hstop⟩ := (mem_closings _).mp
    (hclosings.symm.subset (List.mem_map_of_mem (f := Location.stop) hl))
  obtain ⟨r, hr, hc⟩ := exists_of_char_ne hclose.ne_blank
  obtain ⟨hlt, -⟩ := List.getElem?_eq_some_iff.mp hc
  refine ⟨hup, hy, hcol, r, ?_, ?_⟩
  · rw [hstop]
    exact hr
  · rw [hstop]
    exact Int.ofNat_lt.mpr hlt

theorem Inside.getLast?_rectangle (h : l.Inside g) {r : Row} (hr : g[l.stop.y.toNat]? = some r) :
    (l.rectangle g).getLast? =
      some ((r.take (l.stop.x + 1).toNat).drop l.firstColumn.toNat) := by
  obtain ⟨⟨-, hup⟩, hy, -, -⟩ := h
  obtain ⟨hlt, -⟩ := List.getElem?_eq_some_iff.mp hr
  unfold rectangle
  rw [List.getLast?_map, List.getLast?_eq_getElem?, List.length_take, List.length_drop,
    List.getElem?_take_of_lt (by omega), List.getElem?_drop,
    show l.start.y.toNat + (min (l.stop.y - l.start.y + 1).toNat (g.length - l.start.y.toNat) - 1) =
      l.stop.y.toNat by omega, hr]
  rfl

theorem Inside.width_cut (h : l.Inside g) :
    (l.cut g).rows.width = (l.stop.x + 1).toNat - l.firstColumn.toNat := by
  have hwidth : (l.cut g).rows.width = (l.rectangle g).width := by
    rw [width, width, map_length_cut]
  obtain ⟨r, hr, hx⟩ := h.lastRow
  rw [hwidth]
  refine width_eq ?_ ⟨_, List.mem_of_getLast? (h.getLast?_rectangle hr), ?_⟩
  · refine List.forall_mem_map.mpr fun r _ => ?_
    rw [List.length_drop, List.length_take]
    omega
  · rw [List.length_drop, List.length_take]
    omega

theorem Inside.length_rectangle (h : l.Inside g) :
    (l.rectangle g).length = (l.stop.y - l.start.y + 1).toNat := by
  obtain ⟨⟨-, hup⟩, hy, -, r, hr, -⟩ := h
  obtain ⟨hlt, -⟩ := List.getElem?_eq_some_iff.mp hr
  rw [rectangle, List.length_map, List.length_take, List.length_drop]
  omega

theorem Inside.rows_ne_nil (h : l.Inside g) : (l.cut g).rows ≠ [] := by
  have hlen : (l.cut g).rows.length = (l.stop.y - l.start.y + 1).toNat := by
    rw [← h.length_rectangle, ← List.length_map (f := List.length), map_length_cut, List.length_map]
  have hup := h.upright.2
  exact List.ne_nil_of_length_pos (by omega)

end Location

theorem Grid.rows_ne_nil_of_panels {g : Grid} {ps : List Panel} (h : g.panels? = some ps) :
    ∀ p ∈ ps, p.rows ≠ [] := by
  obtain ⟨ls, hls, rfl⟩ := Option.map_eq_some_iff.mp h
  refine List.forall_mem_map.mpr fun l hl => ?_
  exact (Location.inside_of_locations (Outcome.toOption_eq_some.mp hls) hl).rows_ne_nil

end StrandScript
