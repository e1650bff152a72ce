import StrandScript.Proofs.Placement
import StrandScript.Step

/-!
# Layouts of a program

Glyphs may stand one below the other or side by side. A tile is a rectangle of characters that holds
one glyph; tiles in either layout are read as the same program, with the glyphs in the order of the
tiles (`layouts_agree`).

* `Tile.stacked`: tiles one below the other, with an empty row between them.
* `Tile.beside`: tiles side by side, the shorter ones filled up with blank rows.
-/

namespace StrandScript

/-- A rectangle of characters with a blank last column, in which one glyph is found that begins in
the first row. -/
structure Tile where
  rows : Grid
  width : Nat
  location : Location
  rectangular : ∀ r ∈ rows, r.length = width
  unbroken : ∀ r ∈ rows, ∀ c ∈ r, Lines.isBreak c = false
  blank : ∀ r ∈ rows, r.getLast? = some ' '
  located : rows.locations = .ok [location]
  first : location.start.y = 0

namespace Tile

variable (t : Tile)

/-- The glyph of a tile cut out. -/
def panel : Panel := t.location.cut t.rows

theorem blankEnds : t.rows.BlankEnds := fun r hr _ hc =>
  (Option.some.inj ((t.blank r hr).symm.trans hc)).symm

theorem upright : t.location.Upright := (Location.ofSigns_eq_ok t.located).2.2 _ List.mem_cons_self

theorem holds : t.rows.char.Holds [t.location] := by
  obtain ⟨hopenings, hclosings, -⟩ := Location.ofSigns_eq_ok t.located
  constructor
  case opens => exact fun o => (Grid.mem_openings t.blankEnds o).symm.trans hopenings.mem_iff
  case closes => exact fun p => (Grid.mem_closings p).symm.trans hclosings.mem_iff

theorem char_of_width_le (x y : Nat) (h : t.width ≤ x + 1) : t.rows.char x y = ' ' := by
  by_contra hne
  obtain ⟨r, hr, hc⟩ := Grid.exists_of_char_ne hne
  have hmem := List.mem_of_getElem? hr
  obtain ⟨hlt, -⟩ := List.getElem?_eq_some_iff.mp hc
  have hlast : r[x]? = some ' ' := by
    rw [← t.blank r hmem, List.getLast?_eq_getElem?]
    congr 1
    have := t.rectangular r hmem
    omega
  exact hne (Option.some.inj (hc.symm.trans hlast))

/-- The glyph ends in the tile, before the last column. -/
theorem stop_lt : t.location.stop.x + 1 < t.width ∧ t.location.stop.y < t.rows.length := by
  obtain ⟨x, y, hstop, hclose⟩ := t.holds.stop List.mem_cons_self
  have hne : t.rows.char x y ≠ ' ' := by
    rw [hclose]
    decide
  have hx : x + 1 < t.width := by
    by_contra hx
    exact hne (t.char_of_width_le x y (by omega))
  have hy : y < t.rows.length := by
    by_contra hy
    exact hne (Grid.char_of_length_le (by omega))
  rw [hstop]
  simp only
  omega

/-! ## One below the other -/

/-- Tiles one below the other, with an empty row between them. -/
def stacked : List Tile → Grid
  | [] => []
  | [t] => t.rows
  | t :: ts => t.rows ++ [] :: stacked ts

/-- The locations of the tiles one below the other. -/
def stackedLocations : List Tile → List Location
  | [] => []
  | t :: ts => t.location :: (stackedLocations ts).map (·.shift 0 (t.rows.length + 1))

theorem stacked_cons {ts : List Tile} (h : ts ≠ []) :
    stacked (t :: ts) = t.rows ++ [] :: stacked ts := by
  rw [stacked]
  exact fun he => h he

theorem char_stacked_cons (ts : List Tile) :
    (stacked (t :: ts)).char = Plane.below t.rows.length t.rows.char (stacked ts).char := by
  by_cases h : ts = []
  · subst h
    exact (Plane.below_nil t.rows).symm
  · rw [t.stacked_cons h, Plane.char_append_empty]

theorem holds_stacked (ts : List Tile) : (stacked ts).char.Holds (stackedLocations ts) := by
  induction ts with
  | nil => exact Plane.holds_blank fun x y => Grid.char_of_length_le (Nat.zero_le y)
  | cons t ts ih =>
    rw [t.char_stacked_cons]
    exact t.holds.join ih (Plane.joins_below (fun x y hy => Grid.char_of_length_le hy) _)

theorem separate_stacked (ts : List Tile) : Location.Separate (stackedLocations ts) := by
  induction ts with
  | nil => exact .nil
  | cons t ts ih =>
    have hstop := t.stop_lt.2
    have hfirst := t.first
    -- All other glyphs lie below the tile.
    refine ih.cons 0 (t.rows.length + 1) t.upright (fun l hl => ?_) fun l hl => Or.inl ?_
    · have hy := ((holds_stacked ts).nonneg hl).2.1
      refine .of_below ((ih.upright l hl).shift _ _) ?_
      simp only [Location.shift, Pos.shift]
      omega
    · have hy := ((holds_stacked ts).nonneg hl).2.1
      simp only [Location.shift, Pos.shift]
      omega

theorem cut_append (B : Grid) : t.location.cut (t.rows ++ B) = t.panel := by
  have hfirst : 0 ≤ t.location.start.y := by rw [t.first]
  rw [← Location.cut_take hfirst t.upright t.stop_lt.2, List.take_left]
  rfl

theorem cut_stacked (ts : List Tile) :
    (stackedLocations ts).map (·.cut (stacked ts)) = ts.map (·.panel) := by
  induction ts with
  | nil => rfl
  | cons t ts ih =>
    by_cases h : ts = []
    · subst h
      rfl
    · rw [t.stacked_cons h, stackedLocations, List.map_cons, List.map_cons, t.cut_append,
        List.map_map, ← ih]
      congr 1
      refine List.map_congr_left fun l hl => ?_
      obtain ⟨-, hy, hcol, hx⟩ := (holds_stacked ts).nonneg hl
      exact Location.cut_shift_below hy hcol hx _ _

theorem mem_stacked {ts : List Tile} {r : Row} (h : r ∈ stacked ts) :
    r = [] ∨ ∃ t ∈ ts, r ∈ t.rows := by
  induction ts with
  | nil => cases h
  | cons t ts ih =>
    by_cases hne : ts = []
    · subst hne
      exact Or.inr ⟨t, List.mem_cons_self, h⟩
    · rw [t.stacked_cons hne, List.mem_append, List.mem_cons] at h
      rcases h with h | h | h
      · exact Or.inr ⟨t, List.mem_cons_self, h⟩
      · exact Or.inl h
      · obtain rfl | ⟨t', ht', hr⟩ := ih h
        · exact Or.inl rfl
        · exact Or.inr ⟨t', List.mem_cons_of_mem _ ht', hr⟩

/-! ## Side by side -/

/-- Row `y` of a tile, blank below the tile. -/
def row (y : Nat) : Row := t.rows.getD y (List.replicate t.width ' ')

/-- Row `y` of tiles side by side. -/
def rowAcross (ts : List Tile) (y : Nat) : Row := ts.flatMap (·.row y)

/-- The number of rows of the tallest tile. -/
def height : List Tile → Nat
  | [] => 0
  | t :: ts => max t.rows.length (height ts)

/-- Tiles side by side, the shorter ones filled up with blank rows. -/
def beside (ts : List Tile) : Grid := (List.range (height ts)).map (rowAcross ts)

/-- The locations of the tiles side by side. -/
def besideLocations : List Tile → List Location
  | [] => []
  | t :: ts => t.location :: (besideLocations ts).map (·.shift t.width 0)

theorem length_row (y : Nat) : (t.row y).length = t.width := by
  unfold row
  rw [List.getD_eq_getElem?_getD]
  cases h : t.rows[y]? with
  | none => simp
  | some r => exact t.rectangular r (List.mem_of_getElem? h)

theorem char_row (x y : Nat) : t.rows.char x y = (t.row y).getD x ' ' := by
  unfold Grid.char row
  rw [List.getD_eq_getElem?_getD, List.getD_eq_getElem?_getD]
  cases h : t.rows[y]? with
  | none =>
    rw [Option.bind_none, Option.getD_none, Option.getD_none, List.getElem?_replicate]
    split <;> rfl
  | some r => rfl

theorem length_le_height {ts : List Tile} {t : Tile} (h : t ∈ ts) : t.rows.length ≤ height ts := by
  induction ts with
  | nil => cases h
  | cons t' ts ih =>
    rw [height]
    rcases List.mem_cons.mp h with rfl | h
    · exact Nat.le_max_left _ _
    · exact (ih h).trans (Nat.le_max_right _ _)

theorem char_map_range (n : Nat) (f : Nat → Row) (x y : Nat) :
    Grid.char ((List.range n).map f) x y = if y < n then (f y).getD x ' ' else ' ' := by
  unfold Grid.char
  rw [List.getElem?_map, List.getD_eq_getElem?_getD]
  split
  · rename_i hy
    rw [List.getElem?_range hy]
    rfl
  · rename_i hy
    rw [List.getElem?_eq_none (by simpa using hy)]
    rfl

theorem char_beside_cons {n : Nat} (hn : t.rows.length ≤ n) (ts : List Tile) :
    Grid.char ((List.range n).map (rowAcross (t :: ts))) =
      Plane.beside t.width t.rows.char (Grid.char ((List.range n).map (rowAcross ts))) := by
  funext x y
  have hrow : rowAcross (t :: ts) y = t.row y ++ rowAcross ts y := List.flatMap_cons
  rw [char_map_range, hrow]
  rcases Nat.lt_or_ge x t.width with hx | hx
  · rw [Plane.beside_lt hx]
    split
    · rw [t.char_row, List.getD_append _ _ _ _ (by rwa [t.length_row])]
    · rw [Grid.char_of_length_le (by omega)]
  · obtain ⟨z, rfl⟩ : ∃ z, x = z + t.width := ⟨x - t.width, by omega⟩
    rw [Plane.beside_add, char_map_range]
    split
    · rw [List.getD_append_right _ _ _ _ (by rw [t.length_row]; omega), t.length_row,
        Nat.add_sub_cancel]
    · rfl

variable {n : Nat}

theorem holds_beside {ts : List Tile} (hn : ∀ t ∈ ts, t.rows.length ≤ n) :
    (Grid.char ((List.range n).map (rowAcross ts))).Holds (besideLocations ts) := by
  induction ts with
  | nil =>
    refine Plane.holds_blank fun x y => ?_
    rw [char_map_range]
    split <;> rfl
  | cons t ts ih =>
    rw [List.forall_mem_cons] at hn
    rw [t.char_beside_cons hn.1]
    exact t.holds.join (ih hn.2) (Plane.joins_beside t.char_of_width_le _)

theorem start_beside {ts : List Tile} {l : Location} (h : l ∈ besideLocations ts) :
    l.start.y = 0 := by
  induction ts generalizing l with
  | nil => cases h
  | cons t ts ih =>
    rcases List.mem_cons.mp h with rfl | h
    · exact t.first
    · obtain ⟨l', hl', rfl⟩ := List.mem_map.mp h
      simp [Location.shift, Pos.shift, ih hl']

theorem separate_beside (ts : List Tile) : Location.Separate (besideLocations ts) := by
  induction ts with
  | nil => exact .nil
  | cons t ts ih =>
    have hstop := t.stop_lt.1
    have hup := t.upright
    have hfirst := t.first
    -- All other glyphs lie right of the tile and begin in the first row.
    have hright : ∀ l ∈ besideLocations ts, 0 ≤ l.start.x ∧ l.start.y = 0 := fun l hl =>
      ⟨((holds_beside fun _ => length_le_height).nonneg hl).1, start_beside hl⟩
    refine ih.cons t.width 0 hup (fun l hl => ?_) fun l hl => Or.inr ?_
    · obtain ⟨hx, hy⟩ := hright l hl
      refine .of_right hup ((ih.upright l hl).shift _ _) ?_ ?_ <;>
        simp only [Location.shift, Pos.shift] <;> omega
    · obtain ⟨hx, hy⟩ := hright l hl
      unfold Location.Upright at hup
      simp only [Location.shift, Pos.shift]
      omega

theorem map_row_range : (List.range t.rows.length).map t.row = t.rows := by
  refine List.ext_getElem (by simp) fun y h₁ h₂ => ?_
  rw [List.getElem_map, List.getElem_range, row, List.getD_eq_getElem _ _ h₂]

theorem cut_rowAcross (hn : t.rows.length ≤ n) (ts : List Tile) :
    t.location.cut ((List.range n).map (rowAcross (t :: ts))) = t.panel := by
  obtain ⟨hstop, hlast⟩ := t.stop_lt
  have hfirst : 0 ≤ t.location.start.y := by rw [t.first]
  calc t.location.cut ((List.range n).map (rowAcross (t :: ts)))
      = t.location.cut ((List.range n).map t.row) :=
        Location.cut_append_right fun y _ => by rw [t.length_row]; omega
    _ = t.location.cut (((List.range n).map t.row).take t.rows.length) :=
        (Location.cut_take hfirst t.upright hlast).symm
    _ = t.panel := by
        rw [← List.map_take, List.take_range, Nat.min_eq_left hn, t.map_row_range]
        rfl

theorem cut_beside {ts : List Tile} (hn : ∀ t ∈ ts, t.rows.length ≤ n) :
    (besideLocations ts).map (·.cut ((List.range n).map (rowAcross ts))) = ts.map (·.panel) := by
  induction ts with
  | nil => rfl
  | cons t ts ih =>
    rw [List.forall_mem_cons] at hn
    rw [besideLocations, List.map_cons, List.map_cons, t.cut_rowAcross hn.1, List.map_map,
      ← ih hn.2]
    congr 1
    refine List.map_congr_left fun l hl => ?_
    obtain ⟨-, hy, hcol, hx⟩ := (holds_beside hn.2).nonneg hl
    exact Location.cut_shift_right hy hcol hx t.length_row

/-! ## Both layouts -/

theorem row_cases (y : Nat) : t.row y ∈ t.rows ∨ t.row y = List.replicate t.width ' ' := by
  unfold row
  rw [List.getD_eq_getElem?_getD]
  cases h : t.rows[y]? with
  | none => exact Or.inr rfl
  | some r => exact Or.inl (List.mem_of_getElem? h)

theorem getLast?_rowAcross {ts : List Tile} {y : Nat} :
    ∀ c ∈ (rowAcross ts y).getLast?, c = ' ' := by
  intro c hc
  induction ts with
  | nil => cases hc
  | cons t ts ih =>
    have hrow : rowAcross (t :: ts) y = t.row y ++ rowAcross ts y := List.flatMap_cons
    rw [hrow, List.getLast?_append, Option.mem_def, Option.or_eq_some_iff] at hc
    rcases hc with hc | ⟨-, hc⟩
    · exact ih hc
    · rcases t.row_cases y with hmem | hblank
      · exact t.blankEnds _ hmem c hc
      · rw [hblank] at hc
        exact List.eq_of_mem_replicate (List.mem_of_getLast? hc)

theorem unbroken_rowAcross {ts : List Tile} {y : Nat} :
    ∀ c ∈ rowAcross ts y, Lines.isBreak c = false := by
  intro c hc
  obtain ⟨t, -, hc⟩ := List.mem_flatMap.mp hc
  rcases t.row_cases y with hmem | hblank
  · exact t.unbroken _ hmem c hc
  · rw [hblank] at hc
    rw [List.eq_of_mem_replicate hc]
    decide

variable {ts : List Tile}

/-- Tiles one below the other are read as their glyphs in turn. -/
theorem parse_stacked (limit : Nat) (h : ts ≠ []) :
    Program.parseWithin limit (stacked ts).text = Program.assemble limit (ts.map (·.panel)) := by
  have hunbroken : ∀ r ∈ stacked ts, ∀ c ∈ r, Lines.isBreak c = false := fun r hr c hc => by
    obtain rfl | ⟨t, -, hr⟩ := mem_stacked hr
    · cases hc
    · exact t.unbroken r hr c hc
  have hends : (stacked ts).BlankEnds := fun r hr c hc => by
    obtain rfl | ⟨t, -, hr⟩ := mem_stacked hr
    · cases hc
    · exact t.blankEnds r hr c hc
  have hfirst : ∃ l ∈ stackedLocations ts, l.start.y = 0 := by
    obtain ⟨t, ts, rfl⟩ := List.exists_cons_of_ne_nil h
    exact ⟨t.location, List.mem_cons_self, t.first⟩
  rw [Program.parseWithin, Program.grid_text hunbroken,
    Program.parseGrid_of_holds limit hends (holds_stacked ts) (separate_stacked ts) hfirst,
    cut_stacked]

/-- Tiles side by side are read as their glyphs in turn. -/
theorem parse_beside (limit : Nat) (h : ts ≠ []) :
    Program.parseWithin limit (beside ts).text = Program.assemble limit (ts.map (·.panel)) := by
  have hheight : ∀ t ∈ ts, t.rows.length ≤ height ts := fun t => length_le_height
  have hunbroken : ∀ r ∈ beside ts, ∀ c ∈ r, Lines.isBreak c = false :=
    List.forall_mem_map.mpr fun y _ => unbroken_rowAcross
  have hends : (beside ts).BlankEnds := List.forall_mem_map.mpr fun y _ => getLast?_rowAcross
  have hfirst : ∃ l ∈ besideLocations ts, l.start.y = 0 := by
    obtain ⟨t, ts, rfl⟩ := List.exists_cons_of_ne_nil h
    exact ⟨t.location, List.mem_cons_self, t.first⟩
  rw [Program.parseWithin, Program.grid_text hunbroken,
    Program.parseGrid_of_holds limit hends (holds_beside hheight) (separate_beside ts) hfirst,
      beside,
    cut_beside hheight]

end Tile

/-- **Both layouts are the same program.** Tiles one below the other and tiles side by side are read
alike, with the same fault or with the glyphs of the tiles in their order. -/
theorem layouts_agree (limit : Nat) (ts : List Tile) (h : ts ≠ []) :
    Program.parseWithin limit (Tile.stacked ts).text =
        Program.parseWithin limit (Tile.beside ts).text ∧
      ∀ gs, Program.parseWithin limit (Tile.beside ts).text = .ok gs →
        gs.map (·.toPanel) = ts.map (·.panel) := by
  rw [Tile.parse_stacked limit h, Tile.parse_beside limit h]
  exact ⟨rfl, fun gs hgs => Program.assemble_panels hgs⟩

/-- A glyph of level two over three rows. -/
def tallTile : Tile where
  rows := [['╵', '╵', '╰', '─', ' '], [' ', ' ', '╰', '─', ' '], [' ', ' ', ' ', '╷', ' ']]
  width := 5
  location := ⟨⟨1, 0⟩, ⟨3, 2⟩, 2⟩
  rectangular := by decide
  unbroken := by simp [Lines.isBreak]
  blank := by decide
  located := by cbv
  first := rfl

/-- A glyph of two rows, which closes before a tall one on its left does. -/
def lowTile : Tile where
  rows := [['╵', '╰', '─', ' '], [' ', ' ', '╷', ' ']]
  width := 4
  location := ⟨⟨0, 0⟩, ⟨2, 1⟩, 1⟩
  rectangular := by decide
  unbroken := by simp [Lines.isBreak]
  blank := by decide
  located := by cbv
  first := rfl

/-- Both ways to lay out the two glyphs are read, as the same program: the numbers `1` and `2` on
the rows of the tall glyph, and `1` on the first row of the other. -/
theorem layouts_agree_tall_low : [tallTile, lowTile] ≠ [] ∧
    (Tile.stacked [tallTile, lowTile]).text = "╵╵╰─ \n  ╰─ \n   ╷ \n\n╵╰─ \n  ╷ \n" ∧
    (Tile.beside [tallTile, lowTile]).text = "╵╵╰─ ╵╰─ \n  ╰─   ╷ \n   ╷     \n" ∧
    ∃ gs, Program.parseWithin nestingLimit (Tile.stacked [tallTile, lowTile]).text = .ok gs ∧
      Program.parseWithin nestingLimit (Tile.beside [tallTile, lowTile]).text = .ok gs ∧
      gs.map (·.toPanel) = [tallTile, lowTile].map (·.panel) ∧
      gs.map (fun g => (g.level, g.tokens.map fun t => (t.step.list, t.step.value))) =
        [(2, [(some 1, some (.int 1)), (some 2, some (.int 2))]),
          (1, [(some 1, some (.int 1))])] := by
  have hbeside : (Tile.beside [tallTile, lowTile]).text = "╵╵╰─ ╵╰─ \n  ╰─   ╷ \n   ╷     \n" := by
    decide +kernel
  obtain ⟨gs, hparse, hfields⟩ : ∃ gs,
      Program.parseWithin nestingLimit (Tile.beside [tallTile, lowTile]).text = .ok gs ∧
      gs.map (fun g => (g.level, g.tokens.map fun t => (t.step.list, t.step.value))) =
        [(2, [(some 1, some (.int 1)), (some 2, some (.int 2))]),
          (1, [(some 1, some (.int 1))])] := by
    rw [hbeside]
    exact ⟨_, by conv_lhs => cbv, by rfl⟩
  obtain ⟨hagree, hpanels⟩ :=
    layouts_agree nestingLimit [tallTile, lowTile] (List.cons_ne_nil _ _)
  exact ⟨List.cons_ne_nil _ _, by decide +kernel, hbeside, gs, hagree.trans hparse, hparse,
    hpanels gs hparse, hfields⟩

end StrandScript
