import StrandScript.Proofs.Placement

/-!
# Programs moved

A program may stand anywhere in its text. Blank columns left of it and blank rows above and below it
move its opening and closing signs alike, so these are paired as before, and the same glyphs are cut
out (`Grid.panels?_moved`). As the rows that are trimmed off are blank too, what is read depends on
these glyphs only (`Program.parseGrid_eq_ok_iff`), and `parse_moved` follows.

* `Grid.moved`: a grid with blank columns and rows around it.
* `Plane.moved`: the plane of such a grid.
* `Grid.panels?`: the glyphs that are cut out of a grid.
-/

namespace StrandScript

/-! ## Signs moved -/

namespace Plane

variable {P : Plane} {dx dy : Nat}

/-- The plane moved right and down. -/
def moved (dx dy : Nat) (P : Plane) : Plane := fun x y =>
  if x < dx ∨ y < dy then ' ' else P (x - dx) (y - dy)

theorem moved_blank {x y : Nat} (h : x < dx ∨ y < dy) : moved dx dy P x y = ' ' := if_pos h

theorem moved_add {x y : Nat} : moved dx dy P (x + dx) (y + dy) = P x y := by
  unfold moved
  rw [if_neg (by omega), Nat.add_sub_cancel, Nat.add_sub_cancel]

theorem above_moved {x y : Nat} : (moved dx dy P).above (x + dx) (y + dy) = P.above x y := by
  cases y with
  | zero =>
    rw [Nat.zero_add]
    cases dy with
    | zero => rfl
    | succ dy => exact moved_blank (Or.inr (Nat.lt_succ_self dy))
  | succ y =>
    rw [Nat.add_right_comm]
    exact moved_add

theorem run_moved {x y : Nat} : (moved dx dy P).run (y + dy) (x + dx) = P.run y x := by
  induction x with
  | zero =>
    rw [Nat.zero_add]
    cases dx with
    | zero => rfl
    | succ dx =>
      rw [run_succ, moved_blank (Or.inl (Nat.lt_succ_self dx))]
      rfl
  | succ x ih => rw [Nat.add_right_comm, run_succ, run_succ, moved_add, ih]

theorem shows_moved (dx dy : Nat) (P : Plane) : (moved dx dy P).Shows P dx dy := by
  constructor
  case char => exact fun _ => moved_add
  case next =>
    intro x y _
    rw [Nat.add_right_comm]
    exact moved_add
  case above => exact fun _ => above_moved
  case under =>
    intro x y _
    rw [Nat.add_right_comm]
    exact moved_add
  case run => exact fun _ => run_moved

theorem exists_of_moved_ne {x y : Nat} (h : moved dx dy P x y ≠ ' ') :
    ∃ x' y', P x' y' ≠ ' ' ∧ x = x' + dx ∧ y = y' + dy := by
  have hin : ¬ (x < dx ∨ y < dy) := fun hout => h (moved_blank hout)
  obtain ⟨x', rfl⟩ : ∃ x', x = x' + dx := ⟨x - dx, by omega⟩
  obtain ⟨y', rfl⟩ : ∃ y', y = y' + dy := ⟨y - dy, by omega⟩
  rw [moved_add] at h
  exact ⟨x', y', h, rfl, rfl⟩

theorem opens_moved (o : Opening) :
    (moved dx dy P).Opens o ↔ ∃ o', P.Opens o' ∧ o = o'.shift dx dy := by
  constructor
  · rintro ⟨x, y, hopen, rfl⟩
    obtain ⟨x, y, hne, rfl, rfl⟩ := exists_of_moved_ne hopen.ne_blank
    rw [run_moved]
    exact ⟨_, ⟨x, y, ((shows_moved dx dy P).isOpening hne).mp hopen, rfl⟩, rfl⟩
  · rintro ⟨o', ho, rfl⟩
    exact (shows_moved dx dy P).opens ho

theorem closes_moved (p : Pos) :
    (moved dx dy P).Closes p ↔ ∃ p', P.Closes p' ∧ p = p'.shift dx dy := by
  constructor
  · rintro ⟨x, y, hclose, rfl⟩
    obtain ⟨x, y, hne, rfl, rfl⟩ := exists_of_moved_ne hclose.ne_blank
    exact ⟨_, ⟨x, y, ((shows_moved dx dy P).isClosing hne).mp hclose, rfl⟩, rfl⟩
  · rintro ⟨p', hp, rfl⟩
    exact (shows_moved dx dy P).closes hp

end Plane

namespace Grid

/-- The grid with `k` blank columns left of it, and with further rows above and below. -/
def moved (above below : Grid) (k : Nat) (g : Grid) : Grid :=
  above ++ g.map (List.replicate k ' ' ++ ·) ++ below

/-- All rows are blank. -/
def Blank (g : Grid) : Prop := ∀ r ∈ g, isBlankRow r = true

variable {g above below : Grid} {k : Nat}

theorem char_of_blank {x y : Nat} (h : ∀ row, g[y]? = some row → isBlankRow row = true) :
    g.char x y = ' ' := by
  by_contra hne
  obtain ⟨row, hrow, hc⟩ := exists_of_char_ne hne
  exact hne (by simpa using List.all_eq_true.mp (h row hrow) _ (List.mem_of_getElem? hc))

theorem getElem?_moved (above below : Grid) (k : Nat) {y : Nat} (h : y < g.length) :
    (moved above below k g)[y + above.length]? = (g[y]?).map (List.replicate k ' ' ++ ·) := by
  unfold moved
  rw [List.append_assoc, List.getElem?_append_right (by omega), Nat.add_sub_cancel,
    List.getElem?_append_left (by simpa using h), List.getElem?_map]

theorem char_moved (habove : above.Blank) (hbelow : below.Blank) (k : Nat) (g : Grid) :
    (moved above below k g).char = Plane.moved k above.length g.char := by
  -- Row by row: those above, those of the grid with their blanks in front, those below.
  funext x y
  rcases Nat.lt_or_ge y above.length with hy | hy
  · rw [Plane.moved_blank (Or.inr hy)]
    refine char_of_blank fun row hrow => habove row ?_
    rw [moved, List.append_assoc, List.getElem?_append_left hy] at hrow
    exact List.mem_of_getElem? hrow
  · obtain ⟨z, rfl⟩ : ∃ z, y = z + above.length := ⟨y - above.length, by omega⟩
    rcases Nat.lt_or_ge z g.length with hz | hz
    · rw [char, getElem?_moved above below k hz, List.getElem?_eq_getElem hz, Option.map_some,
        Option.bind_some]
      rcases Nat.lt_or_ge x k with hx | hx
      · rw [Plane.moved_blank (Or.inl hx), List.getElem?_append_left (by simpa using hx),
          List.getElem?_replicate_of_lt hx]
        rfl
      · obtain ⟨w, rfl⟩ : ∃ w, x = w + k := ⟨x - k, by omega⟩
        rw [Plane.moved_add, List.getElem?_append_right (by simp), List.length_replicate,
          Nat.add_sub_cancel, char, List.getElem?_eq_getElem hz, Option.bind_some]
    · have hrest : (moved above below k g).char x (z + above.length) = ' ' := by
        refine char_of_blank fun row hrow => hbelow row ?_
        rw [moved, List.getElem?_append_right (by simp; omega)] at hrow
        exact List.mem_of_getElem? hrow
      rw [hrest]
      rcases Nat.lt_or_ge x k with hx | hx
      · rw [Plane.moved_blank (Or.inl hx)]
      · obtain ⟨w, rfl⟩ : ∃ w, x = w + k := ⟨x - k, by omega⟩
        rw [Plane.moved_add, char_of_length_le hz]

theorem followed_moved (above below : Grid) (k : Nat) {x y : Nat} (h : y < g.length) :
    (moved above below k g).Followed (Pos.shift ⟨x, y⟩ k above.length) ↔ g.Followed ⟨x, y⟩ := by
  have hrow : g[y]? = some g[y] := List.getElem?_eq_getElem h
  have hmoved := getElem?_moved above below k h
  rw [hrow, Option.map_some] at hmoved
  constructor
  · rintro ⟨x', y', row, hpos, hrow', hlt⟩
    simp only [Pos.shift, Pos.mk.injEq] at hpos
    obtain rfl : y' = y + above.length := by omega
    obtain rfl : x' = x + k := by omega
    rw [hmoved] at hrow'
    cases hrow'
    rw [List.length_append, List.length_replicate] at hlt
    exact ⟨x, y, _, rfl, hrow, by omega⟩
  · rintro ⟨x', y', row, hpos, hrow', hlt⟩
    simp only [Pos.mk.injEq, Int.natCast_inj] at hpos
    obtain ⟨rfl, rfl⟩ := hpos
    rw [hrow] at hrow'
    cases hrow'
    refine ⟨x + k, y + above.length, _, rfl, hmoved, ?_⟩
    rw [List.length_append, List.length_replicate]
    omega

/-- Lists in reading order are equal if they have the same members. -/
theorem eq_of_readsBefore {α : Type} (pos : α → Pos) {as bs : List α}
    (has : as.Pairwise fun a b => (pos a).ReadsBefore (pos b))
    (hbs : bs.Pairwise fun a b => (pos a).ReadsBefore (pos b)) (h : ∀ a, a ∈ as ↔ a ∈ bs) :
    as = bs := by
  have hne : ∀ {a b}, (pos a).ReadsBefore (pos b) → a ≠ b := fun hab he => hab.ne (congrArg pos he)
  have hperm := (List.perm_ext_iff_of_nodup (has.imp hne) (hbs.imp hne)).mpr h
  refine hperm.eq_of_pairwise (fun a b _ _ hab hba => ?_) has hbs
  unfold Pos.ReadsBefore at hab hba
  omega

/-- **Opening signs move with the grid.** -/
theorem openings_moved (habove : above.Blank) (hbelow : below.Blank) (k : Nat) (g : Grid) :
    (moved above below k g).openings = g.openings.map (·.shift k above.length) := by
  refine eq_of_readsBefore Opening.pos openings_readsBefore ?_ fun o => ?_
  · exact List.pairwise_map.mpr
      (openings_readsBefore.imp fun hab => (Pos.readsBefore_shift _ _).mpr hab)
  · rw [mem_openings_iff, char_moved habove hbelow, Plane.opens_moved, List.mem_map]
    constructor
    · rintro ⟨⟨o', ⟨x, y, hopen, rfl⟩, rfl⟩, hnext⟩
      obtain ⟨row, hrow, -⟩ := exists_of_char_ne hopen.ne_blank
      obtain ⟨hlt, -⟩ := List.getElem?_eq_some_iff.mp hrow
      exact ⟨_, (mem_openings_iff _).mpr ⟨⟨x, y, hopen, rfl⟩, (followed_moved _ _ _ hlt).mp hnext⟩,
        rfl⟩
    · rintro ⟨o', ho, rfl⟩
      obtain ⟨hopen, hnext⟩ := (mem_openings_iff o').mp ho
      refine ⟨⟨o', hopen, rfl⟩, ?_⟩
      obtain ⟨x, y, row, hpos, hrow, hx⟩ := hnext
      obtain ⟨hlt, -⟩ := List.getElem?_eq_some_iff.mp hrow
      rw [Opening.shift, hpos, followed_moved _ _ _ hlt]
      exact ⟨x, y, row, rfl, hrow, hx⟩

/-- **Closing signs move with the grid.** -/
theorem closings_moved (habove : above.Blank) (hbelow : below.Blank) (k : Nat) (g : Grid) :
    (moved above below k g).closings = g.closings.map (·.shift k above.length) := by
  refine eq_of_readsBefore (fun p => p) closings_readsBefore ?_ fun p => ?_
  · exact List.pairwise_map.mpr
      (closings_readsBefore.imp fun hab => (Pos.readsBefore_shift _ _).mpr hab)
  · rw [mem_closings, char_moved habove hbelow, Plane.closes_moved, List.mem_map]
    refine exists_congr fun p' => ?_
    rw [mem_closings, eq_comm]

end Grid

/-! ## Locations moved -/

theorem Pos.rowMajor_shift {p q : Pos} (dx dy : Nat) :
    (p.shift dx dy).rowMajor (q.shift dx dy) = p.rowMajor q := by
  rw [Bool.eq_iff_iff]
  simp only [rowMajor, Bool.or_eq_true, Bool.and_eq_true, decide_eq_true_eq, beq_iff_eq]
  simp only [shift]
  omega

theorem Opening.shift_injective (dx dy : Nat) :
    Function.Injective fun o : Opening => o.shift dx dy := by
  rintro ⟨p, m⟩ ⟨q, n⟩ h
  simp only [Opening.shift, Opening.mk.injEq] at h
  rw [Pos.shift_inj h.1, h.2]

namespace Location

variable (dx dy : Nat)

theorem candidates_shift (os : List Opening) (e : Pos) :
    candidates (os.map (·.shift dx dy)) (e.shift dx dy) =
      (candidates os e).map (·.shift dx dy) := by
  have hpos : ∀ o : Opening, (o.shift dx dy).pos = o.pos.shift dx dy := fun _ => rfl
  have hne : ∀ o s : Opening, (o.shift dx dy != s.shift dx dy) = (o != s) := fun o s => by
    rw [Bool.eq_iff_iff, bne_iff_ne, bne_iff_ne, (Opening.shift_injective dx dy).ne_iff]
  unfold candidates
  rw [List.filter_map]
  congr 1
  refine List.filter_congr fun s _ => ?_
  simp only [Function.comp_def, List.any_map, hpos, hne, within_shift]
  simp only [Pos.shift, Int.add_lt_add_iff_right]

theorem distance_shift (p q : Pos) : distance (p.shift dx dy) (q.shift dx dy) = distance p q := by
  simp [distance, Pos.shift]

theorem closest_shift (e : Pos) (os : List Opening) :
    closest (e.shift dx dy) (os.map (·.shift dx dy)) = (closest e os).map (·.shift dx dy) := by
  induction os with
  | nil => rfl
  | cons o os ih =>
    rw [List.map_cons, closest, closest, ih]
    cases closest e os with
    | none => rfl
    | some b =>
      simp only [Option.map_some, Opening.shift, distance_shift]
      split <;> rfl

/-- Signs moved are paired alike. Only the results are compared: a fault names the place of a
sign. -/
theorem pairUp_shift (os : List Opening) (es : List Pos) :
    (pairUp (os.map (·.shift dx dy)) (es.map (·.shift dx dy))).toOption =
      (pairUp os es).toOption.map fun (ls, rest) =>
        (ls.map (·.shift dx dy), rest.map (·.shift dx dy)) := by
  induction es generalizing os with
  | nil => rfl
  | cons e es ih =>
    rw [List.map_cons, pairUp, pairUp, candidates_shift, closest_shift]
    cases closest e (candidates os e) with
    | none => rfl
    | some o =>
      simp only [Option.map_some]
      rw [Outcome.toOption_bind, Outcome.toOption_bind,
        ← List.map_erase (Opening.shift_injective dx dy), ih]
      cases (pairUp (os.erase o) es).toOption with
      | none => rfl
      | some p => rfl

theorem ofSigns_shift (os : List Opening) (es : List Pos) :
    (ofSigns (os.map (·.shift dx dy)) (es.map (·.shift dx dy))).toOption =
      (ofSigns os es).toOption.map (·.map (·.shift dx dy)) := by
  unfold ofSigns
  rw [Outcome.toOption_bind, Outcome.toOption_bind, pairUp_shift]
  cases (pairUp os es).toOption with
  | none => rfl
  | some p =>
    obtain ⟨ls, rest⟩ := p
    cases rest with
    | cons o rest => rfl
    | nil =>
      refine congrArg some (List.map_mergeSort (f := (shift · dx dy)) fun a _ b _ => ?_).symm
      exact (Pos.rowMajor_shift dx dy).symm

end Location

namespace Grid

variable {g above below : Grid}

theorem locations_moved (habove : above.Blank) (hbelow : below.Blank) (k : Nat) (g : Grid) :
    (moved above below k g).locations.toOption =
      g.locations.toOption.map (·.map (·.shift k above.length)) := by
  rw [locations, openings_moved habove hbelow, closings_moved habove hbelow, Location.ofSigns_shift]
  rfl

/-- A location lies in its grid with all its opening signs. -/
theorem bounds_of_locations {ls : List Location} (h : g.locations = .ok ls) {l : Location}
    (hl : l ∈ ls) :
    0 ≤ l.start.y ∧ 0 ≤ l.firstColumn ∧ 0 ≤ l.stop.x ∧ l.stop.y < g.length ∧ l.Upright := by
  obtain ⟨hopenings, hclosings, hup⟩ := Location.ofSigns_eq_ok h
  have hopening : l.opening ∈ g.openings := hopenings.symm.subset (List.mem_map_of_mem hl)
  have hclosing : l.stop ∈ g.closings :=
    hclosings.symm.subset (List.mem_map_of_mem (f := Location.stop) hl)
  obtain ⟨-, hy, hcol⟩ := ((mem_openings_iff _).mp hopening).1.nonneg
  obtain ⟨x, y, hclose, hstop⟩ := (mem_closings _).mp hclosing
  obtain ⟨row, hrow, -⟩ := exists_of_char_ne hclose.ne_blank
  obtain ⟨hlt, -⟩ := List.getElem?_eq_some_iff.mp hrow
  refine ⟨hy, hcol, ?_, ?_, hup l hl⟩
  · rw [hstop]
    exact Int.natCast_nonneg x
  · rw [hstop]
    exact Int.ofNat_lt.mpr hlt

theorem drop_take_indent (k m n : Nat) (r : Row) :
    ((List.replicate k ' ' ++ r).take (k + n)).drop (k + m) = (r.take n).drop m := by
  have h : ∀ p : Row, ((p ++ r).take (p.length + n)).drop (p.length + m) = (r.take n).drop m :=
    fun p => by rw [List.take_length_add_append, List.drop_length_add_append]
  have := h (List.replicate k ' ')
  rwa [List.length_replicate] at this

theorem cut_moved {ls : List Location} (h : g.locations = .ok ls) {l : Location} (hl : l ∈ ls)
    (above below : Grid) (k : Nat) :
    (l.shift k above.length).cut (moved above below k g) = l.cut g := by
  obtain ⟨hy, hcol, hx, hlen, hup⟩ := bounds_of_locations h hl
  have hrect : (l.shift k above.length).rectangle (moved above below k g) = l.rectangle g := by
    unfold Location.Upright at hup
    rw [Location.rectangle_shift hy hcol hx, moved, List.append_assoc, List.drop_length_add_append,
      List.drop_append_of_le_length (by simp; omega),
        List.take_append_of_le_length (by simp; omega),
      Location.rectangle]
    simp only [← List.map_drop, ← List.map_take, List.map_map]
    exact List.map_congr_left fun r _ => drop_take_indent k _ _ r
  rw [Location.cut, Location.cut, hrect]
  rfl

/-- The glyphs that are cut out of a grid, if all signs can be paired. -/
def panels? (g : Grid) : Option (List Panel) := g.locations.toOption.map (·.map (·.cut g))

/-- **The same glyphs are cut out of a grid that is moved.** -/
theorem panels?_moved (habove : above.Blank) (hbelow : below.Blank) (k : Nat) (g : Grid) :
    (moved above below k g).panels? = g.panels? := by
  unfold panels?
  rw [locations_moved habove hbelow]
  cases h : g.locations with
  | error f => rfl
  | ok ls =>
    change some ((ls.map (·.shift k above.length)).map _) = some (ls.map _)
    rw [List.map_map]
    refine congrArg some ?_
    exact List.map_congr_left fun l hl => cut_moved h hl above below k

/-! ## Blank rows trimmed off -/

theorem moved_zero (above below g : Grid) : moved above below 0 g = above ++ g ++ below := by
  simp [moved]

theorem trimFirst_append (r : Row) (rs : Grid) :
    ∃ above : Grid, above.Blank ∧ r :: rs = above ++ trimFirst r rs := by
  unfold trimFirst
  split
  · rename_i hr
    exact ⟨[r], by simpa [Blank] using hr, rfl⟩
  · exact ⟨[], by simp [Blank], rfl⟩

/-- What is trimmed off is blank. -/
theorem eq_moved_of_trim {g' : Grid} (h : g.trim = .ok g') :
    ∃ above below : Grid, above.Blank ∧ below.Blank ∧ g = moved above below 0 g' := by
  cases g with
  | nil => cases h
  | cons r rs =>
    obtain ⟨above, habove, heq⟩ := trimFirst_append r rs
    rw [trim_cons_eq] at h
    cases hl : (trimFirst r rs).getLast? with
    | none =>
      rw [hl] at h
      cases h
    | some l =>
      rw [hl] at h
      cases h
      split
      · rename_i hblank
        refine ⟨above, [l], habove, by simpa [Blank] using hblank, ?_⟩
        rw [moved_zero, List.append_assoc, List.dropLast_append_getLast? l hl, heq]
      · refine ⟨above, [], habove, by simp [Blank], ?_⟩
        rw [moved_zero, List.append_nil, heq]

theorem exists_trim (h : ¬ g.Blank) : ∃ g', g.trim = .ok g' := by
  cases g with
  | nil => exact absurd (fun r hr => (List.not_mem_nil hr).elim) h
  | cons r rs =>
    obtain ⟨above, habove, heq⟩ := trimFirst_append r rs
    rw [trim_cons_eq]
    cases hl : (trimFirst r rs).getLast? with
    | none =>
      rw [List.getLast?_eq_none_iff.mp hl, List.append_nil] at heq
      exact absurd (heq ▸ habove) h
    | some l => exact ⟨_, rfl⟩

/-- Nothing is cut out of blank rows. -/
theorem panels?_of_blank (h : g.Blank) : g.panels? = some [] := by
  have hchar : ∀ x y, g.char x y = ' ' := fun x y =>
    char_of_blank fun row hrow => h row (List.mem_of_getElem? hrow)
  have hopenings : g.openings = [] := List.eq_nil_iff_forall_not_mem.mpr fun o ho => by
    obtain ⟨⟨x, y, hopen, -⟩, -⟩ := (mem_openings_iff o).mp ho
    exact hopen.ne_blank (hchar x y)
  have hclosings : g.closings = [] := List.eq_nil_iff_forall_not_mem.mpr fun p hp => by
    obtain ⟨x, y, hclose, -⟩ := (mem_closings p).mp hp
    exact hclose.ne_blank (hchar x y)
  have hlocations : g.locations = .ok [] := by
    rw [locations, hopenings, hclosings]
    simp [Location.ofSigns, Location.pairUp, bind, Except.bind, pure, Except.pure]
  rw [panels?, hlocations]
  rfl

end Grid

/-- A grid is read by the glyphs that are cut out of it: the rows that are trimmed off are blank. -/
theorem Program.parseGrid_of_panels {limit : Nat} {g : Grid} {ps : List Panel}
    (hps : g.panels? = some ps) (hne : ps ≠ []) : parseGrid limit g = assemble limit ps := by
  -- A grid with glyphs has something to trim around.
  have hblank : ¬ g.Blank := fun hblank => by
    rw [Grid.panels?_of_blank hblank] at hps
    exact hne (Option.some.inj hps).symm
  obtain ⟨g', htrim⟩ := Grid.exists_trim hblank
  obtain ⟨above, below, habove, hbelow, hg⟩ := Grid.eq_moved_of_trim htrim
  rw [hg, Grid.panels?_moved habove hbelow] at hps
  obtain ⟨locs, hlocs, rfl⟩ := Option.map_eq_some_iff.mp hps
  exact parseGrid_eq_assemble htrim (Outcome.toOption_eq_some.mp hlocs) (by simpa using hne)

/-- **What is read depends on the glyphs that are cut out only**, and trimming changes none of
them. -/
theorem Program.parseGrid_eq_ok_iff {limit : Nat} {g : Grid} {gs : List Glyph} :
    parseGrid limit g = .ok gs ↔
      ∃ ps, g.panels? = some ps ∧ ps ≠ [] ∧ assemble limit ps = .ok gs := by
  constructor
  · intro h
    obtain ⟨g', htrim, h⟩ := Outcome.bind_eq_ok.mp h
    obtain ⟨locs, hlocs, h⟩ := Outcome.bind_eq_ok.mp h
    obtain ⟨hlocs, hne⟩ := locate_eq_ok hlocs
    have hassemble : assemble limit (locs.map (·.cut g')) = .ok gs := h
    refine ⟨_, ?_, by simpa using hne, hassemble⟩
    obtain ⟨above, below, habove, hbelow, hg⟩ := Grid.eq_moved_of_trim htrim
    rw [hg, Grid.panels?_moved habove hbelow, Grid.panels?, hlocs]
    rfl
  · rintro ⟨ps, hps, hne, h⟩
    rw [parseGrid_of_panels hps hne, h]

/-- **Position does not matter**: a text is read as another one that has further blanks before all
its lines and further blank lines above and below. -/
theorem parse_moved (limit k : Nat) (above below : Grid) (text text' : String)
    (habove : ∀ r ∈ above, Grid.isBlankRow r = true)
    (hbelow : ∀ r ∈ below, Grid.isBlankRow r = true)
    (htext : Program.grid text' =
      above ++ (Program.grid text).map (List.replicate k ' ' ++ ·) ++ below)
    (gs : List Glyph) :
    Program.parseWithin limit text' = .ok gs ↔ Program.parseWithin limit text = .ok gs := by
  have hmoved : Program.grid text' = Grid.moved above below k (Program.grid text) := htext
  unfold Program.parseWithin
  rw [Program.parseGrid_eq_ok_iff, Program.parseGrid_eq_ok_iff, hmoved,
    Grid.panels?_moved habove hbelow]

/-- A glyph moved right by two columns and down by one row. -/
theorem parse_moved_once :
    ∃ gs, Program.parseWithin nestingLimit "\n╵╰─\n   ╷" = .ok gs ∧
      Program.parseWithin nestingLimit " \n  \n  ╵╰─\n     ╷\n\n" = .ok gs := by
  have hok : (Program.parseWithin nestingLimit "\n╵╰─\n   ╷").isOk = true := by cbv
  cases h : Program.parseWithin nestingLimit "\n╵╰─\n   ╷" with
  | error f =>
    rw [h] at hok
    cases hok
  | ok gs =>
    refine ⟨gs, rfl, ?_⟩
    exact (parse_moved nestingLimit 2 [[' ']] [[]] _ _ (by decide) (by decide) (by decide) gs).mpr h

end StrandScript
