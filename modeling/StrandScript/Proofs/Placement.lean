import StrandScript.Proofs.Pairing
import StrandScript.Proofs.Reading
import StrandScript.Proofs.SignPlane

/-!
# Placed locations

A plane may hold locations and nothing else that opens or closes a glyph (`Plane.Holds`). A grid
whose plane holds locations that their signs tell apart is read as the glyphs that are cut out there
(`Program.parseGrid_of_holds`).
-/

namespace StrandScript

/-! ## Locations moved -/

theorem Pos.shift_inj {p q : Pos} {dx dy : Nat} (h : p.shift dx dy = q.shift dx dy) : p = q := by
  obtain ⟨px, py⟩ := p
  obtain ⟨qx, qy⟩ := q
  simp only [shift, Pos.mk.injEq] at h ⊢
  omega

theorem Pos.readsBefore_shift {p q : Pos} (dx dy : Nat) :
    (p.shift dx dy).ReadsBefore (q.shift dx dy) ↔ p.ReadsBefore q := by
  simp only [ReadsBefore, shift]
  omega

namespace Location

/-- The location moved right and down. -/
def shift (l : Location) (dx dy : Nat) : Location :=
  ⟨l.start.shift dx dy, l.stop.shift dx dy, l.level⟩

variable {l l' : Location} (dx dy : Nat)

theorem within_shift (s e o : Pos) :
    within (s.shift dx dy) (e.shift dx dy) (o.shift dx dy) = within s e o := by
  simp [within, Pos.shift]

theorem Upright.shift (h : l.Upright) : (l.shift dx dy).Upright := by
  simp only [Upright, Location.shift, Pos.shift] at h ⊢
  omega

theorem Clear.shift (h : l.Clear l') : (l.shift dx dy).Clear (l'.shift dx dy) := by
  simp only [Clear, Location.shift, within_shift] at h ⊢
  simpa [Pos.shift] using h

theorem Apart.shift (h : l.Apart l') : (l.shift dx dy).Apart (l'.shift dx dy) := by
  refine ⟨fun he => h.1 (Pos.shift_inj he), fun hlt => ?_, fun hlt => ?_⟩
  · exact (h.2.1 ((Pos.readsBefore_shift dx dy).mp hlt)).shift dx dy
  · exact (h.2.2 ((Pos.readsBefore_shift dx dy).mp hlt)).shift dx dy

/-- A location is told apart from one further down. -/
theorem Apart.of_below (hl' : l'.Upright) (h : l.stop.y < l'.start.y) : l.Apart l' := by
  unfold Upright at hl'
  refine ⟨fun he => ?_, fun _ => ⟨?_, fun _ hy => ?_⟩, fun hlt => ?_⟩
  · have := congrArg Pos.y he
    omega
  · simp only [within, Bool.and_eq_false_iff, decide_eq_false_iff_not]
    omega
  · omega
  · unfold Pos.ReadsBefore at hlt
    omega

/-- A location is told apart from one further right that begins in the same row. Whichever closes
first, the right one begins between the beginning of the left one and its own closing sign. -/
theorem Apart.of_right (hl : l.Upright) (hl' : l'.Upright) (h : l.stop.x < l'.start.x)
    (hy : l.start.y = l'.start.y) : l.Apart l' := by
  unfold Upright at hl hl'
  refine ⟨fun he => ?_, fun _ => ⟨?_, fun hx _ => ?_⟩, fun _ => ⟨?_, fun _ _ => ?_⟩⟩
  · have := congrArg Pos.x he
    omega
  · simp only [within, Bool.and_eq_false_iff, decide_eq_false_iff_not]
    omega
  · omega
  · simp only [within, Bool.and_eq_false_iff, decide_eq_false_iff_not]
    omega
  · simp only [within, Bool.and_eq_true, decide_eq_true_eq]
    omega

/-- Locations that are found again from their signs, in their own order. -/
structure Separate (ls : List Location) : Prop where
  upright : ∀ l ∈ ls, l.Upright
  apart : ls.Pairwise Apart
  start : ls.Pairwise fun l l' => l.start.ReadsBefore l'.start

theorem Separate.nil : Separate [] := ⟨by simp, .nil, .nil⟩

theorem Separate.cons {ls : List Location} (h : Separate ls) (hl : l.Upright)
    (hapart : ∀ l' ∈ ls, l.Apart (l'.shift dx dy))
    (hstart : ∀ l' ∈ ls, l.start.ReadsBefore (l'.shift dx dy).start) :
    Separate (l :: ls.map (·.shift dx dy)) := by
  constructor
  case upright =>
    rw [List.forall_mem_cons, List.forall_mem_map]
    exact ⟨hl, fun l' hl' => (h.upright l' hl').shift dx dy⟩
  case apart =>
    rw [List.pairwise_cons, List.forall_mem_map, List.pairwise_map]
    exact ⟨hapart, h.apart.imp fun hab => hab.shift dx dy⟩
  case start =>
    rw [List.pairwise_cons, List.forall_mem_map, List.pairwise_map]
    exact ⟨hstart, h.start.imp fun hab => (Pos.readsBefore_shift dx dy).mpr hab⟩

end Location

/-! ## Locations held by a plane -/

namespace Plane

/-- The signs of a plane are those of the locations. -/
structure Holds (P : Plane) (ls : List Location) : Prop where
  opens : ∀ o, P.Opens o ↔ o ∈ ls.map Location.opening
  closes : ∀ p, P.Closes p ↔ p ∈ ls.map (·.stop)

variable {P Q R : Plane} {ls ls' : List Location} {dx dy : Nat}

theorem holds_blank (h : ∀ x y, P x y = ' ') : P.Holds [] := by
  constructor
  case opens =>
    refine fun o => ⟨?_, fun ho => (List.not_mem_nil ho).elim⟩
    rintro ⟨x, y, hopen, -⟩
    exact absurd (h x y) hopen.ne_blank
  case closes =>
    refine fun p => ⟨?_, fun hp => (List.not_mem_nil hp).elim⟩
    rintro ⟨x, y, hclose, -⟩
    exact absurd (h x y) hclose.ne_blank

/-- Planes joined hold the locations of both. -/
theorem Holds.join (hP : P.Holds ls) (hQ : Q.Holds ls') (h : R.Joins P Q dx dy) :
    R.Holds (ls ++ ls'.map (·.shift dx dy)) := by
  constructor
  case opens =>
    intro o
    rw [h.opens_iff, hP.opens, List.map_append, List.mem_append, List.map_map]
    refine or_congr_right ⟨?_, ?_⟩
    · rintro ⟨o', ho', rfl⟩
      obtain ⟨l, hl, rfl⟩ := List.mem_map.mp ((hQ.opens o').mp ho')
      exact List.mem_map.mpr ⟨l, hl, rfl⟩
    · intro ho
      obtain ⟨l, hl, rfl⟩ := List.mem_map.mp ho
      exact ⟨l.opening, (hQ.opens _).mpr (List.mem_map_of_mem hl), rfl⟩
  case closes =>
    intro p
    rw [h.closes_iff, hP.closes, List.map_append, List.mem_append, List.map_map]
    refine or_congr_right ⟨?_, ?_⟩
    · rintro ⟨p', hp', rfl⟩
      obtain ⟨l, hl, rfl⟩ := List.mem_map.mp ((hQ.closes p').mp hp')
      exact List.mem_map.mpr ⟨l, hl, rfl⟩
    · intro hp
      obtain ⟨l, hl, rfl⟩ := List.mem_map.mp hp
      exact ⟨l.stop, (hQ.closes _).mpr (List.mem_map_of_mem hl), rfl⟩

theorem run_le (P : Plane) (x y : Nat) : P.run y x ≤ x := by
  induction x with
  | zero => exact Nat.le_refl _
  | succ x ih =>
    rw [run_succ]
    split <;> omega

/-- The opening signs that stand side by side lie in the plane. -/
theorem Opens.nonneg {o : Opening} (h : P.Opens o) :
    0 ≤ o.pos.x ∧ 0 ≤ o.pos.y ∧ 0 ≤ o.pos.x - o.level + 1 := by
  obtain ⟨x, y, -, rfl⟩ := h
  have hrun := P.run_le x y
  simp only
  omega

theorem Holds.start (h : P.Holds ls) {l : Location} (hl : l ∈ ls) :
    ∃ x y : Nat, l.opening = ⟨⟨x, y⟩, P.run y x + 1⟩ ∧ P x y = '╵' := by
  obtain ⟨x, y, hopen, ho⟩ := (h.opens l.opening).mpr (List.mem_map_of_mem hl)
  exact ⟨x, y, ho, hopen.1⟩

theorem Holds.stop (h : P.Holds ls) {l : Location} (hl : l ∈ ls) :
    ∃ x y : Nat, l.stop = ⟨x, y⟩ ∧ P x y = '╷' := by
  obtain ⟨x, y, hclose, hp⟩ := (h.closes l.stop).mpr (List.mem_map_of_mem hl)
  exact ⟨x, y, hp, hclose.1⟩

/-- A location lies in the plane with all its opening signs. -/
theorem Holds.nonneg (h : P.Holds ls) {l : Location} (hl : l ∈ ls) :
    0 ≤ l.start.x ∧ 0 ≤ l.start.y ∧ 0 ≤ l.firstColumn ∧ 0 ≤ l.stop.x := by
  have hopen := ((h.opens l.opening).mpr (List.mem_map_of_mem hl)).nonneg
  obtain ⟨x, y, hstop, -⟩ := h.stop hl
  rw [hstop]
  exact ⟨hopen.1, hopen.2.1, hopen.2.2, Int.natCast_nonneg x⟩

end Plane

/-! ## Glyphs cut out -/

namespace Location

variable {l : Location} {g : Grid}

/-- Rows below a location do not matter to the glyph that is cut out. -/
theorem cut_take {m : Nat} (h0 : 0 ≤ l.start.y) (hup : l.Upright) (hm : l.stop.y < m) :
    l.cut (g.take m) = l.cut g := by
  have hrect : l.rectangle (g.take m) = l.rectangle g := by
    unfold Upright at hup
    unfold rectangle
    rw [List.drop_take, List.take_take, Nat.min_eq_left (by omega)]
  rw [cut, cut, hrect]

theorem rectangle_shift (h0 : 0 ≤ l.start.y) (hcol : 0 ≤ l.firstColumn) (hx : 0 ≤ l.stop.x)
    (dx dy : Nat) :
    (l.shift dx dy).rectangle g =
      ((g.drop (dy + l.start.y.toNat)).take (l.stop.y - l.start.y + 1).toNat).map fun r =>
        (r.take (dx + (l.stop.x + 1).toNat)).drop (dx + l.firstColumn.toNat) := by
  have hrow : (l.shift dx dy).start.y.toNat = dy + l.start.y.toNat := by
    simp only [shift, Pos.shift]
    omega
  have hheight : (l.shift dx dy).stop.y - (l.shift dx dy).start.y = l.stop.y - l.start.y := by
    simp only [shift, Pos.shift]
    omega
  have hstop : ((l.shift dx dy).stop.x + 1).toNat = dx + (l.stop.x + 1).toNat := by
    simp only [shift, Pos.shift]
    omega
  have hfirst : (l.shift dx dy).firstColumn.toNat = dx + l.firstColumn.toNat := by
    simp only [firstColumn, shift, Pos.shift] at hcol ⊢
    omega
  rw [rectangle, hrow, hheight, hstop, hfirst]

/-- Rows above a location do not matter to the glyph that is cut out. -/
theorem cut_shift_below (h0 : 0 ≤ l.start.y) (hcol : 0 ≤ l.firstColumn) (hx : 0 ≤ l.stop.x)
    (A B : Grid) : (l.shift 0 (A.length + 1)).cut (A ++ [] :: B) = l.cut B := by
  have hrect : (l.shift 0 (A.length + 1)).rectangle (A ++ [] :: B) = l.rectangle B := by
    rw [rectangle_shift h0 hcol hx, Nat.add_assoc, List.drop_length_add_append, Nat.add_comm 1,
      List.drop_succ_cons, Nat.zero_add, Nat.zero_add]
    rfl
  rw [cut, cut, hrect]
  rfl

variable {ys : List Nat} {A B : Nat → Row}

/-- Columns left of a location do not matter to the glyph that is cut out. -/
theorem cut_shift_right (h0 : 0 ≤ l.start.y) (hcol : 0 ≤ l.firstColumn) (hx : 0 ≤ l.stop.x)
    {w : Nat} (hA : ∀ y, (A y).length = w) :
    (l.shift w 0).cut (ys.map fun y => A y ++ B y) = l.cut (ys.map B) := by
  have hrect : (l.shift w 0).rectangle (ys.map fun y => A y ++ B y) = l.rectangle (ys.map B) := by
    rw [rectangle_shift h0 hcol hx, Nat.zero_add, rectangle]
    simp only [← List.map_drop, ← List.map_take, List.map_map]
    refine List.map_congr_left fun y _ => ?_
    simp only [Function.comp_apply, ← hA y, List.take_length_add_append,
      List.drop_length_add_append]
  rw [cut, cut, hrect]
  rfl

/-- Columns right of a location do not matter to the glyph that is cut out. -/
theorem cut_append_right (hA : ∀ y ∈ ys, l.stop.x + 1 ≤ (A y).length) :
    l.cut (ys.map fun y => A y ++ B y) = l.cut (ys.map A) := by
  have hrect : l.rectangle (ys.map fun y => A y ++ B y) = l.rectangle (ys.map A) := by
    simp only [rectangle, ← List.map_drop, ← List.map_take, List.map_map]
    refine List.map_congr_left fun y hy => ?_
    have := hA y (List.mem_of_mem_drop (List.mem_of_mem_take hy))
    simp only [Function.comp_apply]
    rw [List.take_append_of_le_length (by omega)]
  rw [cut, cut, hrect]

end Location

namespace Grid

variable {g : Grid} {ls : List Location}

/-- The locations that the plane of a grid holds are found. -/
theorem locations_eq (hg : g.BlankEnds) (h : g.char.Holds ls) (hsep : Location.Separate ls) :
    g.locations = .ok ls := by
  have hopenings : g.openings.Perm (ls.map Location.opening) := by
    refine (List.perm_ext_iff_of_nodup ?_ ?_).mpr fun o => (mem_openings hg o).trans (h.opens o)
    · exact openings_readsBefore.imp fun hab he => hab.ne (congrArg Opening.pos he)
    · refine List.pairwise_map.mpr (hsep.start.imp fun hab he => hab.ne ?_)
      exact congrArg Opening.pos he
  have hclosings : g.closings.Perm (ls.map (·.stop)) := by
    refine (List.perm_ext_iff_of_nodup ?_ ?_).mpr fun p => (mem_closings p).trans (h.closes p)
    · exact closings_readsBefore.imp fun hab => hab.ne
    · exact List.pairwise_map.mpr (hsep.apart.imp fun hab => hab.1)
  exact Location.ofSigns_eq hopenings hclosings closings_readsBefore hsep.upright hsep.apart
    hsep.start

end Grid

/-- **A grid is read as the glyphs at the locations its plane holds**, if one of them begins in the
first row. -/
theorem Program.parseGrid_of_holds (limit : Nat) {g : Grid} {ls : List Location}
    (hg : g.BlankEnds) (h : g.char.Holds ls) (hsep : Location.Separate ls)
    (hfirst : ∃ l ∈ ls, l.start.y = 0) : parseGrid limit g = assemble limit (ls.map (·.cut g)) := by
  obtain ⟨l, hl, hy⟩ := hfirst
  obtain ⟨x, y, hopening, hopen⟩ := h.start hl
  obtain rfl : y = 0 := by
    have hstart : l.start = ⟨x, y⟩ := congrArg Opening.pos hopening
    rw [hstart] at hy
    exact Int.ofNat.inj hy
  obtain ⟨m, htrim, hchar⟩ := Grid.trim_eq (g := g) (x := x) (by rw [hopen]; decide)
  have hlocs : Grid.locations (g.take m) = .ok ls :=
    Grid.locations_eq (fun r hr => hg r (List.mem_of_mem_take hr)) (hchar ▸ h) hsep
  rw [parseGrid_eq_assemble htrim hlocs (List.ne_nil_of_mem hl)]
  congr 1
  refine List.map_congr_left fun l hl => ?_
  refine Location.cut_take (h.nonneg hl).2.1 (hsep.upright l hl) ?_
  -- The row of the closing sign is not blank, so that it is kept.
  obtain ⟨x, y, hstop, hclose⟩ := h.stop hl
  obtain ⟨row, hrow, -⟩ := Grid.exists_of_char_ne (g := g.take m) (x := x) (y := y)
    (by rw [hchar, hclose]; decide)
  obtain ⟨hlt, -⟩ := List.getElem?_eq_some_iff.mp hrow
  rw [List.length_take] at hlt
  rw [hstop]
  simp only
  omega

end StrandScript
