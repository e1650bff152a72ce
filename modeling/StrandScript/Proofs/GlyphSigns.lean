import StrandScript.Proofs.Cutting
import StrandScript.Proofs.Walk

/-!
# The signs of a glyph

A glyph that is found has a run of opening signs side by side, as many as its level says and no
further one left or right of them, and a closing sign (`Location.Signed`). The last opening sign and
the closing sign are free of strands, for this is looked at when they are found. The other opening
signs are only counted, so that the tip of a strand that stands left of them counts as well
(`signs_free_iff`).

* `Plane.run_sign`, `Plane.run_before`: what the count of opening signs left of a place says.
* `Plane.freeRun`: the same count for opening signs that are free of strands.
* `Location.Marks`: the places of the signs of a glyph.
-/

namespace StrandScript

namespace Plane

variable {P : Plane} {x y i : Nat}

instance (P : Plane) (x y : Nat) : Decidable (P.Free x y) := inferInstanceAs (Decidable (_ ∧ _))

/-! ## Runs of opening signs -/

/-- The places that are counted hold opening signs. -/
theorem run_sign (h : x ≤ P.run y x + i) (hi : i < x) : P i y = '╵' := by
  induction x with
  | zero => omega
  | succ x ih =>
    rw [run_succ] at h
    split at h
    · rename_i hx
      rcases Nat.lt_succ_iff_lt_or_eq.mp hi with hlt | rfl
      · exact ih (by omega) hlt
      · exact hx
    · omega

/-- The place before those that are counted holds none. -/
theorem run_before (h : x = P.run y x + (i + 1)) : P i y ≠ '╵' := by
  induction x with
  | zero => omega
  | succ x ih =>
    rw [run_succ] at h
    split at h
    · exact ih (by omega)
    · rename_i hx
      obtain rfl : i = x := by omega
      exact hx

/-- The number of opening signs free of strands that stand side by side left of a place. -/
def freeRun (P : Plane) (y : Nat) : Nat → Nat
  | 0 => 0
  | x + 1 => if P x y = '╵' ∧ P.Free x y then freeRun P y x + 1 else 0

theorem freeRun_le_run (P : Plane) (x y : Nat) : P.freeRun y x ≤ P.run y x := by
  induction x with
  | zero => exact Nat.le_refl _
  | succ x ih =>
    rw [run_succ, freeRun]
    split
    · rename_i h
      rw [if_pos h.1]
      omega
    · omega

/-- The two counts agree where all signs that are counted are free. -/
theorem freeRun_eq_run_iff :
    P.freeRun y x = P.run y x ↔ ∀ i < x, x ≤ P.run y x + i → P.Free i y := by
  induction x with
  | zero => simp [run, freeRun]
  | succ x ih =>
    rw [run_succ, freeRun]
    by_cases hsign : P x y = '╵'
    · by_cases hfree : P.Free x y
      · rw [if_pos ⟨hsign, hfree⟩, if_pos hsign, Nat.add_right_cancel_iff, ih]
        constructor
        · intro h i hi hcount
          rcases Nat.lt_succ_iff_lt_or_eq.mp hi with hlt | rfl
          · exact h i hlt (by omega)
          · exact hfree
        · intro h i hi hcount
          exact h i (by omega) (by omega)
      · rw [if_neg fun h => hfree h.2, if_pos hsign]
        constructor
        · intro h
          omega
        · intro h
          exact absurd (h x (by omega) (by omega)) hfree
    · rw [if_neg fun h => hsign h.1, if_neg hsign]
      constructor
      · intro _ i hi hcount
        omega
      · intro _
        rfl

end Plane

namespace Grid

variable {g : Grid}

/-- No strand reaches the place from above or from below. -/
def Free (g : Grid) (p : Pos) : Prop := g.continues p .up = false ∧ g.continues p .down = false

instance (g : Grid) (p : Pos) : Decidable (g.Free p) := inferInstanceAs (Decidable (_ ∧ _))

/-- The number of opening signs free of strands that stand side by side up to a place. -/
def freeLevel (g : Grid) (p : Pos) : Nat := g.char.freeRun p.y.toNat (p.x.toNat + 1)

theorem char?_eq_some_iff {x y : Nat} {c : Char} (hc : c ≠ ' ') :
    g.char? ⟨x, y⟩ = some c ↔ g.char x y = c := by
  rw [char?_natCast]
  unfold char
  cases (g[y]?).bind (·[x]?) with
  | none => simp [hc.symm]
  | some d => simp

end Grid

namespace Location

open Grid

variable {g : Grid} {ls : List Location} {l : Location}

/-! ## The signs of a location -/

/-- The places of the signs of a glyph: its opening signs side by side, and its closing sign. -/
def Marks (l : Location) (p : Pos) : Prop :=
  (p.y = l.start.y ∧ l.firstColumn ≤ p.x ∧ p.x ≤ l.start.x) ∨ p = l.stop

instance (l : Location) (p : Pos) : Decidable (l.Marks p) := inferInstanceAs (Decidable (_ ∨ _))

/-- The signs that a glyph has in a grid: a run of as many opening signs as its level says, of which
the last one is its start, with a character after it that is none, and a closing sign below and
right of it. -/
structure Signed (l : Location) (g : Grid) : Prop where
  level : 1 ≤ l.level
  upright : l.Upright
  openings : ∀ x, l.firstColumn ≤ x → x ≤ l.start.x → g.char? ⟨x, l.start.y⟩ = some '╵'
  before : g.char? ⟨l.firstColumn - 1, l.start.y⟩ ≠ some '╵'
  after : ∃ c, g.char? ⟨l.start.x + 1, l.start.y⟩ = some c ∧ c ≠ '╵'
  closing : g.char? l.stop = some '╷'

/-- The plane around the signs of a location that was found. -/
theorem planes_of_locations (h : g.locations = .ok ls) (hl : l ∈ ls) :
    ∃ x y x' y' : Nat, l = ⟨⟨x, y⟩, ⟨x', y'⟩, g.char.run y (x + 1)⟩ ∧ g.char.IsOpening x y ∧
      g.Followed ⟨x, y⟩ ∧ g.char.IsClosing x' y' := by
  obtain ⟨hopenings, hclosings, -⟩ := ofSigns_eq_ok h
  obtain ⟨⟨x, y, hopen, ho⟩, hfollowed⟩ :=
    (mem_openings_iff _).mp (hopenings.symm.subset (List.mem_map_of_mem hl))
  obtain ⟨x', y', hclose, hstop⟩ :=
    (mem_closings _).mp (hclosings.symm.subset (List.mem_map_of_mem (f := Location.stop) hl))
  obtain ⟨start, stop, level⟩ := l
  obtain ⟨rfl, rfl⟩ := Opening.mk.inj ho
  obtain rfl : stop = ⟨x', y'⟩ := hstop
  refine ⟨x, y, x', y', ?_, hopen, hfollowed, hclose⟩
  rw [Plane.run_succ, if_pos hopen.1, Int.natCast_add, Int.natCast_one]

theorem signed_of_locations (h : g.locations = .ok ls) (hl : l ∈ ls) : l.Signed g := by
  have hlevel := one_le_level_of_locations h hl
  have hupright := (inside_of_locations h hl).upright
  obtain ⟨x, y, x', y', rfl, ⟨-, hnext, -⟩, ⟨_, _, row, hpos, hrow, hlt⟩, hclose, -⟩ :=
    planes_of_locations h hl
  simp only [Pos.mk.injEq, Int.natCast_inj] at hpos
  obtain ⟨rfl, rfl⟩ := hpos
  have hrun := g.char.run_le (x + 1) y
  refine ⟨hlevel, hupright, fun i hfirst hlast => ?_, fun hbefore => ?_, ?_, ?_⟩
  · unfold firstColumn at hfirst
    obtain ⟨i, rfl⟩ := Int.eq_ofNat_of_zero_le (a := i) (by simp only at hfirst; omega)
    simp only at hfirst hlast
    exact (char?_eq_some_iff (by decide)).mpr (Plane.run_sign (x := x + 1) (by omega) (by omega))
  · have hnonneg := (char?_bounds hbefore).1
    unfold firstColumn at hbefore hnonneg
    simp only at hbefore hnonneg
    obtain ⟨i, hi⟩ := Int.eq_ofNat_of_zero_le hnonneg
    rw [hi] at hbefore
    exact Plane.run_before (x := x + 1) (by omega) ((char?_eq_some_iff (by decide)).mp hbefore)
  · refine ⟨row[x + 1], ?_, fun hc => hnext ?_⟩
    · exact (char?_natCast g (x + 1) y).trans
        (by rw [hrow, Option.bind_some, List.getElem?_eq_getElem hlt])
    · rw [char_eq hrow (List.getElem?_eq_getElem hlt), hc]
  · exact (char?_eq_some_iff (by decide)).mpr hclose

/-- The signs of a location are free if its closing sign and the places of its run are. -/
theorem marks_free_iff {x y x' y' n : Nat} (hn : n ≤ x + 1) (hstop : g.char.Free x' y') :
    (∀ p, (⟨⟨x, y⟩, ⟨x', y'⟩, n⟩ : Location).Marks p → g.Free p) ↔
      ∀ i < x + 1, x + 1 ≤ n + i → g.char.Free i y := by
  constructor
  · intro hfree i hi hcount
    refine (g.free_iff i y).mpr (hfree ⟨i, y⟩ (Or.inl ⟨rfl, ?_, Int.ofNat_le.mpr (by omega)⟩))
    show (x : Int) - n + 1 ≤ i
    omega
  · rintro hfree ⟨px, py⟩ (⟨rfl, hlow, hhigh⟩ | hmark)
    · change (x : Int) - n + 1 ≤ px at hlow
      change px ≤ x at hhigh
      obtain ⟨i, rfl⟩ := Int.eq_ofNat_of_zero_le (a := px) (by omega)
      exact (g.free_iff i y).mp (hfree i (by omega) (by omega))
    · rw [hmark]
      exact (g.free_iff x' y').mp hstop

end Location

open Location

/-- **Which signs of a glyph are free of strands.** No strand reaches the last opening sign of a
glyph, or its closing sign, from above or below. Its level counts all opening signs of its run; so
no strand reaches any of its signs exactly if the level is that of the free opening signs alone,
which it is never less than. -/
theorem signs_free_iff {g : Grid} {ls : List Location} (h : g.locations = .ok ls) {l : Location}
    (hl : l ∈ ls) :
    g.Free l.start ∧ g.Free l.stop ∧ (g.freeLevel l.start : Int) ≤ l.level ∧
      ((∀ p, l.Marks p → g.Free p) ↔ l.level = g.freeLevel l.start) := by
  obtain ⟨x, y, x', y', rfl, ⟨-, -, hstart⟩, -, -, hstop⟩ := planes_of_locations h hl
  refine ⟨(g.free_iff x y).mp hstart, (g.free_iff x' y').mp hstop,
    Int.ofNat_le.mpr (Plane.freeRun_le_run _ _ _), ?_⟩
  rw [marks_free_iff (g.char.run_le (x + 1) y) hstop, Grid.freeLevel, eq_comm, Int.natCast_inj]
  exact Plane.freeRun_eq_run_iff.symm

/-- A glyph with a strand whose tip stands left of the opening sign of a second glyph. -/
def tipDrawing : Grid := ["╵  ╵╵ ".toList, " ╰─╯  ".toList, "   ╷  ╷".toList]

theorem tipDrawing_locations :
    tipDrawing.locations = .ok [⟨⟨0, 0⟩, ⟨3, 2⟩, 1⟩, ⟨⟨4, 0⟩, ⟨6, 2⟩, 2⟩] := by
  cbv

/-- No strand reaches a sign of the first glyph, but one reaches a sign of the second one. -/
theorem signs_free_iff_tip :
    tipDrawing.locations = .ok [⟨⟨0, 0⟩, ⟨3, 2⟩, 1⟩, ⟨⟨4, 0⟩, ⟨6, 2⟩, 2⟩] ∧
      (∀ p, (⟨⟨0, 0⟩, ⟨3, 2⟩, 1⟩ : Location).Marks p → tipDrawing.Free p) ∧
      ¬ ∀ p, (⟨⟨4, 0⟩, ⟨6, 2⟩, 2⟩ : Location).Marks p → tipDrawing.Free p := by
  refine ⟨tipDrawing_locations, ?_, fun hfree => ?_⟩
  · have hlevel : (1 : Int) = tipDrawing.freeLevel ⟨0, 0⟩ := by decide +kernel
    exact (signs_free_iff tipDrawing_locations List.mem_cons_self).2.2.2.mpr hlevel
  · have hlevel : (2 : Int) ≠ tipDrawing.freeLevel ⟨4, 0⟩ := by decide +kernel
    exact hlevel
      ((signs_free_iff tipDrawing_locations (List.mem_cons_of_mem _ List.mem_cons_self)).2.2.2.mp
      hfree)

/-- **The tip of a strand is counted as an opening sign**: a glyph of level two has a sign that a
strand reaches from below. -/
theorem tip_counted :
    tipDrawing.locations = .ok [⟨⟨0, 0⟩, ⟨3, 2⟩, 1⟩, ⟨⟨4, 0⟩, ⟨6, 2⟩, 2⟩] ∧
      (⟨⟨4, 0⟩, ⟨6, 2⟩, 2⟩ : Location).Marks ⟨3, 0⟩ ∧ tipDrawing.continues ⟨3, 0⟩ .down = true :=
  ⟨tipDrawing_locations, Or.inl ⟨rfl, by decide, by decide⟩, by decide +kernel⟩

end StrandScript
