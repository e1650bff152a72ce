import StrandScript.Proofs.CutCells

/-!
# Glyphs cut out in place

Rows may be kept in a memory where they are written to. A glyph is then cut out by copying the rows
of its rectangle, and by writing blanks to the copies, one cell after the other, over its opening
signs and its closing sign. Every cell that is written to is there, the copies become the glyph
(`InPlace.cutting_eq`), and the rows of the program stay as they are, so that one glyph does not
lose signs to another (`glyphs_cut_out`).

* `InPlace.Holds`: the rows of a memory that make up a grid.
* `InPlace.copies`, `InPlace.blanks`: the copies of some rows, and the blanks over the opening
  signs.
* `InPlace.prepare`: all glyphs of a program.
-/

namespace StrandScript

namespace InPlace

open Location Outcome

/-- A computation on a memory of rows, each of which has a number. -/
abbrev Work := EStateM Fault (List Row)

/-- A copy of a row from column `a` up to column `b`, without `b`. -/
def copy (a b n : Nat) : Work Nat := do
  let mem ← get
  match mem[n]? with
  | none => throw .outOfRange
  | some r =>
    set (mem ++ [(r.take b).drop a])
    return mem.length

/-- Copies of some rows, one after the other. -/
def copies (a b : Nat) : List Nat → Work (List Nat)
  | [] => return []
  | n :: ns => do
    let m ← copy a b n
    let ms ← copies a b ns
    return m :: ms

/-- Writes a blank to a cell of a row, counted from either end. -/
def blank (n : Nat) (i : Int) : Work Unit := do
  let mem ← get
  match (mem[n]?).bind (Index.set? · i ' ') with
  | none => throw .outOfRange
  | some r => set (mem.set n r)

/-- One of some rows, counted from either end. -/
def rowAt (ns : List Nat) (i : Int) : Work Nat :=
  match Index.get? ns i with
  | none => throw .outOfRange
  | some n => return n

/-- Writes blanks to the first cells of the first one of some rows. -/
def blanks (ns : List Nat) : Nat → Work Unit
  | 0 => return
  | k + 1 => do
    blanks ns k
    blank (← rowAt ns 0) k

/-- Writes blanks over the signs of a glyph of level `k`. -/
def overwrite (ns : List Nat) (k : Nat) : Work Unit := do
  blanks ns k
  blank (← rowAt ns (-1)) (-1)

/-- Cuts out a glyph: copies of the rows of its rectangle, with blanks over its signs. -/
def cutting (program : List Nat) (l : Location) : Work (List Nat) := do
  let ns ← copies l.firstColumn.toNat (l.stop.x + 1).toNat
    ((program.drop l.start.y.toNat).take (l.stop.y - l.start.y + 1).toNat)
  overwrite ns l.level.toNat
  return ns

/-- Cuts out all glyphs of a program: their levels and rows. -/
def prepare (program : List Nat) : List Location → Work (List (Int × List Nat))
  | [] => return []
  | l :: ls => do
    let ns ← cutting program l
    let rest ← prepare program ls
    return (l.level, ns) :: rest

/-- The rows with these numbers make up a grid. -/
def Holds (mem : List Row) (ns : List Nat) (g : Grid) : Prop :=
  List.Forall₂ (fun n r => mem[n]? = some r) ns g

variable {mem : List Row} {ns : List Nat} {g rows : Grid} {r : Row}

/-- Rows stay what they are when others are added. -/
theorem Holds.append (h : Holds mem ns g) (more : List Row) : Holds (mem ++ more) ns g :=
  h.imp fun n r hr => by
    obtain ⟨hlt, -⟩ := List.getElem?_eq_some_iff.mp hr
    rw [List.getElem?_append_left hlt, hr]

/-- Rows that are added have the next numbers. -/
theorem holds_added (mem : List Row) (rows : Grid) :
    Holds (mem ++ rows) (List.range' mem.length rows.length) rows := by
  induction rows generalizing mem with
  | nil => exact .nil
  | cons r rows ih =>
    refine .cons (by simp) ?_
    have hrest := ih (mem ++ [r])
    rwa [List.length_append, List.length_singleton, List.append_assoc] at hrest

/-! ## Copies and blanks -/

theorem get_eq (mem : List Row) : (get : Work (List Row)) mem = .ok mem mem := rfl

theorem copy_eq {n : Nat} (h : mem[n]? = some r) (a b : Nat) :
    copy a b n mem = .ok mem.length (mem ++ [(r.take b).drop a]) := by
  unfold copy
  rw [run_bind_ok (get_eq mem), h]
  rfl

/-- Copies are added to the memory. -/
theorem copies_eq (h : Holds mem ns g) (a b : Nat) :
    copies a b ns mem =
      .ok (List.range' mem.length ns.length) (mem ++ g.map fun r => (r.take b).drop a) := by
  induction ns generalizing mem g with
  | nil =>
    cases h
    exact congrArg (EStateM.Result.ok _) (List.append_nil mem).symm
  | cons n ns ih =>
    cases h with
    | @cons _ r _ g hn hns =>
      have hrest := ih (Holds.append hns [(r.take b).drop a])
      rw [List.length_append, List.length_singleton, List.append_assoc] at hrest
      unfold copies
      rw [run_bind_ok (copy_eq hn a b), run_bind_ok hrest]
      rfl

/-- A blank is written to a row that was added. -/
theorem blank_eq {k : Nat} (hr : rows[k]? = some r) {i : Int} {r' : Row}
    (hi : Index.set? r i ' ' = some r') :
    blank (mem.length + k) i (mem ++ rows) = .ok () (mem ++ rows.set k r') := by
  have hrow : (mem ++ rows)[mem.length + k]? = some r := by
    rw [List.getElem?_append_right (Nat.le_add_right _ _), Nat.add_sub_cancel_left, hr]
  unfold blank
  rw [run_bind_ok (get_eq _), hrow, Option.bind_some, hi]
  show EStateM.Result.ok _ _ = _
  rw [List.set_append_right _ _ (Nat.le_add_right _ _), Nat.add_sub_cancel_left]

theorem rowAt_first (m n : Nat) (mem : List Row) :
    rowAt (List.range' m (n + 1)) 0 mem = .ok m mem := by
  have hget : Index.get? (List.range' m (n + 1)) 0 = some m := Index.get?_natCast _ 0
  unfold rowAt
  rw [hget]
  rfl

theorem resolve?_last (n : Nat) : Index.resolve? (n + 1) (-1) = some n := by
  simp only [Index.resolve?, Option.ite_none_right_eq_some, Option.some.injEq]
  omega

theorem rowAt_last (m n : Nat) (mem : List Row) :
    rowAt (List.range' m (n + 1)) (-1) mem = .ok (m + n) mem := by
  have hget : Index.get? (List.range' m (n + 1)) (-1) = some (m + n) := by
    unfold Index.get?
    rw [List.length_range', resolve?_last, Option.bind_some,
      List.getElem?_range' (Nat.lt_succ_self n), Nat.one_mul]
  unfold rowAt
  rw [hget]
  rfl

/-- One blank more over the first cells of a row. -/
theorem set_blankFirst {k : Nat} (hk : k < r.length) :
    (blankFirst k r).set k ' ' = blankFirst (k + 1) r := by
  refine List.ext_getElem? fun j => ?_
  rw [List.getElem?_set, length_blankFirst, getElem?_blankFirst, getElem?_blankFirst, if_pos hk]
  by_cases hj : k = j
  · subst hj
    rw [if_pos rfl, if_pos (Nat.lt_succ_self k), List.getElem?_eq_getElem hk]
    rfl
  · rw [if_neg hj]
    by_cases hlt : j < k
    · rw [if_pos hlt, if_pos (by omega)]
    · rw [if_neg hlt, if_neg (by omega)]

/-- Blanks are written to the first cells of the first row that was added. -/
theorem blanks_eq {k : Nat} (hk : k ≤ r.length) (n : Nat) :
    blanks (List.range' mem.length (n + 1)) k (mem ++ r :: rows) =
      .ok () (mem ++ blankFirst k r :: rows) := by
  induction k with
  | zero =>
    rw [show blankFirst 0 r = r by simp [blankFirst]]
    rfl
  | succ k ih =>
    have hset : Index.set? (blankFirst k r) k ' ' = some (blankFirst (k + 1) r) := by
      unfold Index.set?
      rw [Index.resolve?_natCast (by rw [length_blankFirst]; omega), Option.map_some,
        set_blankFirst hk]
    unfold blanks
    rw [run_bind_ok (ih (by omega)), run_bind_ok (rowAt_first _ _ _)]
    exact blank_eq (k := 0) rfl hset

theorem set?_last (hr : r ≠ []) : Index.set? r (-1) ' ' = some (blankLast r) := by
  obtain ⟨n, hn⟩ := Nat.exists_eq_succ_of_ne_zero (mt List.length_eq_zero_iff.mp hr)
  unfold Index.set?
  rw [hn, Nat.succ_eq_add_one, resolve?_last, Option.map_some]
  refine congrArg some (List.ext_getElem? fun j => ?_)
  rw [List.getElem?_set, getElem?_blankLast]
  by_cases hj : n = j
  · rw [if_pos hj, if_pos (by omega), if_pos (by omega)]
  · rw [if_neg hj, if_neg (by omega)]

theorem onLast_eq_set (f : Row → Row) {n : Nat} (hn : rows.length = n + 1)
    (hr : rows[n]? = some r) :
    onLast f rows = rows.set n (f r) := by
  refine List.ext_getElem? fun j => ?_
  rw [List.getElem?_set, getElem?_onLast]
  by_cases hj : n = j
  · subst hj
    rw [if_pos hn.symm, if_pos rfl, if_pos (by omega), hr]
    rfl
  · rw [if_neg hj, if_neg (by omega)]

/-- Blanks are written over the signs at the beginning of the first row and at the end of the last
one. -/
theorem overwrite_eq {k : Nat} {last : Row} (hk : k ≤ r.length) (hrow : rows.getLast? = some last)
    (hlast : last ≠ []) :
    overwrite (List.range' mem.length (rows.length + 1)) k (mem ++ r :: rows) =
      .ok () (mem ++ onLast blankLast (onFirst (blankFirst k) (r :: rows))) := by
  have hrow' : (blankFirst k r :: rows)[rows.length]? = some last := by
    have hget := List.getLast?_eq_getElem? (l := blankFirst k r :: rows)
    rw [List.length_cons, Nat.add_sub_cancel, List.getLast?_cons, hrow] at hget
    exact hget.symm
  unfold overwrite
  rw [run_bind_ok (blanks_eq hk rows.length), run_bind_ok (rowAt_last _ _ _),
    blank_eq hrow' (set?_last hlast), onFirst, onLast_eq_set blankLast List.length_cons hrow']

/-! ## Glyphs -/

variable {program : List Nat} {l : Location} {ls : List Location}

/-- **A glyph is cut out in place**: no cell that is written to is missing, and only copies are
written to. -/
theorem cutting_eq (h : l.Signed g) (hmem : Holds mem program g) :
    cutting program l mem =
      .ok (List.range' mem.length (l.cut g).rows.length) (mem ++ (l.cut g).rows) := by
  have hrows : Holds mem ((program.drop l.start.y.toNat).take (l.stop.y - l.start.y + 1).toNat)
      ((g.drop l.start.y.toNat).take (l.stop.y - l.start.y + 1).toNat) :=
    List.forall₂_take _ (List.forall₂_drop _ hmem)
  have hcopies : _ = EStateM.Result.ok _ (mem ++ l.rectangle g) :=
    copies_eq hrows l.firstColumn.toNat (l.stop.x + 1).toNat
  have hlength : _ = (l.rectangle g).length := hrows.length_eq.trans (List.length_map _).symm
  rw [hlength] at hcopies
  have hoverwrite : overwrite (List.range' mem.length (l.rectangle g).length) l.level.toNat
      (mem ++ l.rectangle g) = .ok () (mem ++ (l.cut g).rows) := by
    obtain ⟨first, second, rest, hrect⟩ := h.exists_rows
    have hlevel : l.level.toNat ≤ first.length := h.level_le_firstRow (by rw [hrect]; rfl)
    obtain ⟨last, hlast⟩ : ∃ last, (second :: rest).getLast? = some last := ⟨_, List.getLast?_cons⟩
    have hlast' : (l.rectangle g).getLast? = some last := by
      rw [hrect, List.getLast?_cons, hlast]
      rfl
    have hne : last ≠ [] := h.lastRow_ne_nil hlast'
    rw [cut, hrect]
    exact overwrite_eq hlevel hlast hne
  rw [length_cut]
  unfold cutting
  rw [run_bind_ok hcopies, run_bind_ok hoverwrite]
  rfl

/-- **All glyphs are cut out in place**, each of them from the rows that the program has. -/
theorem prepare_eq (h : ∀ l ∈ ls, l.Signed g) (hmem : Holds mem program g) :
    ∃ glyphs new, prepare program ls mem = .ok glyphs (mem ++ new) ∧
      List.Forall₂ (fun q l => q.1 = l.level ∧ Holds (mem ++ new) q.2 (l.cut g).rows)
        glyphs ls := by
  induction ls generalizing mem with
  | nil => exact ⟨[], [], congrArg (EStateM.Result.ok _) (List.append_nil mem).symm, .nil⟩
  | cons l ls ih =>
    rw [List.forall_mem_cons] at h
    obtain ⟨glyphs, new, hrest, hglyphs⟩ := ih h.2 (hmem.append (l.cut g).rows)
    rw [List.append_assoc] at hrest hglyphs
    refine ⟨(l.level, List.range' mem.length (l.cut g).rows.length) :: glyphs,
      (l.cut g).rows ++ new, ?_, .cons ⟨rfl, ?_⟩ hglyphs⟩
    · unfold prepare
      rw [run_bind_ok (cutting_eq h.1 hmem), run_bind_ok hrest]
      rfl
    · rw [← List.append_assoc]
      exact (holds_added mem (l.cut g).rows).append new

end InPlace

open InPlace in
/-- **Glyphs are cut out with their signs blanked, and nothing else changes.** Let the signs of a
program be paired. Then the start of every glyph is the last one of a run of as many opening signs
as its level says, with none on either side, and the glyph shows the rectangle from the first
opening sign to the closing sign, row by row and as far as each row reaches, with blanks exactly in
the place of these signs. When rows are kept in a memory and written to, no cell is missing that has
to be overwritten, the rows of the program stay as they are, and the rows that are added make up
these glyphs. -/
theorem glyphs_cut_out {g : Grid} {ls : List Location} (h : g.locations = .ok ls) :
    (∀ l ∈ ls, l.Signed g ∧ l.ShownBy g (l.cut g)) ∧
      ∀ mem program, Holds mem program g →
        ∃ glyphs new, prepare program ls mem = .ok glyphs (mem ++ new) ∧
          Holds (mem ++ new) program g ∧
          List.Forall₂ (fun q l => q.1 = l.level ∧ Holds (mem ++ new) q.2 (l.cut g).rows)
            glyphs ls := by
  have hsigned : ∀ l ∈ ls, l.Signed g := fun l hl => Location.signed_of_locations h hl
  refine ⟨fun l hl => ⟨hsigned l hl, (hsigned l hl).shownBy_cut⟩, fun mem program hmem => ?_⟩
  obtain ⟨glyphs, new, hrun, hglyphs⟩ := prepare_eq hsigned hmem
  exact ⟨glyphs, new, hrun, hmem.append new, hglyphs⟩

/-- A glyph of level two whose rows are of different lengths, in the middle of other characters. -/
def raggedDrawing : Grid := ["a╵╵ ─ ".toList, "b".toList, "───── ╷c".toList]

open InPlace in
/-- The ragged glyph, cut out also where the memory keeps the rows of the program in another
order. -/
theorem glyphs_cut_out_ragged :
    raggedDrawing.locations = .ok [⟨⟨2, 0⟩, ⟨6, 2⟩, 2⟩] ∧
      (⟨⟨2, 0⟩, ⟨6, 2⟩, 2⟩ : Location).ShownBy raggedDrawing
        ⟨2, ["   ─ ".toList, [], "────  ".toList]⟩ ∧
      ∃ glyphs new, prepare [2, 0, 1] [⟨⟨2, 0⟩, ⟨6, 2⟩, 2⟩]
          ["b".toList, "───── ╷c".toList, "a╵╵ ─ ".toList] =
        .ok glyphs (["b".toList, "───── ╷c".toList, "a╵╵ ─ ".toList] ++ new) := by
  have hlocations : raggedDrawing.locations = .ok [⟨⟨2, 0⟩, ⟨6, 2⟩, 2⟩] := by cbv
  have hmem : Holds ["b".toList, "───── ╷c".toList, "a╵╵ ─ ".toList] [2, 0, 1] raggedDrawing :=
    .cons rfl (.cons rfl (.cons rfl .nil))
  obtain ⟨hshown, hprepare⟩ := glyphs_cut_out hlocations
  obtain ⟨glyphs, new, hrun, -⟩ := hprepare _ _ hmem
  exact ⟨hlocations, (hshown _ List.mem_cons_self).2, glyphs, new, hrun⟩

end StrandScript
