import StrandScript.Proofs.Reading
import StrandScript.Proofs.Walk

/-!
# Curved and sharp corners

A corner is drawn curved or sharp, and both draw the same sign. So a program is read alike whatever
form its corners have: each stage of reading, from the lines of the text to the tokens of the
glyphs, commutes with making all corners curved (`Program.parseGrid_curved`).

* `Sign.Twin`: two characters that draw the same sign.
* `Sign.curved`: a character with its corner made curved.
* `Grid.curved`, `Strand.curved`, `Glyph.curved`: the same for all characters that these hold.
-/

namespace StrandScript

/-! ## Characters -/

namespace Sign

/-- Two characters that are the same or draw the same sign. -/
def Twin (c d : Char) : Prop := c = d ∨ ∃ s : Sign, c ∈ s.chars ∧ d ∈ s.chars

/-- The first form of the sign that a character draws; any other character as it is. -/
def curved (c : Char) : Char := (ofChar? c).elim c fun s => s.chars.headD c

variable {s : Sign} {c d : Char}

theorem mem_chars_iff : c ∈ s.chars ↔ ofChar? c = some s := by
  constructor
  · intro h
    cases s with
    | opening | closing | vertical | horizontal | stubLeft | stubRight =>
      obtain rfl := List.mem_singleton.mp h
      rfl
    | downLeft | downRight | upRight | upLeft =>
      rcases List.mem_pair.mp h with rfl | rfl <;> rfl
  · intro h
    simpa using List.find?_some h

theorem curved_of_none (h : ofChar? c = none) : curved c = c := by
  rw [curved, h, Option.elim_none]

theorem curved_of_some (h : ofChar? c = some s) : curved c ∈ s.chars := by
  rw [curved, h, Option.elim_some]
  cases s <;> exact List.mem_cons_self

@[simp] theorem ofChar?_curved (c : Char) : ofChar? (curved c) = ofChar? c := by
  cases h : ofChar? c with
  | none => rw [curved_of_none h, h]
  | some s => exact mem_chars_iff.mp (curved_of_some h)

theorem Twin.curved_eq (h : Twin c d) : curved c = curved d := by
  rcases h with rfl | ⟨s, hc, hd⟩
  · rfl
  · rw [curved, curved, mem_chars_iff.mp hc, mem_chars_iff.mp hd]
    cases s <;> rfl

theorem twin_iff : Twin c d ↔ c = d ∨ (ofChar? c).isSome ∧ ofChar? c = ofChar? d := by
  refine or_congr_right ⟨?_, ?_⟩
  · rintro ⟨s, hc, hd⟩
    rw [mem_chars_iff.mp hc, mem_chars_iff.mp hd]
    exact ⟨rfl, rfl⟩
  · rintro ⟨hs, heq⟩
    obtain ⟨s, hs⟩ := Option.isSome_iff_exists.mp hs
    exact ⟨s, mem_chars_iff.mpr hs, mem_chars_iff.mpr (heq ▸ hs)⟩

instance (c d : Char) : Decidable (Twin c d) := decidable_of_iff _ twin_iff.symm

/-- A character that draws no sign is not the form of another one. -/
theorem curved_eq_iff (hd : ofChar? d = none) : curved c = d ↔ c = d := by
  constructor
  · intro h
    have hc : ofChar? c = none := by rw [← ofChar?_curved, h, hd]
    rwa [curved_of_none hc] at h
  · rintro rfl
    exact curved_of_none hd

theorem beq_curved (hd : ofChar? d = none) : (curved c == d) = (c == d) := by
  rw [Bool.eq_iff_iff, beq_iff_eq, beq_iff_eq, curved_eq_iff hd]

@[simp] theorem curved_blank : curved ' ' = ' ' := rfl

@[simp] theorem contains_curved (s : Sign) (c : Char) :
    s.chars.contains (curved c) = s.chars.contains c := by
  rw [Bool.eq_iff_iff, List.contains_iff_mem, List.contains_iff_mem, mem_chars_iff, mem_chars_iff,
    ofChar?_curved]

end Sign

/-! ## Lines -/

namespace Lines

theorem isBreak_curved (c : Char) : isBreak (Sign.curved c) = isBreak c := by
  simp (disch := decide) only [isBreak, Sign.beq_curved]

theorem not_pair_curved {c : Char} {cs : List Char}
    (h : ∀ rest, c = '\r' → cs = '\n' :: rest → False) (rest : List Char)
    (hc : Sign.curved c = '\r') (hcs : cs.map Sign.curved = '\n' :: rest) : False := by
  obtain ⟨d, ds, rfl, hd, -⟩ := List.map_eq_cons_iff.mp hcs
  exact h ds ((Sign.curved_eq_iff rfl).mp hc) (by rw [(Sign.curved_eq_iff rfl).mp hd])

theorem split_curved (cs : List Char) :
    split (cs.map Sign.curved) = (split cs).map (·.map Sign.curved) := by
  fun_induction split cs with
  | case1 => rfl
  | case2 cs ih =>
    change [] :: split (cs.map Sign.curved) = _
    rw [ih]
    rfl
  | case3 c cs hpair hbreak ih =>
    rw [List.map_cons, split_cons (not_pair_curved hpair), isBreak_curved, if_pos hbreak, ih]
    rfl
  | case4 c cs hpair hbreak hs ih =>
    rw [List.map_cons, split_cons (not_pair_curved hpair), isBreak_curved, if_neg hbreak, ih, hs]
    rfl
  | case5 c cs hpair hbreak l ls hs ih =>
    rw [List.map_cons, split_cons (not_pair_curved hpair), isBreak_curved, if_neg hbreak, ih, hs]
    rfl

end Lines

/-! ## Grids -/

/-- A grid with its corners made curved. -/
def Grid.curved (g : Grid) : Grid := g.map (·.map Sign.curved)

/-- A glyph cut out, with its corners made curved. -/
def Panel.curved (p : Panel) : Panel := ⟨p.level, p.rows.curved⟩

theorem Index.get?_map {α β : Type} (f : α → β) (xs : List α) (i : Int) :
    Index.get? (xs.map f) i = (Index.get? xs i).map f := by
  unfold Index.get?
  rw [List.length_map]
  cases resolve? xs.length i with
  | none => rfl
  | some j => exact List.getElem?_map

namespace Grid

variable (g : Grid)

theorem row_curved (y : Int) : g.curved.row y = (g.row y).map (·.map Sign.curved) := by
  unfold row curved
  rw [Index.get?_map]
  cases Index.get? g y with
  | none => rfl
  | some r => rfl

theorem cell_curved (p : Pos) : g.curved.cell p = (g.cell p).map Sign.curved := by
  refine Outcome.bind_map (g.row_curved p.y) fun r => ?_
  simp only [Index.get?_map]
  cases Index.get? r p.x with
  | none => rfl
  | some c => rfl

theorem hasNeighbor_curved (p : Pos) (d : Dir) : g.curved.hasNeighbor p d = g.hasNeighbor p d := by
  cases d with
  | up | left => rfl
  | down => simp [hasNeighbor, curved]
  | right =>
    simp only [hasNeighbor, row_curved]
    cases g.row p.y with
    | error f => rfl
    | ok r => simp [Except.map, bind, Except.bind]

theorem neighbor_curved (p : Pos) (d : Dir) :
    g.curved.neighbor p d = (g.neighbor p d).map (·.map fun (c, q) => (Sign.curved c, q)) := by
  unfold neighbor
  rw [hasNeighbor_curved]
  refine Outcome.bind_map_same fun b => ?_
  cases b with
  | false => rfl
  | true => exact Outcome.bind_map (g.cell_curved (p.step d)) fun c => rfl

theorem continues_curved (p : Pos) (d : Dir) : g.curved.continues p d = g.continues p d := by
  unfold continues
  rw [neighbor_curved]
  cases g.neighbor p d with
  | error f => rfl
  | ok n =>
    cases n with
    | none => rfl
    | some a => simp [Except.map]

/-- A sign with one form stands in the same columns. -/
theorem columns_curved {s : Sign} {c : Char} (hs : s.chars = [c]) (row : Row) :
    Row.columns s.chars (row.map Sign.curved) = Row.columns s.chars row := by
  have hbeq (d : Char) : (Sign.curved d == c) = (d == c) := by
    simpa [hs] using s.contains_curved d
  rw [hs, Row.columns, Row.columns, List.zipIdx_map]
  simp only [List.flatMap_singleton, List.filterMap_map, Function.comp_def, Prod.map, id_eq, hbeq]

theorem openingsInRow_curved (y : Nat) (row : Row) :
    g.curved.openingsInRow y (row.map Sign.curved) = g.openingsInRow y row := by
  unfold openingsInRow
  rw [columns_curved rfl]
  simp only [Sign.contains_curved, continues_curved, List.getElem?_map, Option.all_map,
    Function.comp_def, ← List.map_take, ← List.map_reverse, List.takeWhile_map, List.length_map]

theorem closingsInRow_curved (y : Nat) (row : Row) :
    g.curved.closingsInRow y (row.map Sign.curved) = g.closingsInRow y row := by
  unfold closingsInRow
  rw [columns_curved rfl]
  simp only [continues_curved]

theorem locations_curved : g.curved.locations = g.locations := by
  have hopenings : g.curved.openings = g.openings := by
    unfold openings
    nth_rewrite 2 [curved]
    rw [List.zipIdx_map, List.flatMap_map]
    simp only [Prod.map, id_eq, openingsInRow_curved]
  have hclosings : g.curved.closings = g.closings := by
    unfold closings
    nth_rewrite 2 [curved]
    rw [List.zipIdx_map, List.flatMap_map]
    simp only [Prod.map, id_eq, closingsInRow_curved]
  rw [locations, locations, hopenings, hclosings]

theorem isBlankRow_curved (r : Row) : isBlankRow (r.map Sign.curved) = isBlankRow r := by
  unfold isBlankRow
  rw [List.all_map]
  simp only [Function.comp_def, Sign.beq_curved (show Sign.ofChar? ' ' = none from rfl)]

theorem trim_curved : g.curved.trim = g.trim.map curved := by
  cases g with
  | nil => rfl
  | cons r rs =>
    have hfirst : trimFirst (r.map Sign.curved) (curved rs) = (trimFirst r rs).curved := by
      unfold trimFirst
      rw [isBlankRow_curved]
      split <;> rfl
    change trim (r.map Sign.curved :: curved rs) = _
    rw [trim_cons_eq, trim_cons_eq, hfirst, curved, List.getLast?_map]
    cases (trimFirst r rs).getLast? with
    | none => rfl
    | some l =>
      simp only [Option.map_some, Option.elim_some, isBlankRow_curved, Except.map]
      split
      · rw [← List.map_dropLast]
        rfl
      · rfl

end Grid

/-! ## Glyphs cut out -/

namespace Location

theorem blankLast_curved (r : Row) :
    blankLast (r.map Sign.curved) = (blankLast r).map Sign.curved := by
  unfold blankLast
  rw [List.isEmpty_map]
  split
  · rfl
  · rw [List.map_append, List.map_dropLast]
    rfl

theorem blankFirst_curved (n : Nat) (r : Row) :
    blankFirst n (r.map Sign.curved) = (blankFirst n r).map Sign.curved := by
  simp [blankFirst]

theorem onLast_curved {f : Row → Row}
    (hf : ∀ r : Row, f (r.map Sign.curved) = (f r).map Sign.curved) (g : Grid) :
    onLast f g.curved = (onLast f g).curved := by
  fun_induction onLast f g with
  | case1 => rfl
  | case2 r => exact congrArg (fun r => [r]) (hf r)
  | case3 r rs hne ih =>
    change onLast f (r.map Sign.curved :: Grid.curved rs) =
      r.map Sign.curved :: (onLast f rs).curved
    have hne' : Grid.curved rs ≠ [] := fun h => hne (List.map_eq_nil_iff.mp h)
    rw [onLast.eq_3 _ _ _ hne', ih]

theorem onFirst_curved {f : Row → Row}
    (hf : ∀ r : Row, f (r.map Sign.curved) = (f r).map Sign.curved) (g : Grid) :
    onFirst f g.curved = (onFirst f g).curved := by
  cases g with
  | nil => rfl
  | cons r rs => exact congrArg (· :: Grid.curved rs) (hf r)

theorem rectangle_curved (l : Location) (g : Grid) :
    l.rectangle g.curved = (l.rectangle g).curved := by
  unfold rectangle Grid.curved
  simp only [← List.map_drop, ← List.map_take, List.map_map, Function.comp_def]

theorem cut_curved (l : Location) (g : Grid) : l.cut g.curved = (l.cut g).curved := by
  unfold cut Panel.curved
  rw [rectangle_curved, onFirst_curved (blankFirst_curved _), onLast_curved blankLast_curved]

end Location

/-! ## Hooks and strands -/

/-- A cell of a strand with its corner made curved. -/
def Cell.curved (c : Cell) : Cell := { c with symbol := Sign.curved c.symbol }

/-- A strand with the corners of its cells made curved. -/
def Strand.curved (s : Strand) : Strand := { s with cells := s.cells.map Cell.curved }

namespace Grid

variable (g : Grid)

theorem pad_curved : g.curved.pad = g.pad.curved := by
  have hwidth : g.curved.width = g.width := by
    unfold width curved
    rw [List.map_map]
    simp only [Function.comp_def, List.length_map]
  unfold pad
  rw [hwidth, curved, curved, List.map_map, List.map_map]
  simp [Function.comp_def]

theorem cells_curved : g.curved.cells = g.cells.map fun (p, c) => (p, Sign.curved c) := by
  unfold cells curved
  rw [List.zipIdx_map, List.flatMap_map, List.map_flatMap]
  simp [List.zipIdx_map, Function.comp_def]

/-- Signs that open or close glyphs have one form only. -/
theorem marks_curved {c d : Char} {s : Sign} (hd : Sign.ofChar? d = some s) :
    (Sign.curved c == Sign.curved d && (s == .opening || s == .closing)) =
      (c == d && (s == .opening || s == .closing)) := by
  cases hmark : s == .opening || s == .closing with
  | false => rw [Bool.and_false, Bool.and_false]
  | true =>
    rw [Bool.and_true, Bool.and_true, Bool.eq_iff_iff, beq_iff_eq, beq_iff_eq]
    refine ⟨fun h => ?_, congrArg _⟩
    -- Both characters draw `s`, and one character only does.
    have hc : Sign.ofChar? c = some s := by
      rw [← Sign.ofChar?_curved, h, Sign.ofChar?_curved, hd]
    have hcs := Sign.mem_chars_iff.mpr hc
    have hds := Sign.mem_chars_iff.mpr hd
    rw [Bool.or_eq_true, beq_iff_eq, beq_iff_eq] at hmark
    rcases hmark with rfl | rfl
    · rw [List.mem_singleton.mp hcs, List.mem_singleton.mp hds]
    · rw [List.mem_singleton.mp hcs, List.mem_singleton.mp hds]

theorem linked_curved (p : Pos) (d : Dir) : g.curved.linked p d = g.linked p d := by
  unfold linked
  rw [neighbor_curved, cell_curved]
  cases g.neighbor p d with
  | error f => rfl
  | ok n =>
    cases n with
    | none => rfl
    | some a =>
      simp only [Except.map, Option.map_some, bind, Except.bind, Sign.ofChar?_curved]
      cases hs : Sign.ofChar? a.1 with
      | none => rfl
      | some s =>
        cases g.cell p with
        | error f => rfl
        | ok c => simp only [marks_curved hs]

theorem linkedDirs_curved (p : Pos) (ds : List Dir) :
    g.curved.linkedDirs p ds = g.linkedDirs p ds := by
  induction ds with
  | nil => rfl
  | cons d ds ih => rw [linkedDirs, linkedDirs, linked_curved, ih]

theorem hookAt_curved (p : Pos) (c : Char) : g.curved.hookAt p (Sign.curved c) = g.hookAt p c := by
  unfold hookAt links
  simp only [Sign.ofChar?_curved, linkedDirs_curved]

theorem hooksAt_curved (cs : List (Pos × Char)) :
    g.curved.hooksAt (cs.map fun (p, c) => (p, Sign.curved c)) = g.hooksAt cs := by
  induction cs with
  | nil => rfl
  | cons a cs ih => rw [List.map_cons, hooksAt, hooksAt, hookAt_curved, ih]

theorem hooks_curved : g.curved.hooks = g.hooks := by
  rw [hooks, cells_curved, hooksAt_curved, hooks]

theorem goesOn_curved (s : Sign) (p : Pos) (exit : Option Dir) :
    Strand.goesOn g.curved s p exit = Strand.goesOn g s p exit := by
  unfold Strand.goesOn
  cases exit with
  | none => rfl
  | some e =>
    simp only [neighbor_curved]
    cases g.neighbor p e with
    | error f => rfl
    | ok n =>
      cases n with
      | none => rfl
      | some a => simp only [Except.map, Option.map_some, bind, Except.bind, Sign.ofChar?_curved]

theorem walk_curved (primes : List Nat) (hookX : Int) (limit : Nat) (p : Pos) (d : Dir)
    (sums : Sums) :
    Strand.walk g.curved primes hookX limit p d sums =
      (Strand.walk g primes hookX limit p d sums).map fun (cells, sums, stop) =>
        (cells.map Cell.curved, sums, stop) := by
  induction limit generalizing p d sums with
  | zero => rfl
  | succ limit ih =>
    rw [walk_succ, walk_succ]
    refine Outcome.bind_map (g.neighbor_curved p d) fun n => ?_
    cases n with
    | none => rfl
    | some a =>
      simp only [Option.map_some, Option.elim_some, Sign.ofChar?_curved]
      cases hs : Sign.ofChar? a.1 with
      | none =>
        -- The fault names the character, which draws no sign and so has one form.
        rw [Sign.curved_of_none hs]
        rfl
      | some s =>
        refine Outcome.bind_map_same fun sums => ?_
        rw [goesOn_curved]
        refine Outcome.bind_map_same fun on => ?_
        cases s.mayEnd && !on with
        | true => rfl
        | false =>
          cases s.through d with
          | none => rfl
          | some e => exact Outcome.bind_map (ih a.2 e sums) fun w => rfl

theorem strands_curved (limit : Nat) (primes : List Nat) :
    g.curved.strands limit primes = (g.strands limit primes).map (·.map Strand.curved) := by
  unfold strands
  simp only [pad_curved, hooks_curved]
  refine Outcome.bind_map_same fun hs => ?_
  have hhook : ∀ h, Strand.ofHook limit primes g.pad.curved h =
      (Strand.ofHook limit primes g.pad h).map Strand.curved := fun h => by
    refine Outcome.bind_map (g.pad.walk_curved primes h.pos.x limit h.pos h.dir .none) fun w => ?_
    exact Outcome.bind_map_same fun m => rfl
  have := Outcome.mapM_map (φ := fun h : Hook => h) hhook hs
  rwa [List.map_id'] at this

end Grid

/-! ## Tokens -/

/-- A data token with the corners of its strands made curved. -/
def DataToken.curved (d : DataToken) : DataToken :=
  { d with strand := d.strand.curved, action := d.action.map Strand.curved }

/-- A question with the corners of its strands made curved. -/
def QuestionToken.curved (q : QuestionToken) : QuestionToken :=
  { q with strand := q.strand.curved, second := q.second.curved }

/-- A token with the corners of its strands made curved. -/
def Token.curved : Token → Token
  | .data d => .data d.curved
  | .question q => .question q.curved

/-- A glyph with the corners of its rows and of its strands made curved. -/
def Glyph.curved (g : Glyph) : Glyph := ⟨g.toPanel.curved, g.tokens.map Token.curved⟩

theorem Strand.pos_curved (s : Strand) : s.curved.pos = s.pos := rfl

namespace Arrangement

variable (primes : List Nat) (ds : List DataToken) (ss : List Strand)

theorem mergeSort_curved (le : Pos → Pos → Bool) :
    ((ss.map Strand.curved).mergeSort fun a b => le a.pos b.pos) =
      (ss.mergeSort fun a b => le a.pos b.pos).map Strand.curved :=
  (List.map_mergeSort (f := Strand.curved) fun _ _ _ _ => rfl).symm

theorem byColumn_curved (k : Kind) :
    byColumn k (ss.map Strand.curved) = (byColumn k ss).map Strand.curved := by
  unfold byColumn
  rw [mergeSort_curved, List.filter_map]
  rfl

theorem questions_curved : questions (ss.map Strand.curved) = (questions ss).map Strand.curved := by
  unfold questions
  rw [mergeSort_curved ss fun p q => decide (p.y ≤ q.y), List.filter_map]
  rfl

theorem placeData_curved (seen : List Int) :
    placeData primes seen (ss.map Strand.curved) =
      (placeData primes seen ss).map (·.map DataToken.curved) := by
  induction ss generalizing seen with
  | nil => rfl
  | cons s ss ih =>
    refine Outcome.bind_map_same fun list => ?_
    exact Outcome.bind_map (ih (s.pos.y :: seen)) fun rest => rfl

theorem refAt_curved (question : Option Pos) (p : Pos) :
    refAt primes (ds.map DataToken.curved) question p = refAt primes ds question p := by
  have hcell : cellBefore (ds.map DataToken.curved) question p = cellBefore ds question p := by
    simp only [cellBefore, List.filter_map, List.map_map]
    rfl
  rw [refAt, refAt, hcell]

theorem stopOf_curved (s : Strand) : stopOf s.curved = stopOf s := rfl

theorem tipOf_curved (s : Strand) : tipOf s.curved = tipOf s := by
  unfold tipOf Strand.curved
  rw [List.getLast?_map]
  cases s.cells.getLast? with
  | none => rfl
  | some c => simp [Cell.curved]

theorem question?_curved (i : Nat) :
    question? i primes (ds.map DataToken.curved) (ss.map Strand.curved) =
      (question? i primes ds ss).map (·.map (Sum.map Strand.curved QuestionToken.curved)) := by
  cases ss with
  | nil => rfl
  | cons q rest =>
    rw [List.map_cons, question?, question?, refAt_curved]
    refine Outcome.bind_map_same fun ref => ?_
    cases rest with
    | nil => rfl
    | cons r more =>
      simp only [List.map_cons, List.isEmpty_map, List.length_map, refAt_curved, tipOf_curved,
        stopOf_curved, Strand.pos_curved]
      split
      · rfl
      · refine Outcome.bind_map_same fun secondRef => ?_
        cases more.isEmpty with
        | true => rfl
        | false => rfl

theorem withRefs_curved (question : Option Pos) :
    withRefs primes (ds.map DataToken.curved) question =
      (withRefs primes ds question).map (·.map DataToken.curved) := by
  unfold withRefs
  refine Outcome.mapM_map (fun d => ?_) ds
  have hmeaning : d.curved.strand.meaning = d.strand.meaning := rfl
  simp only [refAt_curved, hmeaning]
  cases d.strand.meaning with
  | ref p => exact Outcome.bind_map_same fun c => rfl
  | value | question | act => rfl

theorem ranks_curved (column : Int) (n : Nat) :
    ranks column n (ss.map Strand.curved) =
      (ranks column n ss).map fun (s, k) => (s.curved, k) := by
  induction ss generalizing column n with
  | nil => rfl
  | cons s ss ih =>
    rw [List.map_cons, ranks, ranks, ih]
    rfl

theorem attach_curved (actions : List (Strand × Nat)) (seen : List Int) :
    attach (actions.map fun (s, k) => (s.curved, k)) seen (ds.map DataToken.curved) =
      (attach actions seen ds).map DataToken.curved := by
  induction ds generalizing seen with
  | nil => rfl
  | cons d ds ih =>
    rw [List.map_cons, attach, attach, ih, List.find?_map, Option.map_map]
    simp only [List.map_cons, DataToken.curved, Option.map_map]
    rfl

theorem map_data_curved :
    (ds.map DataToken.curved).map Token.data = (ds.map Token.data).map Token.curved := by
  rw [List.map_map, List.map_map]
  rfl

theorem tokens_curved (i : Nat) :
    tokens i primes (ss.map Strand.curved) = (tokens i primes ss).map (·.map Token.curved) := by
  unfold tokens
  rw [byColumn_curved, byColumn_curved, questions_curved, ranks_curved]
  refine Outcome.bind_map (placeData_curved primes _ []) fun ds => ?_
  refine Outcome.bind_map (question?_curved primes ds _ i) fun q => ?_
  cases q with
  | none =>
    refine Outcome.bind_map (withRefs_curved primes ds _) fun ds => ?_
    simp only [attach_curved, map_data_curved]
    rfl
  | some q =>
    cases q with
    | inl s => exact Outcome.bind_map (withRefs_curved primes ds _) fun ds => rfl
    | inr t =>
      refine Outcome.bind_map (withRefs_curved primes ds _) fun ds => ?_
      simp only [attach_curved, map_data_curved]
      simp [Except.map, pure, Except.pure, Token.curved]

end Arrangement

/-! ## Programs -/

/-- The table depends on the numbers of rows and on the lengths of the first rows only. -/
theorem Primes.ofGrids_map {f : Grid → Grid} (hlength : ∀ g, (f g).length = g.length)
    (hwidth : ∀ g, Primes.firstWidth (f g) = Primes.firstWidth g) (gs : List Grid) :
    Primes.ofGrids (gs.map f) = Primes.ofGrids gs := by
  have hside : Primes.longestSide (gs.map f) = Primes.longestSide gs := by
    induction gs with
    | nil => rfl
    | cons g gs ih =>
      rw [List.map_cons, Primes.longestSide, Primes.longestSide, ih, hwidth, hlength]
  rw [Primes.ofGrids, Primes.ofGrids, hside, List.isEmpty_map]

theorem Primes.ofGrids_curved (gs : List Grid) :
    Primes.ofGrids (gs.map Grid.curved) = Primes.ofGrids gs := by
  refine Primes.ofGrids_map (fun _ => List.length_map _) (fun g => ?_) gs
  cases g with
  | nil => rfl
  | cons r rs => exact congrArg Except.ok (List.length_map _)

namespace Program

theorem lex_curved (limit : Nat) (ps : List Panel) :
    lex limit (ps.map Panel.curved) = (lex limit ps).map fun (primes, lexed) =>
      (primes, lexed.map fun (p, ss) => (p.curved, ss.map Strand.curved)) := by
  have hrows : (ps.map Panel.curved).map (·.rows) = (ps.map (·.rows)).map Grid.curved := by
    rw [List.map_map, List.map_map]
    rfl
  unfold lex
  rw [hrows, Primes.ofGrids_curved]
  refine Outcome.bind_map_same fun primes => ?_
  refine Outcome.bind_map (Outcome.mapM_map (fun p => ?_) ps) fun lexed => rfl
  exact Outcome.bind_map (p.rows.strands_curved limit primes) fun ss => rfl

theorem arrange_curved (primes : List Nat) (i : Nat) (lexed : List (Panel × List Strand)) :
    arrange primes i (lexed.map fun (p, ss) => (p.curved, ss.map Strand.curved)) =
      (arrange primes i lexed).map (·.map Glyph.curved) := by
  induction lexed generalizing i with
  | nil => rfl
  | cons a lexed ih =>
    refine Outcome.bind_map (Arrangement.tokens_curved primes a.2 i) fun ts => ?_
    exact Outcome.bind_map (ih (i + 1)) fun gs => rfl

/-- **A grid with its corners made curved is read as the same glyphs with their corners made
curved**, or not read for the same reason. -/
theorem parseGrid_curved (limit : Nat) (g : Grid) :
    parseGrid limit g.curved = (parseGrid limit g).map (·.map Glyph.curved) := by
  refine Outcome.bind_map g.trim_curved fun g => ?_
  have hlocate : locate g.curved = locate g := by rw [locate, locate, g.locations_curved]
  rw [hlocate]
  refine Outcome.bind_map_same fun locs => ?_
  have hcut : locs.map (·.cut g.curved) = (locs.map (·.cut g)).map Panel.curved := by
    rw [List.map_map]
    exact List.map_congr_left fun l _ => l.cut_curved g
  rw [hcut]
  exact Outcome.bind_map (lex_curved limit _) fun lexed => arrange_curved lexed.1 0 lexed.2

/-- Texts that differ in the forms of their corners are read alike. -/
theorem parseWithin_twins (limit : Nat) {text text' : String}
    (h : List.Forall₂ Sign.Twin text.toList text'.toList) :
    (parseWithin limit text).map (·.map Glyph.curved) =
      (parseWithin limit text').map (·.map Glyph.curved) := by
  have hchars : text.toList.map Sign.curved = text'.toList.map Sign.curved := by
    rw [← List.forall₂_eq_eq_eq, List.forall₂_map_left_iff, List.forall₂_map_right_iff]
    exact h.imp fun _ _ htwin => htwin.curved_eq
  have hgrid : (grid text).curved = (grid text').curved := by
    rw [grid, grid, Grid.curved, Grid.curved, ← Lines.split_curved, ← Lines.split_curved, hchars]
  rw [parseWithin, parseWithin, ← parseGrid_curved, ← parseGrid_curved, hgrid]

end Program

end StrandScript
