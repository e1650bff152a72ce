import StrandScript.Proofs.TokenFields

/-!
# What references count

A place on a row stands for the cell after the last one that was given to a hook left of it. The
cells of a row are given out one after the other from the left, so this is the number of data
strands that begin left of the place, whenever they run (`refs_count_hooks`).

* `Strand.leftOf`: how many data strands begin left of a place, on its row.
* `Arrangement.cells_leftOf`: their cells are the numbers below that.
* `Arrangement.refAt_eq_ok`: the cell that a place refers to.
-/

namespace StrandScript

/-- The number of data strands that begin left of a place, on its row. -/
def Strand.leftOf (ss : List Strand) (p : Pos) : Nat :=
  ss.countP fun s => s.hook.kind == .data && s.pos.y == p.y && s.pos.x < p.x

/-- What a predicate keeps of a list in which it fails for all that comes after a failure is the
front of the list. -/
theorem filter_isPrefix {α : Type} {q : α → Bool} {xs : List α}
    (h : xs.Pairwise fun a b => q b = true → q a = true) : xs.filter q <+: xs := by
  induction xs with
  | nil => exact List.prefix_rfl
  | cons a xs ih =>
    rw [List.pairwise_cons] at h
    cases ha : q a with
    | true =>
      rw [List.filter_cons_of_pos ha]
      exact (List.prefix_cons_inj a).mpr (ih h.2)
    | false =>
      have hnone : (a :: xs).filter q = [] := by
        refine List.filter_eq_nil_iff.mpr
          (List.forall_mem_cons.mpr ⟨by simp [ha], fun b hb hq => ?_⟩)
        rw [h.1 b hb hq] at ha
        cases ha
      rw [hnone]
      exact List.nil_prefix

namespace Arrangement

open Strand

variable {primes : List Nat} {ss : List Strand}

/-! ## The cells of a row -/

/-- **The cells of a row are given out one after the other**, after those that were given out
before. -/
theorem cells_of_row {seen : List Int} {cs : List Strand} {ds : List DataToken}
    (h : placeData primes seen cs = .ok ds) (y : Int) :
    (ds.filter fun d => d.strand.pos.y == y).map (·.cell) =
      List.range' (seen.count y) (cs.countP fun s => s.pos.y == y) := by
  induction cs generalizing seen ds with
  | nil =>
    cases h
    rfl
  | cons s cs ih =>
    obtain ⟨list, -, h⟩ := Outcome.bind_eq_ok.mp h
    obtain ⟨rest, hrest, h⟩ := Outcome.bind_eq_ok.mp h
    cases h
    have hrow := ih hrest
    by_cases hy : s.pos.y = y
    · subst hy
      rw [List.count_cons_self] at hrow
      rw [List.filter_cons_of_pos (by simp), List.countP_cons_of_pos (by simp), List.map_cons, hrow,
        List.range'_succ]
    · rw [List.count_cons_of_ne (fun he => hy he)] at hrow
      rw [List.filter_cons_of_neg (by simpa using hy), List.countP_cons_of_neg (by simpa using hy),
        hrow]

/-- **The cells left of a place** are the first ones of its row, one for each data strand there. -/
theorem cells_leftOf (hss : ss.Pairwise fun a b => a.pos ≠ b.pos) {ds : List DataToken}
    (h : placeData primes [] (byColumn .data ss) = .ok ds) (p : Pos) :
    (ds.filter fun d => d.strand.pos.y == p.y && decide (d.strand.pos.x < p.x)).map (·.cell) =
      List.range (leftOf ss p) := by
  have hstrand := placeData_strand h
  have hcolumns : ds.Pairwise fun a b => a.strand.pos.ColumnBefore b.strand.pos := by
    have := byColumn_columnBefore .data hss
    rwa [← hstrand, List.pairwise_map] at this
  -- The tokens of the row come from the left, so those left of the place are the first of them.
  let row := ds.filter fun d => d.strand.pos.y == p.y
  have hprefix : row.filter (fun d => decide (d.strand.pos.x < p.x)) <+: row := by
    refine filter_isPrefix ((hcolumns.filter _).imp fun {a b} hab hb => ?_)
    simp only [decide_eq_true_eq, Pos.ColumnBefore] at hab hb ⊢
    omega
  have hsplit : (ds.filter fun d => d.strand.pos.y == p.y && decide (d.strand.pos.x < p.x)) =
      row.filter fun d => decide (d.strand.pos.x < p.x) := by
    rw [List.filter_filter]
    exact List.filter_congr fun d _ => Bool.and_comm _ _
  have hcount : (row.filter fun d => decide (d.strand.pos.x < p.x)).length = leftOf ss p := by
    have hperm := countP_byColumn .data ss fun s => s.pos.y == p.y && decide (s.pos.x < p.x)
    rw [← hstrand, List.countP_map] at hperm
    rw [← hsplit, ← List.countP_eq_length_filter, leftOf]
    exact hperm.trans (List.countP_congr fun s _ => by rw [Bool.and_assoc])
  rw [hsplit, ← hcount]
  have hcells := hprefix.map (·.cell)
  rw [cells_of_row h p.y, List.count_nil, ← List.range_eq_range'] at hcells
  have htake := List.prefix_iff_eq_take.mp hcells
  have hle := hcells.length_le
  rw [List.length_map] at htake hle
  rw [List.length_range] at hle
  rw [htake, List.take_range, Nat.min_eq_left hle]

theorem max?_range_succ (n : Nat) : (List.range (n + 1)).max? = some n := by
  rw [List.max?_eq_some_iff]
  exact ⟨List.self_mem_range_succ, fun b hb => Nat.lt_succ_iff.mp (List.mem_range.mp hb)⟩

/-- **The cell that a place refers to** is the number of data strands left of it; and its list is
that of the row. -/
theorem refAt_eq_ok (hss : ss.Pairwise fun a b => a.pos ≠ b.pos) {ds : List DataToken}
    (hds : placeData primes [] (byColumn .data ss) = .ok ds) {question : Option Pos} {p : Pos}
    {r : CellRef} (h : refAt primes ds question p = .ok r) :
    Primes.number primes p.y.toNat = .ok r.list ∧ r.cell = leftOf ss p := by
  obtain ⟨list, hlist, h⟩ := Outcome.bind_eq_ok.mp h
  obtain ⟨cell, hcell, h⟩ := Outcome.bind_eq_ok.mp h
  cases h
  refine ⟨hlist, congrArg Int.ofNat ?_⟩
  simp only [cellBefore, cells_leftOf hss hds p] at hcell
  cases hn : leftOf ss p with
  | zero =>
    -- Only here a question strand on the row matters, and with it there is no cell.
    rw [hn] at hcell
    simp only [List.range_zero, List.max?_nil] at hcell
    split at hcell
    · cases hcell
    · exact (Except.ok.inj hcell).symm
  | succ n =>
    rw [hn, max?_range_succ] at hcell
    exact (Except.ok.inj hcell).symm

/-! ## References of tokens -/

/-- A data token that points to a place has the cell that the place refers to. -/
theorem exists_ref_of_tokens {i : Nat} {ts : List Token} (h : tokens i primes ss = .ok ts)
    {d : DataToken} (hd : Token.data d ∈ ts) {p : Pos} (hp : d.strand.meaning = .ref p) :
    ∃ ds question r, placeData primes [] (byColumn .data ss) = .ok ds ∧
      refAt primes ds question p = .ok r ∧ d.ref = some r := by
  obtain ⟨ds₀, question, ds₁, hds₀, hds₁, hmem⟩ := mem_attach_of_tokens h hd
  obtain ⟨e, he, hde⟩ := exists_of_mem_attach hmem
  obtain ⟨e₀, -, heq⟩ := Outcome.exists_of_mem_mapM hds₁ he
  rw [hde] at hp ⊢
  split at heq
  · rename_i p' hp'
    obtain ⟨r, hr, heq⟩ := Outcome.bind_eq_ok.mp heq
    cases heq
    cases hp'.symm.trans hp
    exact ⟨ds₀, question, r, hds₀, hr, rfl⟩
  · rename_i hnot
    cases heq
    exact absurd hp (hnot p)

/-- The question of an arranged glyph was found among its question strands. -/
theorem exists_question_of_tokens {i : Nat} {ts : List Token} (h : tokens i primes ss = .ok ts)
    {t : QuestionToken} (ht : Token.question t ∈ ts) :
    ∃ ds, placeData primes [] (byColumn .data ss) = .ok ds ∧
      question? i primes ds (questions ss) = .ok (some (.inr t)) := by
  obtain ⟨ds₀, hds₀, h⟩ := Outcome.bind_eq_ok.mp h
  obtain ⟨q, hq, h⟩ := Outcome.bind_eq_ok.mp h
  obtain ⟨ds₁, -, h⟩ := Outcome.bind_eq_ok.mp h
  match q with
  | none =>
    cases h
    simp at ht
  | some (.inl _) => cases h
  | some (.inr t') =>
    cases h
    obtain rfl : t = t' := by simpa using ht
    exact ⟨ds₀, hds₀, hq⟩

end Arrangement

/-! ## References of programs -/

/-- The cell `r` is the one that the place `p` of a glyph stands for: it is on the list of the row,
and has as many cells before it as data strands begin left of the place. -/
structure CellRef.StandsFor (primes : List Nat) (ss : List Strand) (r : CellRef) (p : Pos) :
    Prop where
  row : 0 ≤ p.y
  list : (primes[p.y.toNat]?).map Int.ofNat = some r.list
  cell : r.cell = Strand.leftOf ss p

theorem CellRef.StandsFor.of_refAt {limit : Nat} {primes : List Nat} {g : Grid} {ss : List Strand}
    (hss : g.strands limit primes = .ok ss) {ds : List DataToken}
    (hds : Arrangement.placeData primes [] (Arrangement.byColumn .data ss) = .ok ds)
    {question : Option Pos} {p : Pos} (hp : 0 ≤ p.y) {r : CellRef}
    (h : Arrangement.refAt primes ds question p = .ok r) : r.StandsFor primes ss p := by
  obtain ⟨hlist, hcell⟩ :=
    Arrangement.refAt_eq_ok ((Grid.strands_readsBefore hss).imp fun hab => hab.ne) hds h
  obtain ⟨n, hn, hlist⟩ := Arranged.getElem?_of_number hlist
  exact ⟨hp, by rw [hn, hlist]; rfl, hcell⟩

/-- **References count the hooks before them.** In a program that is read, a data token that points
to a place reads from the cell that the place stands for, and a question about a cell asks about the
one that its own place stands for; so does the second strand of any question. -/
theorem refs_count_hooks (limit : Nat) (text : String) (gs : List Glyph)
    (h : Program.parseWithin limit text = .ok gs) :
    ∃ primes, Primes.ofGrids (gs.map (·.rows)) = .ok primes ∧ ∀ g ∈ gs, ∃ ss,
      g.rows.strands limit primes = .ok ss ∧
      (∀ d, Token.data d ∈ g.tokens → ∀ p, d.strand.meaning = .ref p →
        ∃ r, d.ref = some r ∧ r.StandsFor primes ss p) ∧
      ∀ q, Token.question q ∈ g.tokens →
        (∀ r, q.target = .cell r → r.StandsFor primes ss q.strand.pos) ∧
        q.secondRef.StandsFor primes ss q.second.pos := by
  obtain ⟨-, -, primes, -, -, -, hprimes, htokens⟩ := Program.parseGrid_eq_ok h
  refine ⟨primes, hprimes, fun g hg => ?_⟩
  obtain ⟨i, ss, hss, hts⟩ := htokens g hg
  refine ⟨ss, hss, fun d hd p hp => ?_, fun q hq => ?_⟩
  · obtain ⟨ds, question, r, hds, href, hr⟩ := Arrangement.exists_ref_of_tokens hts hd hp
    obtain ⟨hs, -⟩ := (Arrangement.exists_data_iff hts).mp ⟨d, hd, rfl⟩
    exact ⟨r, hr, .of_refAt hss hds (Grid.strands_ref hss hs hp).1 href⟩
  · obtain ⟨ds, hds, hquestion⟩ := Arrangement.exists_question_of_tokens hts hq
    have hrow : ∀ s ∈ Arrangement.questions ss, 0 ≤ s.pos.y := fun s hs =>
      (Grid.strands_pos hss
        (List.mem_of_mem_filter ((Arrangement.questions_perm ss).subset hs))).2.1
    obtain ⟨-, hq⟩ | ⟨s, -, hq⟩ | ⟨t, hqs, hq, -, hfirst, hsecond⟩ :=
      Arrangement.question?_eq_ok hquestion
    · cases hq
    · cases hq
    · cases hq
      rw [hqs, List.forall_mem_cons, List.forall_mem_singleton] at hrow
      exact ⟨fun r hr => .of_refAt hss hds hrow.1 (hfirst r hr), .of_refAt hss hds hrow.2 hsecond⟩

/-- A strand that points right of a hook which runs after it, and a question behind two hooks of its
row. -/
def pointedDrawing : String := "╵╰─╮╰─ ╷\n ╰─╷   │\n       ╷\n       │ ╷"

/-- The strand points to cell `1` of the second row, where one strand begins left of its end; the
question asks about cell `2` of the first row, where two strands begin left of it. -/
theorem refs_count_hooks_pointed : ∃ gs g d q primes ss,
    Program.parseWithin nestingLimit pointedDrawing = .ok gs ∧ g ∈ gs ∧
    g.rows.strands nestingLimit primes = .ok ss ∧
    (Token.data d ∈ g.tokens ∧ d.strand.meaning = .ref ⟨3, 1⟩ ∧ d.ref = some ⟨2, 1⟩ ∧
      Strand.leftOf ss ⟨3, 1⟩ = 1) ∧
    Token.question q ∈ g.tokens ∧ q.strand.pos = ⟨7, 0⟩ ∧ q.target = .cell ⟨1, 2⟩ ∧
      Strand.leftOf ss ⟨7, 0⟩ = 2 := by
  let d : DataToken :=
    ⟨⟨⟨.upRight, ⟨1, 0⟩, .right, .data⟩,
      [⟨'─', ⟨2, 0⟩, some .right⟩, ⟨'╮', ⟨3, 0⟩, some .down⟩, ⟨'╷', ⟨3, 1⟩, none⟩], .ref ⟨3, 1⟩⟩,
      1, 0, 0, none, some ⟨2, 1⟩⟩
  let q : QuestionToken :=
    ⟨⟨⟨.closing, ⟨7, 0⟩, .down, .question⟩, [⟨'│', ⟨7, 1⟩, some .down⟩, ⟨'╷', ⟨7, 2⟩, none⟩],
        .question ⟨7, 2⟩⟩, 3, false,
      ⟨⟨.closing, ⟨7, 2⟩, .down, .question⟩, [⟨'│', ⟨7, 3⟩, none⟩], .question ⟨7, 3⟩⟩,
      ⟨3, 0⟩, .vertical, .cell ⟨1, 2⟩⟩
  have hread : (Program.parseWithin nestingLimit pointedDrawing).map (fun gs => gs.any fun g =>
      g.tokens.contains (.data d) && g.tokens.contains (.question q)) = .ok true := by cbv
  obtain ⟨gs, hgs, hany⟩ := Outcome.map_eq_ok.mp hread
  obtain ⟨g, hg, hboth⟩ := List.any_eq_true.mp hany
  rw [Bool.and_eq_true, List.contains_iff_mem, List.contains_iff_mem] at hboth
  obtain ⟨hd, hq⟩ := hboth
  obtain ⟨primes, -, hglyphs⟩ := refs_count_hooks nestingLimit pointedDrawing gs hgs
  obtain ⟨ss, hss, hrefs, hquestions⟩ := hglyphs g hg
  obtain ⟨r, hr, hstands⟩ := hrefs d hd ⟨3, 1⟩ rfl
  cases hr
  have hcell : (1 : Int) = Strand.leftOf ss ⟨3, 1⟩ := hstands.cell
  have hcell' : (2 : Int) = Strand.leftOf ss ⟨7, 0⟩ := ((hquestions q hq).1 ⟨1, 2⟩ rfl).cell
  exact ⟨gs, g, d, q, primes, ss, hgs, hg, hss, ⟨hd, rfl, rfl, by omega⟩, hq, rfl, rfl, by omega⟩

end StrandScript
