import StrandScript.Proofs.LiteralSum
import StrandScript.Proofs.Walk

/-!
# The numbers of a program's lists

The table of primes of a program is as long as the longest side of any of its glyphs, and none of
its numbers is missing. A program starts from lists with the first numbers of that table, one for
each row of its tallest glyph, and its tokens name these lists only (`lists_numbered`).

* `Primes.ofGrids_eq`: the table for some grids.
* `Token.lists`: the numbers of the lists that a token names.
-/

namespace StrandScript

/-! ## The table for some grids -/

namespace Primes

variable {gs : List Grid}

/-- The longest side is at least as long as every side; unless it is zero, it is one of them. -/
theorem longestSide_cases (hne : ∀ g ∈ gs, g ≠ []) :
    ∃ n, longestSide gs = .ok n ∧ (∀ g ∈ gs, g.length ≤ n ∧ (g.headD []).length ≤ n) ∧
      (n = 0 ∨ ∃ g ∈ gs, n = g.length ∨ n = (g.headD []).length) := by
  induction gs with
  | nil => exact ⟨0, rfl, by simp, Or.inl rfl⟩
  | cons g gs ih =>
    rw [List.forall_mem_cons] at hne
    obtain ⟨n, hn, hle, hsome⟩ := ih hne.2
    have hwidth : firstWidth g = .ok (g.headD []).length := by
      cases g with
      | nil => exact absurd rfl hne.1
      | cons r rs => rfl
    refine ⟨max (max g.length (g.headD []).length) n, ?_, ?_, ?_⟩
    · simp only [longestSide, hwidth, hn, bind, Except.bind]
      rfl
    · rw [List.forall_mem_cons]
      refine ⟨by omega, fun g' hg' => ?_⟩
      have := hle g' hg'
      omega
    · rcases Nat.le_total n (max g.length (g.headD []).length) with h | h
      · exact Or.inr ⟨g, List.mem_cons_self, by omega⟩
      · obtain h0 | ⟨g', hg', heq⟩ := hsome
        · exact Or.inl (by omega)
        · exact Or.inr ⟨g', List.mem_cons_of_mem _ hg', by omega⟩

/-- **The table for some grids is complete**: with `n` the largest number of rows or length of a
first row, it holds `1` and the `n - 1` smallest primes. -/
theorem ofGrids_eq {n : ℕ} (hne : ∀ g ∈ gs, g ≠ [])
    (h : IsGreatest {k | ∃ g ∈ gs, k = g.length ∨ k = (g.headD []).length} n) :
    1 ≤ n ∧ ofGrids gs = .ok (1 :: (List.range (n - 1)).map (Nat.nth Nat.Prime)) := by
  obtain ⟨⟨g, hg, hn⟩, hgreatest⟩ := h
  have hpos : 1 ≤ n := by
    have hlen : g.length ≤ n := hgreatest ⟨g, hg, Or.inl rfl⟩
    have := List.length_pos_iff.mpr (hne g hg)
    omega
  obtain ⟨m, hm, hle, hsome⟩ := longestSide_cases hne
  obtain rfl : m = n := by
    have h1 : n ≤ m := by
      have := hle g hg
      omega
    obtain rfl | ⟨g', hg', heq⟩ := hsome
    · omega
    · exact Nat.le_antisymm (hgreatest ⟨g', hg', heq⟩) h1
  refine ⟨hpos, ?_⟩
  unfold ofGrids
  rw [if_neg (by simpa using List.ne_nil_of_mem hg), hm]
  exact congrArg Except.ok (table_eq_nth m)

/-- Grids that are not empty have a table, which has all their rows. -/
theorem exists_ofGrids (hgs : gs ≠ []) (hne : ∀ g ∈ gs, g ≠ []) :
    ∃ n, longestSide gs = .ok n ∧ ofGrids gs = .ok (table n) ∧ 1 ≤ n ∧ ∀ g ∈ gs, g.length ≤ n := by
  obtain ⟨n, hn, hle, -⟩ := longestSide_cases hne
  obtain ⟨g, hg⟩ := List.exists_mem_of_ne_nil gs hgs
  have hpos := List.length_pos_iff.mpr (hne g hg)
  refine ⟨n, hn, ?_, hpos.trans_le (hle g hg).1, fun g hg => (hle g hg).1⟩
  rw [ofGrids, if_neg (by simpa using hgs), hn]
  rfl

end Primes

/-! ## The lists that tokens name -/

/-- The number of the list whose cell a question asks about. -/
def Target.lists : Target → List Int
  | .cell r => [r.list]
  | .list _ => []

/-- The numbers of the lists that a token names: the list that it writes to, and those of the cells
that it refers to. -/
def Token.lists : Token → List Int
  | .data d => d.list :: d.ref.toList.map (·.list)
  | .question q => q.target.lists ++ [q.secondRef.list]

namespace Arrangement

variable {primes : List Nat}

theorem refAt_list {ds : List DataToken} {question : Option Pos} {p : Pos} {r : CellRef}
    (h : refAt primes ds question p = .ok r) : Primes.number primes p.y.toNat = .ok r.list := by
  obtain ⟨n, hn, h⟩ := Outcome.bind_eq_ok.mp h
  obtain ⟨c, -, h⟩ := Outcome.bind_eq_ok.mp h
  cases h
  exact hn

/-- A question names the lists of the rows of its two strands. -/
theorem question?_lists {g : Nat} {ds : List DataToken} {qs : List Strand} {t : QuestionToken}
    (h : question? g primes ds qs = .ok (some (.inr t))) :
    ∀ n ∈ (Token.question t).lists, ∃ s ∈ qs, Primes.number primes s.pos.y.toNat = .ok n := by
  obtain ⟨-, ht⟩ | ⟨s, -, ht⟩ | ⟨t', rfl, ht, -, hfirst, hsecond⟩ := question?_eq_ok h
  · cases ht
  · cases ht
  · cases ht
    intro n hn
    rcases List.mem_append.mp hn with hn | hn
    · cases htarget : t.target with
      | list m =>
        rw [htarget] at hn
        cases hn
      | cell c =>
        rw [htarget] at hn
        obtain rfl := List.mem_singleton.mp hn
        exact ⟨t.strand, List.mem_cons_self, refAt_list (hfirst c htarget)⟩
    · obtain rfl := List.mem_singleton.mp hn
      exact ⟨t.second, List.mem_cons_of_mem _ List.mem_cons_self, refAt_list hsecond⟩

/-- A data token that was told where it refers to has the cell of that place. -/
theorem refAt_of_withRefs {ds ds' : List DataToken} {question : Option Pos}
    (h : withRefs primes ds question = .ok ds') (hds : ∀ d ∈ ds, d.ref = none) {d : DataToken}
    (hd : d ∈ ds') {r : CellRef} (hr : d.ref = some r) :
    ∃ p, d.strand.meaning = .ref p ∧ refAt primes ds question p = .ok r := by
  obtain ⟨e, he, hd⟩ := Outcome.exists_of_mem_mapM h hd
  split at hd
  · rename_i p hp
    obtain ⟨r', hr', hd⟩ := Outcome.bind_eq_ok.mp hd
    cases hd
    cases hr
    exact ⟨p, hp, hr'⟩
  · cases hd
    rw [hds d he] at hr
    cases hr

/-- Data tokens that were told where they refer to name the lists of these places. -/
theorem withRefs_ref {ds ds' : List DataToken} {question : Option Pos}
    (h : withRefs primes ds question = .ok ds') (hds : ∀ d ∈ ds, d.ref = none) {d : DataToken}
    (hd : d ∈ ds') {r : CellRef} (hr : d.ref = some r) :
    ∃ p, d.strand.meaning = .ref p ∧ Primes.number primes p.y.toNat = .ok r.list := by
  obtain ⟨p, hp, href⟩ := refAt_of_withRefs h hds hd hr
  exact ⟨p, hp, refAt_list href⟩

/-- Actions change nothing else of the data tokens. -/
theorem exists_of_mem_attach {actions : List (Strand × Nat)} {seen : List Int} {ds : List DataToken}
    {d : DataToken} (h : d ∈ attach actions seen ds) :
    ∃ e ∈ ds, d = { e with action := d.action } := by
  induction ds generalizing seen with
  | nil => cases h
  | cons e ds ih =>
    rcases List.mem_cons.mp h with rfl | h
    · exact ⟨e, List.mem_cons_self, rfl⟩
    · obtain ⟨e', he', heq⟩ := ih h
      exact ⟨e', List.mem_cons_of_mem _ he', heq⟩

/-- **The lists that tokens name are those of the rows where strands begin or refer to.** -/
theorem tokens_lists {i : Nat} {ss : List Strand} {ts : List Token}
    (h : tokens i primes ss = .ok ts) : ∀ t ∈ ts, ∀ n ∈ t.lists,
      ∃ p, (∃ s ∈ ss, s.pos = p ∨ s.meaning = .ref p) ∧ Primes.number primes p.y.toNat = .ok n := by
  obtain ⟨ds₀, hds₀, h⟩ := Outcome.bind_eq_ok.mp h
  obtain ⟨q, hq, h⟩ := Outcome.bind_eq_ok.mp h
  obtain ⟨ds₁, hds₁, h⟩ := Outcome.bind_eq_ok.mp h
  have hbare : ds₁.map (·.bare) = ds₀ := (withRefs_bare hds₁).trans (placeData_bare hds₀)
  have hstrand : ∀ d ∈ ds₀, d.strand ∈ ss := fun d hd => by
    have hmem : d.strand ∈ ds₀.map (·.strand) := List.mem_map_of_mem hd
    rw [placeData_strand hds₀] at hmem
    exact List.mem_of_mem_filter ((byColumn_perm .data ss).subset hmem)
  have hdata : ∀ t ∈ (attach (ranks 0 0 (byColumn .action ss)) [] ds₁).map Token.data,
      ∀ n ∈ t.lists,
      ∃ p, (∃ s ∈ ss, s.pos = p ∨ s.meaning = .ref p) ∧
        Primes.number primes p.y.toNat = .ok n := by
    refine List.forall_mem_map.mpr fun d hd n hn => ?_
    obtain ⟨e, he, hde⟩ := exists_of_mem_attach hd
    have hbase : e.bare ∈ ds₀ := hbare ▸ List.mem_map_of_mem he
    have hmem : e.strand ∈ ss := hstrand e.bare hbase
    rw [hde] at hn
    rcases List.mem_cons.mp hn with rfl | hn
    · obtain ⟨pre, post, hsplit⟩ := List.append_of_mem hbase
      rw [hsplit] at hds₀
      exact ⟨e.strand.pos, ⟨e.strand, hmem, Or.inl rfl⟩, (placeData_append hds₀).1⟩
    · obtain ⟨r, hr, rfl⟩ := List.mem_map.mp hn
      have hnone : ∀ d ∈ ds₀, d.ref = none := by
        rw [← placeData_bare hds₀]
        exact List.forall_mem_map.mpr fun _ _ => rfl
      obtain ⟨p, hp, hlist⟩ := withRefs_ref hds₁ hnone he (Option.mem_toList.mp hr)
      exact ⟨p, ⟨e.strand, hmem, Or.inr hp⟩, hlist⟩
  obtain ⟨-, rfl⟩ | ⟨s, -, rfl⟩ | ⟨t, -, rfl, -⟩ := question?_eq_ok hq
  · cases h
    exact hdata
  · cases h
  · cases h
    intro t' ht' n hn
    rcases List.mem_append.mp ht' with ht' | ht'
    · exact hdata t' ht' n hn
    · obtain rfl := List.mem_singleton.mp ht'
      obtain ⟨s, hs, hlist⟩ := question?_lists hq n hn
      have hmem := List.mem_of_mem_filter ((questions_perm ss).subset hs)
      exact ⟨s.pos, ⟨s, hmem, Or.inl rfl⟩, hlist⟩

end Arrangement

/-! ## Programs -/

theorem Program.numbers_initialStore {gs : List Glyph} {primes : List Nat} (hne : gs ≠ [])
    (h : Primes.ofGrids (gs.map (·.rows)) = .ok primes) :
    (initialStore gs).numbers = (primes.take (most Glyph.listSize gs)).map Int.ofNat := by
  rw [initialStore_eq, Store.numbers_ofRows, table_most hne h]

theorem Program.most_le_length {gs : List Glyph} {primes : List Nat} (hne : gs ≠ [])
    (h : Primes.ofGrids (gs.map (·.rows)) = .ok primes) :
    most Glyph.listSize gs ≤ primes.length := by
  obtain ⟨n, hn, rfl⟩ := Primes.ofGrids_eq_ok h
  have hside : ∀ g ∈ gs, 1 ≤ g.listSize ∧ g.listSize ≤ n := fun g hg =>
    Primes.longestSide_bounds hn (List.mem_map_of_mem hg)
  obtain ⟨g, hg⟩ := List.exists_mem_of_ne_nil gs hne
  rw [Primes.length_table ((hside g hg).1.trans (hside g hg).2)]
  exact most_le _ fun g hg => (hside g hg).2

/-- The number of a row is one of the first numbers of the table. -/
theorem Primes.mem_take_of_number {primes : List Nat} {y m : Nat} {n : Int}
    (h : Primes.number primes y = .ok n) (hy : y < m) : n ∈ (primes.take m).map Int.ofNat := by
  obtain ⟨p, hp, rfl⟩ := Arranged.getElem?_of_number h
  refine List.mem_map_of_mem (List.mem_of_getElem? (i := y) ?_)
  rw [List.getElem?_take_of_lt hy, hp]

/-- **Tables are complete, and number the lists of a program.** A table for some glyphs has as many
numbers as their largest number of rows or length of a first row, `1` and the smallest primes. The
lists that a program starts from have the first numbers of its table, as many as its tallest glyph
has rows, and all lists that its tokens name are among them. -/
theorem lists_numbered :
    (∀ (grids : List Grid) (n : ℕ), (∀ g ∈ grids, g ≠ []) →
      IsGreatest {k | ∃ g ∈ grids, k = g.length ∨ k = (g.headD []).length} n →
      ∃ primes, Primes.ofGrids grids = .ok primes ∧ primes.length = n ∧
        primes = 1 :: (List.range (n - 1)).map (Nat.nth Nat.Prime)) ∧
    ∀ (limit : ℕ) (text : String) (gs : List Glyph), Program.parseWithin limit text = .ok gs →
      ∃ primes rows, Primes.ofGrids (gs.map (·.rows)) = .ok primes ∧
        IsGreatest {k | ∃ g ∈ gs, k = g.rows.length} rows ∧ rows ≤ primes.length ∧
        (Program.initialStore gs).numbers = (primes.take rows).map Int.ofNat ∧
        ∀ g ∈ gs, ∀ t ∈ g.tokens, ∀ n ∈ t.lists, n ∈ (Program.initialStore gs).numbers := by
  constructor
  · intro grids n hne hn
    obtain ⟨hpos, htable⟩ := Primes.ofGrids_eq hne hn
    refine ⟨_, htable, ?_, rfl⟩
    rw [List.length_cons, List.length_map, List.length_range]
    omega
  · intro limit text gs h
    obtain ⟨-, -, primes, -, -, -, hprimes, htokens⟩ := Program.parseGrid_eq_ok h
    obtain ⟨hgs, -⟩ := Program.one_le_level_of_parse h
    have hnumbers := Program.numbers_initialStore hgs hprimes
    refine ⟨primes, Program.most Glyph.listSize gs, hprimes, ⟨?_, ?_⟩, ?_, hnumbers, ?_⟩
    · obtain ⟨g, hg, hmost⟩ := Program.exists_most Glyph.listSize hgs
      exact ⟨g, hg, hmost.symm⟩
    · rintro k ⟨g, hg, rfl⟩
      exact Program.le_most Glyph.listSize hg
    · exact Program.most_le_length hgs hprimes
    · intro g hg t ht n hn
      obtain ⟨i, ss, hss, hts⟩ := htokens g hg
      obtain ⟨p, ⟨s, hs, hp⟩, hlist⟩ := Arrangement.tokens_lists hts t ht n hn
      have hrow : 0 ≤ p.y ∧ p.y < g.rows.length := by
        obtain rfl | hp := hp
        · exact (Grid.strands_pos hss hs).2
        · exact Grid.strands_ref hss hs hp
      have hmost : g.rows.length ≤ Program.most Glyph.listSize gs :=
        Program.le_most Glyph.listSize hg
      rw [hnumbers]
      exact Primes.mem_take_of_number hlist (by omega)

/-- A glyph wider than tall, with a reference, a number and a question. -/
def numberedDrawing : String := "╵╰─╶ ╷\n ╰─  │\n     ╷\n     │  ╷"

/-- A wide grid beside a tall one, which have the table `1`, `2`, `3`, `5`, and a program of four
rows whose tokens name lists in all ways. -/
theorem lists_numbered_drawing :
    (Primes.ofGrids [[[' ', ' ', ' ', ' ']], [[], []]] = .ok [1, 2, 3, 5] ∧
      [1, 2, 3, 5] = 1 :: (List.range (4 - 1)).map (Nat.nth Nat.Prime)) ∧
    ∃ gs, Program.parseWithin nestingLimit numberedDrawing = .ok gs ∧
      gs.map (fun g => g.tokens.map Token.lists) = [[[1, 1], [2], [1, 3]]] ∧
      (Program.initialStore gs).numbers = [1, 2, 3, 5] ∧
      ∀ g ∈ gs, ∀ t ∈ g.tokens, ∀ n ∈ t.lists, n ∈ [1, 2, 3, 5] := by
  constructor
  · have htable : Primes.ofGrids [[[' ', ' ', ' ', ' ']], [[], []]] = .ok [1, 2, 3, 5] := by cbv
    have hgreatest : IsGreatest {k | ∃ g ∈ ([[[' ', ' ', ' ', ' ']], [[], []]] : List Grid),
        k = g.length ∨ k = (g.headD []).length} 4 := by
      refine ⟨⟨_, List.mem_cons_self, Or.inr rfl⟩, ?_⟩
      rintro k ⟨g, hg, hk⟩
      fin_cases hg <;> simp at hk <;> omega
    obtain ⟨primes, hprimes, -, heq⟩ := lists_numbered.1 _ 4 (by decide) hgreatest
    obtain rfl : primes = [1, 2, 3, 5] := Except.ok.inj (hprimes.symm.trans htable)
    exact ⟨htable, heq⟩
  · have key : (do
        let gs ← Program.parseWithin nestingLimit numberedDrawing
        let primes ← Primes.ofGrids (gs.map (·.rows))
        Except.ok (gs.map (fun g => g.tokens.map Token.lists), gs.map (·.rows.length),
          primes.take 4)) =
        Except.ok ([[[1, 1], [2], [1, 3]]], [4], [1, 2, 3, 5]) := by cbv
    obtain ⟨gs, hgs, key⟩ := Outcome.bind_eq_ok.mp key
    obtain ⟨primes, hprimes, key⟩ := Outcome.bind_eq_ok.mp key
    simp only [Except.ok.injEq, Prod.mk.injEq] at key
    obtain ⟨hlists, hrows, htake⟩ := key
    obtain ⟨primes', rows, hprimes', ⟨⟨g, hg, rfl⟩, -⟩, -, hnumbers, hmem⟩ :=
      lists_numbered.2 nestingLimit numberedDrawing gs hgs
    obtain rfl : primes' = primes := Except.ok.inj (hprimes'.symm.trans hprimes)
    have hfour : g.rows.length = 4 := by
      have : g.rows.length ∈ gs.map (·.rows.length) := List.mem_map_of_mem hg
      rwa [hrows, List.mem_singleton] at this
    have hstart : (Program.initialStore gs).numbers = [1, 2, 3, 5] := by
      rw [hnumbers, hfour, htake]
      rfl
    exact ⟨gs, hgs, hlists, hstart, hstart ▸ hmem⟩

end StrandScript
