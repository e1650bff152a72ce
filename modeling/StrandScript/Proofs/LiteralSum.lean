import StrandScript.Proofs.Arrangement
import StrandScript.Proofs.LiteralStep
import StrandScript.Proofs.Pairing
import StrandScript.Proofs.ProgramTree
import StrandScript.Proofs.RowStore
import StrandScript.Proofs.StraightRun

/-!
# Programs of literals

A program whose tokens are all whole numbers without actions adds them up: cell `i` of the list of
row `y` ends with the sum, over all glyphs, of the numbers that stand `i`-th from the left on that
row.

* `Strand.numbersOn`: the numbers on a row, from the strands of a glyph.
* `Laid.foldlM_perform`: the tokens of a glyph performed one after the other.
* `literals_add_up`: the whole program.
-/

namespace StrandScript

/-! ## Literals -/

/-- The number that a strand says; zero if it says something else. -/
def Strand.number (s : Strand) : Int :=
  match s.meaning with
  | .value (some n) => n
  | _ => 0

/-- Whether a data token says a whole number that no action belongs to. -/
def DataToken.isLiteral (d : DataToken) : Bool :=
  d.action.isNone && d.strand.meaning == .value (some d.strand.number)

/-- Whether a token says a whole number that no action belongs to. -/
def Token.isLiteral : Token → Bool
  | .data d => d.isLiteral
  | .question _ => false

namespace Strand

/-- The data strands that begin on row `y`, from the left. -/
def onRow (y : Nat) (ss : List Strand) : List Strand :=
  (ss.filter fun s => s.pos.y == (y : Int) && s.hook.kind == .data).mergeSort
    fun a b => a.pos.x ≤ b.pos.x

/-- The numbers of the data strands on row `y`, from the left. -/
def numbersOn (y : Nat) (ss : List Strand) : List Int := (onRow y ss).map number

end Strand

namespace Program

/-- The number of cells in the list of row `y`, from the strands drawn in each glyph. -/
def cellCount (drawn : List (List Strand)) (y : Nat) : Nat :=
  most (fun ss => (Strand.onRow y ss).length) drawn

/-- The sum in cell `i` of the list of row `y`, from the strands drawn in each glyph. -/
def cellSum (drawn : List (List Strand)) (y i : Nat) : Int :=
  (drawn.map fun ss => (Strand.numbersOn y ss).getD i 0).sum

end Program

/-! ## One glyph -/

/-- The numbers of the tokens on row `y`, in the order of the tokens. -/
def rowNumbers (ds : List DataToken) (y : Nat) : List Int :=
  (ds.filter fun d => d.strand.pos.y == (y : Int)).map (·.strand.number)

/-- Literals laid out over the lists `ps`: each has the list of its row, and the cell after those of
the tokens before it on that row. -/
structure Laid (ps : List Nat) (ds : List DataToken) : Prop where
  literal : ∀ d ∈ ds, d.isLiteral = true
  list : ∀ d ∈ ds, ∃ y p : Nat, d.strand.pos.y = y ∧ ps[y]? = some p ∧ d.list = p
  cell : ∀ pre d post, ds = pre ++ d :: post →
    d.cell = pre.countP fun e => e.strand.pos.y == d.strand.pos.y

theorem rowNumbers_append_self {pre : List DataToken} {d : DataToken} {y : Nat}
    (h : d.strand.pos.y = y) :
    rowNumbers (pre ++ [d]) y = rowNumbers pre y ++ [d.strand.number] := by
  simp [rowNumbers, h]

theorem rowNumbers_append_of_ne {pre : List DataToken} {d : DataToken} {y z : Nat}
    (h : d.strand.pos.y = y) (hz : z ≠ y) : rowNumbers (pre ++ [d]) z = rowNumbers pre z := by
  have hne : ¬ (y : Int) = z := fun he => hz (Int.ofNat.inj he).symm
  simp [rowNumbers, h, hne]

/-- The tokens of a glyph, of which those in `pre` have been performed, add the numbers on every
row. -/
theorem Laid.foldlM_perform {ps : List Nat} {rows : Nat → List Int} (hps : ps.Nodup)
    (pre post : List DataToken) (h : Laid ps (pre ++ post)) (a : Answer) :
    (post.map DataToken.step).foldlM Step.perform a
        (Store.ofRows ps fun y => addCells (rows y) (rowNumbers pre y)) =
      .ok a (Store.ofRows ps fun y => addCells (rows y) (rowNumbers (pre ++ post) y)) := by
  induction post generalizing pre with
  | nil =>
    rw [List.append_nil]
    rfl
  | cons d post ih =>
    have hd : d ∈ pre ++ d :: post := by simp
    obtain ⟨y, p, hy, hp, hlist⟩ := h.list d hd
    obtain ⟨haction, hmeaning⟩ := Bool.and_eq_true_iff.mp (h.literal d hd)
    have hcell : d.cell = (rowNumbers pre y).length := by
      rw [h.cell pre d post rfl, rowNumbers, List.length_map, List.countP_eq_length_filter, hy]
    have hget : (Store.ofRows ps fun y => addCells (rows y) (rowNumbers pre y)).get? d.list =
        some ((addCells (rows y) (rowNumbers pre y)).map .int) := by
      rw [hlist]
      exact Store.get?_ofRows hps hp
    have hrows : Function.update (fun y => addCells (rows y) (rowNumbers pre y)) y
          (addCells (rows y) (rowNumbers pre y ++ [d.strand.number])) =
        fun y => addCells (rows y) (rowNumbers (pre ++ [d]) y) := by
      funext z
      by_cases hz : z = y
      · subst hz
        rw [Function.update_self, rowNumbers_append_self hy]
      · rw [Function.update_of_ne hz, rowNumbers_append_of_ne hy hz]
    rw [List.map_cons, List.foldlM_cons, Machine.bind_ok (perform_literal a (eq_of_beq hmeaning)
      (Option.isNone_iff_eq_none.mp haction) hget (by rw [hcell, length_addCells]; omega)),
      hcell, addAt_addCells, hlist, Store.put_ofRows hps hp, hrows, List.append_cons pre d post]
    rw [List.append_cons] at h
    exact ih _ h

/-- Data tokens in their column order give the numbers on a row from the left. -/
theorem numbersOn_eq {ss : List Strand} {ds : List DataToken}
    (hdata : (ds.map (·.strand)).Perm (ss.filter fun s => s.hook.kind == .data))
    (hcols : ds.Pairwise fun a b => a.strand.pos.ColumnBefore b.strand.pos) (y : Nat) :
    Strand.numbersOn y ss = rowNumbers ds y := by
  have hlt : ((ds.map (·.strand)).filter fun s => s.pos.y == (y : Int)).Pairwise
      fun a b => a.pos.x < b.pos.x := by
    rw [List.pairwise_filter, List.pairwise_map]
    refine hcols.imp fun {a b} hab ha hb => ?_
    have ha := eq_of_beq ha
    have hb := eq_of_beq hb
    unfold Pos.ColumnBefore at hab
    omega
  have hperm : (Strand.onRow y ss).Perm
      ((ds.map (·.strand)).filter fun s => s.pos.y == (y : Int)) := by
    refine (List.mergeSort_perm _ _).trans ?_
    rw [← List.filter_filter]
    exact (hdata.filter _).symm
  have hinj := List.inj_on_of_nodup_map (List.pairwise_map.mpr (hlt.imp Int.ne_of_lt))
  have hle : (Strand.onRow y ss).Pairwise fun a b => decide (a.pos.x ≤ b.pos.x) = true := by
    refine List.pairwise_mergeSort (fun a b c => ?_) (fun a b => ?_) _
    · simpa using Int.le_trans
    · simpa using Int.le_total a.pos.x b.pos.x
  have heq : Strand.onRow y ss = (ds.map (·.strand)).filter fun s => s.pos.y == (y : Int) := by
    refine hperm.eq_of_pairwise (fun a b ha hb hab hba => ?_) hle
      (hlt.imp fun h => decide_eq_true (Int.le_of_lt h))
    exact hinj (hperm.subset ha) hb
      (Int.le_antisymm (of_decide_eq_true hab) (of_decide_eq_true hba))
  rw [Strand.numbersOn, heq, List.filter_map, List.map_map]
  rfl

/-- A glyph of literals with strands `ss`, laid out over the lists `ps`. -/
def Glyph.LaidOut (ps : List Nat) (ss : List Strand) (g : Glyph) : Prop :=
  ∃ ds, g.tokens = ds.map .data ∧ Laid ps ds ∧
    (ds.map (·.strand)).Perm (ss.filter fun s => s.hook.kind == .data) ∧
    ds.Pairwise fun a b => a.strand.pos.ColumnBefore b.strand.pos

/-- **A glyph of literals adds its numbers**, row by row. -/
theorem Glyph.LaidOut.performAll {ps : List Nat} (hps : ps.Nodup) {ss : List Strand} {g : Glyph}
    (h : g.LaidOut ps ss) (rows : Nat → List Int) :
    Step.performAll (g.tokens.map Token.step) (Store.ofRows ps rows) =
      .ok .proceed (Store.ofRows ps fun y => addCells (rows y) (Strand.numbersOn y ss)) := by
  obtain ⟨ds, hts, hlaid, hdata, hcols⟩ := h
  have hsteps : g.tokens.map Token.step = ds.map DataToken.step := by
    rw [hts, List.map_map]
    rfl
  have hrows : (fun y => addCells (rows y) (Strand.numbersOn y ss)) =
      fun y => addCells (rows y) (rowNumbers ([] ++ ds) y) := by
    funext y
    rw [numbersOn_eq hdata hcols, List.nil_append]
  have hstart : Store.ofRows ps rows =
      Store.ofRows ps fun y => addCells (rows y) (rowNumbers [] y) := by
    simp [rowNumbers]
  rw [hsteps, hrows, hstart]
  exact Laid.foldlM_perform hps [] ds hlaid .proceed

/-! ## All glyphs -/

namespace Program

/-- The cells of row `y` with the numbers of some glyphs added, given by their strands. -/
def addDrawn (drawn : List (List Strand)) (y : Nat) (us : List Int) : List Int :=
  drawn.foldl (fun us ss => addCells us (Strand.numbersOn y ss)) us

theorem length_addDrawn (drawn : List (List Strand)) (y : Nat) (us : List Int) :
    (addDrawn drawn y us).length =
      (drawn.map fun ss => (Strand.onRow y ss).length).foldl max us.length := by
  induction drawn generalizing us with
  | nil => rfl
  | cons ss drawn ih =>
    have hlen : (Strand.numbersOn y ss).length = (Strand.onRow y ss).length := List.length_map _
    rw [addDrawn, List.foldl_cons, List.map_cons, List.foldl_cons, ← hlen, ← length_addCells]
    exact ih _

theorem getD_addDrawn (drawn : List (List Strand)) (y : Nat) (us : List Int) (i : Nat) :
    (addDrawn drawn y us).getD i 0 = us.getD i 0 + cellSum drawn y i := by
  induction drawn generalizing us with
  | nil => simp [addDrawn, cellSum]
  | cons ss drawn ih =>
    have := ih (addCells us (Strand.numbersOn y ss))
    rw [getD_addCells] at this
    rw [addDrawn, List.foldl_cons, cellSum, List.map_cons, List.sum_cons, ← Int.add_assoc]
    exact this

/-- Added to nothing, the numbers of the glyphs make up the cells of row `y`. -/
theorem addDrawn_nil (drawn : List (List Strand)) (y : Nat) :
    addDrawn drawn y [] = (List.range (cellCount drawn y)).map (cellSum drawn y) := by
  refine List.ext_getElem ?_ fun i h₁ _ => ?_
  · rw [length_addDrawn, List.length_map, List.length_range]
    rfl
  · rw [← List.getD_eq_getElem _ 0 h₁, getD_addDrawn, List.getElem_map, List.getElem_range]
    simp

variable {ps : List Nat} {drawn : Glyph → List Strand}

theorem proceeds_of_laidOut (hps : ps.Nodup) {ss : List Strand} {l : Item.Linked Numbered}
    (h : l.glyph.glyph.LaidOut ps ss) :
    Run.Proceeds steps (fun s => ∃ rows, s = Store.ofRows ps rows) l := by
  rintro s ⟨rows, rfl⟩
  exact ⟨_, h.performAll hps rows, _, rfl⟩

/-- Glyphs of literals, executed one after the other, add all their numbers. -/
theorem replay_laidOut (hps : ps.Nodup) {ls : List (Item.Linked Numbered)}
    (h : ∀ l ∈ ls, l.glyph.glyph.LaidOut ps (drawn l.glyph.glyph)) (rows : Nat → List Int) :
    Run.replay steps ls (Store.ofRows ps rows) =
      Store.ofRows ps fun y => addDrawn ((ls.map (·.glyph.glyph)).map drawn) y (rows y) := by
  induction ls generalizing rows with
  | nil => rfl
  | cons l ls ih =>
    rw [List.forall_mem_cons] at h
    have heffect : Run.effect steps l (Store.ofRows ps rows) =
        Store.ofRows ps fun y =>
          addCells (rows y) (Strand.numbersOn y (drawn l.glyph.glyph)) := by
      unfold Run.effect steps
      rw [h.1.performAll hps]
    rw [Run.replay_cons, heffect, ih h.2]
    rfl

/-! ## Whole programs -/

theorem initialStore_eq (gs : List Glyph) :
    initialStore gs = Store.ofRows (Primes.table (most Glyph.listSize gs)) fun _ => [] := by
  have hfst := List.zipIdx_map_fst 0 (Primes.table (most Glyph.listSize gs))
  unfold initialStore Store.initial Store.ofRows
  change Store.mk ((Primes.table (most Glyph.listSize gs)).map fun p : Nat => ((p : Int), [])) = _
  conv_lhs => rw [← hfst, List.map_map]
  rfl

/-- **Glyphs of literals add up**, unless they are nested too deep or a sum on the way is too
long. -/
theorem runGlyphs_laidOut (depth : Nat) {gs : List Glyph} (hne : gs ≠ [])
    (hlevel : ∀ g ∈ gs, 1 ≤ g.level)
    (hlaid : ∀ g ∈ gs, g.LaidOut (Primes.table (most Glyph.listSize gs)) (drawn g)) :
    ((runGlyphs depth gs).fault = none ∧ (runGlyphs depth gs).store =
        Store.ofRows (Primes.table (most Glyph.listSize gs)) fun y =>
          (List.range (cellCount (gs.map drawn) y)).map (cellSum (gs.map drawn) y)) ∨
      ((runGlyphs depth gs).fault = some .tooDeep ∧
        depth < gs.length + most (·.level.toNat) gs) ∨
      ((runGlyphs depth gs).fault = some .badValue ∧
        ∃ pre, pre <+: gs.map drawn ∧ ∃ y i, Value.tooLong ≤ (cellSum pre y i).natAbs) := by
  have hps := Primes.table_nodup (most Glyph.listSize gs)
  unfold runGlyphs
  obtain ⟨items, htree, hflat, hnest⟩ | ⟨htree, hlt⟩ := tree_cases depth hne hlevel
  · rw [htree, initialStore_eq]
    have hitems : ∀ l ∈ Item.flatten items, l.glyph.glyph.LaidOut
        (Primes.table (most Glyph.listSize gs)) (drawn l.glyph.glyph) := fun l hl =>
      hlaid _ (hflat ▸ List.mem_map_of_mem hl)
    obtain ⟨hfault, hexec⟩ | ⟨f, hfault, ⟨rfl, hlt⟩ | ⟨pre, hpre, hsave⟩⟩ :=
      Run.block_straight depth items _ (fun l hl => proceeds_of_laidOut hps (hitems l hl)) ⟨_, rfl⟩
    · refine Or.inl ⟨hfault, ?_⟩
      simp only [Run.store_eq_replay, hexec, replay_laidOut hps hitems, hflat, addDrawn_nil]
    · exact Or.inr (Or.inl ⟨hfault, by omega⟩)
    · rw [replay_laidOut hps fun l hl => hitems l (hpre.subset hl)] at hsave
      obtain ⟨rfl, y, n, hn, hlong⟩ := Store.saveable_ofRows_error hsave
      rw [addDrawn_nil, List.mem_map] at hn
      obtain ⟨i, -, rfl⟩ := hn
      exact Or.inr (Or.inr ⟨hfault, _, hflat ▸ (hpre.map _).map drawn, y, i, hlong⟩)
  · rw [htree]
    exact Or.inr (Or.inl ⟨rfl, hlt⟩)

/-- A program that is read has glyphs, and their levels count from one. -/
theorem one_le_level_of_parse {limit : Nat} {g : Grid} {gs : List Glyph}
    (h : parseGrid limit g = .ok gs) : gs ≠ [] ∧ ∀ x ∈ gs, 1 ≤ x.level := by
  obtain ⟨g', locs, -, -, hlocate, hpanels, -, -⟩ := parseGrid_eq_ok h
  obtain ⟨hlocs, hne⟩ := locate_eq_ok hlocate
  constructor
  · rintro rfl
    exact hne (List.map_eq_nil_iff.mp hpanels.symm)
  · intro x hx
    have hmem : x.toPanel ∈ locs.map (·.cut g') := hpanels ▸ List.mem_map_of_mem hx
    obtain ⟨l, hl, hcut⟩ := List.mem_map.mp hmem
    have hlevel : x.level = l.level := by rw [← hcut]; rfl
    rw [hlevel]
    exact Grid.one_le_level_of_locations hlocs hl

/-- The lists that a program starts from are numbered by the first primes of its table. -/
theorem table_most {gs : List Glyph} {primes : List Nat} (hne : gs ≠ [])
    (h : Primes.ofGrids (gs.map (·.rows)) = .ok primes) :
    Primes.table (most Glyph.listSize gs) = primes.take (most Glyph.listSize gs) := by
  obtain ⟨n, hn, rfl⟩ := Primes.ofGrids_eq_ok h
  have hside : ∀ g ∈ gs, 1 ≤ g.listSize ∧ g.listSize ≤ n := fun g hg =>
    Primes.longestSide_bounds hn (List.mem_map_of_mem hg)
  obtain ⟨g, hg⟩ := List.exists_mem_of_ne_nil gs hne
  have hone : 1 ≤ most Glyph.listSize gs := (hside g hg).1.trans (le_most _ hg)
  exact (Primes.take_table hone (most_le _ fun g hg => (hside g hg).2)).symm

/-- A glyph of literals that is read is laid out over the lists its program starts from. -/
theorem laidOut_of_tokens {limit i : Nat} {gs : List Glyph} {primes : List Nat} {g : Glyph}
    {ss : List Strand} (hprimes : Primes.ofGrids (gs.map (·.rows)) = .ok primes) (hg : g ∈ gs)
    (hss : g.rows.strands limit primes = .ok ss)
    (ht : Arrangement.tokens i primes ss = .ok g.tokens)
    (hlit : ∀ t ∈ g.tokens, t.isLiteral = true) :
    g.LaidOut (primes.take (most Glyph.listSize gs)) ss := by
  obtain ⟨ds, q, hts, harr⟩ := Arranged.of_strands hprimes hss ht
  obtain rfl : q = none := by
    cases q with
    | none => rfl
    | some t =>
      have := hlit (.question t) (by simp [hts])
      cases this
  rw [Option.toList_none, List.map_nil, List.append_nil] at hts
  refine ⟨ds, hts, ⟨?_, ?_, ?_⟩, harr.data, harr.columns⟩
  · intro d hd
    exact hlit (.data d) (hts ▸ List.mem_map_of_mem hd)
  · intro d hd
    have hstrand : d.strand ∈ ss :=
      List.mem_of_mem_filter (harr.data.subset (List.mem_map_of_mem hd))
    obtain ⟨-, h0, hlt⟩ := Grid.strands_pos hss hstrand
    obtain ⟨p, hp, hlist⟩ := Option.map_eq_some_iff.mp (harr.list d hd)
    have hmost : g.rows.length ≤ most Glyph.listSize gs := le_most Glyph.listSize hg
    have hy : d.strand.pos.y = d.strand.hook.pos.y := rfl
    refine ⟨d.strand.pos.y.toNat, p, by omega, ?_, hlist.symm⟩
    rw [List.getElem?_take_of_lt (by omega), hp]
  · rintro pre d post rfl
    exact harr.cell_eq_before

end Program

/-- **Programs of literals add up.** When all tokens of a program are whole numbers without actions,
its run leaves, for the strands drawn in its glyphs, as many cells in the list of row `y` as any
glyph has data strands that begin on this row, and in cell `i` the sum of the numbers that stand
`i`-th from the left there, whatever the levels and the order of the glyphs; unless the program is
nested too deep or a sum on the way is too long to be saved. -/
theorem literals_add_up (limit depth : Nat) (text : String) (gs : List Glyph)
    (h : Program.parseWithin limit text = .ok gs)
    (hlit : ∀ g ∈ gs, ∀ t ∈ g.tokens, t.isLiteral = true) :
    ∃ primes drawn, Primes.ofGrids (gs.map (·.rows)) = .ok primes ∧
      gs.mapM (fun g => g.rows.strands limit primes) = .ok drawn ∧
      (((Program.runGlyphs depth gs).fault = none ∧
          (Program.runGlyphs depth gs).store.numbers =
            (primes.take (Program.most Glyph.listSize gs)).map Int.ofNat ∧
          ∀ y < Program.most Glyph.listSize gs, ∃ p, primes[y]? = some p ∧
            (Program.runGlyphs depth gs).store.get? p =
              some ((List.range (Program.cellCount drawn y)).map fun i =>
                .int (Program.cellSum drawn y i))) ∨
        ((Program.runGlyphs depth gs).fault = some .tooDeep ∧
          depth < gs.length + Program.most (·.level.toNat) gs) ∨
        ((Program.runGlyphs depth gs).fault = some .badValue ∧
          ∃ pre, pre <+: drawn ∧ ∃ y i, Value.tooLong ≤ (Program.cellSum pre y i).natAbs)) := by
  obtain ⟨-, -, primes, -, -, -, hprimes, htokens⟩ := Program.parseGrid_eq_ok h
  obtain ⟨hne, hlevel⟩ := Program.one_le_level_of_parse h
  have htable := Program.table_most hne hprimes
  let drawn (g : Glyph) : List Strand := (g.rows.strands limit primes).toOption.getD []
  have hdrawn : ∀ g ∈ gs, ∃ i, g.rows.strands limit primes = .ok (drawn g) ∧
      Arrangement.tokens i primes (drawn g) = .ok g.tokens := by
    intro g hg
    obtain ⟨i, ss, hss, ht⟩ := htokens g hg
    have hd : drawn g = ss := by simp only [drawn, hss, Except.toOption, Option.getD_some]
    exact ⟨i, hd ▸ hss, hd ▸ ht⟩
  have hlaid : ∀ g ∈ gs,
      g.LaidOut (Primes.table (Program.most Glyph.listSize gs)) (drawn g) := by
    intro g hg
    obtain ⟨i, hss, ht⟩ := hdrawn g hg
    rw [htable]
    exact Program.laidOut_of_tokens hprimes hg hss ht (hlit g hg)
  have hmapM : gs.mapM (fun g => g.rows.strands limit primes) = .ok (gs.map drawn) := by
    rw [Outcome.mapM_eq_ok, List.forall₂_map_right_iff, List.forall₂_same]
    exact fun g hg => (hdrawn g hg).elim fun _ h => h.1
  refine ⟨primes, gs.map drawn, hprimes, hmapM, ?_⟩
  obtain ⟨hfault, hstore⟩ | hlimit := Program.runGlyphs_laidOut depth hne hlevel hlaid
  · refine Or.inl ⟨hfault, ?_, ?_⟩
    · rw [hstore, Store.numbers_ofRows, htable]
    · intro y hy
      obtain ⟨p, hp⟩ : ∃ p, (Primes.table (Program.most Glyph.listSize gs))[y]? = some p := by
        refine ⟨_, List.getElem?_eq_getElem ?_⟩
        rw [Primes.length_table (by omega)]
        exact hy
      refine ⟨p, ?_, ?_⟩
      · rw [← hp, htable, List.getElem?_take_of_lt hy]
      · rw [hstore, Store.get?_ofRows (Primes.table_nodup _) hp, List.map_map]
        rfl
  · exact Or.inr hlimit

/-- Two glyphs of literals of different levels, with numbers on two rows each. -/
def literalDrawing : String := "╵╵╰──\n  ╰─  ╷\n\n╵╰─ ╰─\n ╰─   ╷"

/-- The first glyph has `2` on each of its rows, the second `1` and `1` on the first row and `2` on
the second: the sums are `3` and `1` in list `1`, and `4` in list `2`. -/
theorem literals_add_up_drawing : ∃ gs, Program.parseWithin nestingLimit literalDrawing = .ok gs ∧
    (∀ g ∈ gs, ∀ t ∈ g.tokens, t.isLiteral = true) ∧
    (Program.runGlyphs nestingLimit gs).fault = none ∧
    (Program.runGlyphs nestingLimit gs).store.numbers = [1, 2] ∧
    (Program.runGlyphs nestingLimit gs).store.get? 1 = some [.int 3, .int 1] ∧
    (Program.runGlyphs nestingLimit gs).store.get? 2 = some [.int 4] := by
  obtain ⟨gs, items, primes, drawn, hgs, htree, hprimes, hdrawn, hlit, hnone, hmost, htake,
      hcells⟩ : ∃ gs items primes drawn,
      Program.parseWithin nestingLimit literalDrawing = .ok gs ∧
      Program.tree nestingLimit gs = .ok items ∧
      Primes.ofGrids (gs.map (·.rows)) = .ok primes ∧
      gs.mapM (fun g => g.rows.strands nestingLimit primes) = .ok drawn ∧
      (∀ g ∈ gs, ∀ t ∈ g.tokens, t.isLiteral = true) ∧
      (Run.block Program.steps nestingLimit items (Program.initialStore gs)).fault = none ∧
      Program.most Glyph.listSize gs = 2 ∧ primes.take 2 = [1, 2] ∧
      [0, 1].map (fun y =>
        (List.range (Program.cellCount drawn y)).map (Program.cellSum drawn y)) =
          [[3, 1], [4]] := by
    refine ⟨?gs, ?items, ?primes, ?drawn, ?parse, ?tree, ?table, ?strands, ?literal, ?fault,
      ?most, ?take, ?cells⟩
    case parse => conv_lhs => cbv
    case tree => conv_lhs => cbv
    case table => conv_lhs => cbv
    case strands => conv_lhs => cbv
    case literal => decide +kernel
    case fault => decide +kernel
    case most => decide +kernel
    case take => decide +kernel
    case cells => cbv
  rw [← Program.runGlyphs_of_tree htree] at hnone
  refine ⟨gs, hgs, hlit, hnone, ?_⟩
  obtain ⟨primes', drawn', hprimes', hdrawn', hcase⟩ :=
    literals_add_up nestingLimit nestingLimit literalDrawing gs hgs hlit
  obtain rfl : primes' = primes := Except.ok.inj (hprimes'.symm.trans hprimes)
  obtain rfl : drawn' = drawn := Except.ok.inj (hdrawn'.symm.trans hdrawn)
  rw [hnone, hmost] at hcase
  obtain ⟨-, hnumbers, hget⟩ | ⟨hfault, -⟩ | ⟨hfault, -⟩ := hcase
  · simp only [List.map_cons, List.map_nil, List.cons.injEq, and_true] at hcells
    have hrow {y p : Nat} {cells : List Int} (hy : y < 2) (hp : (primes'.take 2)[y]? = some p)
        (hcells : (List.range (Program.cellCount drawn' y)).map (Program.cellSum drawn' y) =
          cells) :
        (Program.runGlyphs nestingLimit gs).store.get? p = some (cells.map .int) := by
      obtain ⟨p', hp', hstore⟩ := hget y hy
      rw [List.getElem?_take_of_lt hy, hp'] at hp
      obtain rfl := Option.some.inj hp
      rw [hstore, ← hcells, List.map_map]
      rfl
    rw [htake] at hnumbers
    refine ⟨hnumbers, hrow Nat.zero_lt_two ?_ hcells.1, hrow Nat.one_lt_two ?_ hcells.2⟩
    all_goals rw [htake]; rfl
  · cases hfault
  · cases hfault

end StrandScript
