import StrandScript.Proofs.Cutting
import StrandScript.Proofs.Numbering
import StrandScript.Proofs.TableReach

/-!
# Blanks at the ends of lines

Blanks at the end of a line are read in two places. A sign at the end of a line opens no glyph, but
does with a blank after it. And the table of primes is as long as the longest first row, where only
the last row of a glyph is sure to reach over its whole width. Elsewhere the rows are filled up
anyway. So a text says the same with blanks added (`trailing_blanks_iff`), exactly if they open
nothing and the table was long enough without them.

* `Grid.Lengthened`: a grid with blanks added at the ends of its rows.
* `Grid.Lengthened.locations_eq`: the glyphs lie where they lay, if nothing new opens.
* `Location.Inside.cut_lengthened`: they are cut out with blanks added, and as wide as before.
* `Program.assemble_filled`: their strands and tokens stay, if the table has their columns.
-/

namespace StrandScript

/-! ## Rows and grids lengthened -/

namespace Grid

/-- The row `r'` is the row `r` with blanks added at its end. -/
def RowLengthened (r r' : Row) : Prop := ∃ k, r' = r ++ List.replicate k ' '

/-- The grid `g'` is the grid `g` with blanks added at the ends of its rows. -/
def Lengthened (g g' : Grid) : Prop := List.Forall₂ RowLengthened g g'

theorem RowLengthened.refl (r : Row) : RowLengthened r r := ⟨0, by simp⟩

theorem RowLengthened.length_le {r r' : Row} (h : RowLengthened r r') : r.length ≤ r'.length := by
  obtain ⟨k, rfl⟩ := h
  simp

variable {g g' : Grid}

theorem Lengthened.row (h : g.Lengthened g') {y : Nat} {r : Row} (hr : g[y]? = some r) :
    ∃ r', g'[y]? = some r' ∧ RowLengthened r r' := by
  induction h generalizing y with
  | nil => cases hr
  | cons hrow hrest ih =>
    cases y with
    | zero =>
      cases hr
      exact ⟨_, rfl, hrow⟩
    | succ y => exact ih hr

theorem Lengthened.char_eq (h : g.Lengthened g') : g'.char = g.char := by
  funext x y
  unfold char
  cases hr : g[y]? with
  | none =>
    rw [List.getElem?_eq_none_iff, h.length_eq, ← List.getElem?_eq_none_iff] at hr
    rw [hr]
  | some r =>
    obtain ⟨r', hr', k, rfl⟩ := h.row hr
    rw [hr', Option.bind_some, Option.bind_some, List.getElem?_append]
    split
    · rfl
    · rename_i hx
      rw [List.getElem?_eq_none (Nat.le_of_not_lt hx), List.getElem?_replicate]
      split <;> rfl

theorem Lengthened.followed (h : g.Lengthened g') {p : Pos} (hp : g.Followed p) :
    g'.Followed p := by
  obtain ⟨x, y, r, rfl, hr, hx⟩ := hp
  obtain ⟨r', hr', hlong⟩ := h.row hr
  exact ⟨x, y, r', rfl, hr', hx.trans_le hlong.length_le⟩

theorem Lengthened.closings_eq (h : g.Lengthened g') : g'.closings = g.closings := by
  refine eq_of_readsBefore (fun p => p) closings_readsBefore closings_readsBefore fun p => ?_
  rw [mem_closings, mem_closings, h.char_eq]

/-- The opening signs of a grid are those of a lengthened one that the row went on after before. -/
theorem Lengthened.mem_openings (h : g.Lengthened g') (o : Opening) :
    o ∈ g.openings ↔ o ∈ g'.openings ∧ g.Followed o.pos := by
  rw [mem_openings_iff, mem_openings_iff, h.char_eq]
  exact ⟨fun ho => ⟨⟨ho.1, h.followed ho.2⟩, ho.2⟩, fun ho => ⟨ho.1.1, ho.2⟩⟩

theorem openings_nodup (g : Grid) : g.openings.Nodup :=
  openings_readsBefore.imp fun hab he => hab.ne (congrArg Opening.pos he)

/-- No sign opens a glyph only because of the blanks that were added. -/
def OpensAlike (g g' : Grid) : Prop := ∀ o ∈ g'.openings, g.Followed o.pos

theorem Lengthened.openings_eq (h : g.Lengthened g') (hopen : g.OpensAlike g') :
    g'.openings = g.openings := by
  refine eq_of_readsBefore Opening.pos openings_readsBefore openings_readsBefore fun o => ?_
  rw [h.mem_openings]
  exact ⟨fun ho => ⟨ho, hopen o ho⟩, fun ho => ho.1⟩

theorem length_openings {ls : List Location} (h : g.locations = .ok ls) :
    g.openings.length = g.closings.length := by
  obtain ⟨hos, hes, -⟩ := Location.ofSigns_eq_ok h
  rw [hos.length_eq, hes.length_eq, List.length_map, List.length_map]

/-- If the signs of both grids can be paired, there are as many, and so the same. -/
theorem Lengthened.opensAlike (h : g.Lengthened g') {ls ls' : List Location}
    (hls : g.locations = .ok ls) (hls' : g'.locations = .ok ls') : g.OpensAlike g' := by
  have hlen : g'.openings.length = g.openings.length := by
    rw [length_openings hls, length_openings hls', h.closings_eq]
  have hsub : g.openings ⊆ g'.openings := fun o ho => ((h.mem_openings o).mp ho).1
  have hperm := ((openings_nodup g).subperm hsub).perm_of_length_le hlen.le
  exact fun o ho => ((h.mem_openings o).mp (hperm.symm.subset ho)).2

theorem Lengthened.locations_eq (h : g.Lengthened g') (hopen : g.OpensAlike g') :
    g'.locations = g.locations := by
  rw [locations, locations, h.openings_eq hopen, h.closings_eq]

/-! ## Widths -/

/-- Blanks that do not make a grid wider are filled up anyway. -/
theorem Lengthened.pad_eq (h : g.Lengthened g') (hw : g'.width = g.width) : g'.pad = g.pad := by
  have hle : ∀ r' ∈ g', r'.length ≤ g.width := fun r' hr' => by
    rw [← hw]
    exact (Program.le_foldl_max _ 0).2 _ (List.mem_map_of_mem hr')
  unfold pad
  rw [hw]
  clear hw
  generalize g.width = w at hle
  induction h with
  | nil => rfl
  | cons hrow hrest ih =>
    obtain ⟨k, rfl⟩ := hrow
    rw [List.forall_mem_cons] at hle
    rw [List.map_cons, List.map_cons, ih hle.2, List.append_assoc, ← List.replicate_add]
    congr 3
    have := hle.1
    rw [List.length_append, List.length_replicate] at this ⊢
    omega

end Grid

/-! ## Glyphs cut out -/

namespace Location

open Grid

variable {g g' : Grid} {l : Location} {r r' : Row}

theorem cut_row_lengthened (h : RowLengthened r r') (m n : Nat) :
    RowLengthened ((r.take n).drop m) ((r'.take n).drop m) := by
  obtain ⟨k, rfl⟩ := h
  rw [List.take_append, List.drop_append, List.take_replicate, List.drop_replicate]
  exact ⟨_, rfl⟩

theorem rectangle_lengthened (h : g.Lengthened g') (l : Location) :
    (l.rectangle g).Lengthened (l.rectangle g') := by
  unfold rectangle Lengthened
  rw [List.forall₂_map_left_iff, List.forall₂_map_right_iff]
  refine (List.forall₂_take _ (List.forall₂_drop _ h)).imp fun r r' hr => ?_
  exact cut_row_lengthened hr _ _

theorem blankFirst_lengthened (h : RowLengthened r r') (n : Nat) :
    RowLengthened (blankFirst n r) (blankFirst n r') := by
  obtain ⟨k, rfl⟩ := h
  unfold blankFirst
  rcases Nat.le_total n r.length with hn | hn
  · refine ⟨k, ?_⟩
    rw [List.length_append, Nat.min_eq_left hn, Nat.min_eq_left (by omega),
      List.drop_append_of_le_length hn, List.append_assoc]
  · refine ⟨k, ?_⟩
    rw [List.drop_append, List.drop_eq_nil_of_le hn, List.drop_replicate, List.length_append,
      List.length_replicate, Nat.min_eq_right hn]
    simp only [List.append_nil, List.nil_append, ← List.replicate_add]
    congr 1
    omega

theorem onFirst_lengthened (h : g.Lengthened g') {f : Row → Row}
    (hf : ∀ {r r'}, RowLengthened r r' → RowLengthened (f r) (f r')) :
    (onFirst f g).Lengthened (onFirst f g') := by
  cases h with
  | nil => exact .nil
  | cons hrow hrest => exact .cons (hf hrow) hrest

theorem onLast_lengthened (h : g.Lengthened g') (hlast : g'.getLast? = g.getLast?) (f : Row → Row) :
    (onLast f g).Lengthened (onLast f g') := by
  induction h with
  | nil => exact .nil
  | cons hrow hrest ih =>
    cases hrest with
    | nil =>
      obtain rfl := Option.some.inj hlast
      exact .cons (.refl _) .nil
    | cons hrow' hrest' =>
      rw [List.getLast?_cons_cons, List.getLast?_cons_cons] at hlast
      exact .cons hrow (ih hlast)

theorem Inside.lengthened (h : l.Inside g) (hg : g.Lengthened g') : l.Inside g' := by
  obtain ⟨r, hr, hx⟩ := h.lastRow
  obtain ⟨r', hr', hlong⟩ := hg.row hr
  have := hlong.length_le
  exact ⟨h.upright, h.firstRow, h.firstColumn, r', hr', by omega⟩

/-- The last row of a glyph ends with the closing sign, so that blanks after it are cut off. -/
theorem Inside.getLast?_eq (h : l.Inside g) (hg : g.Lengthened g') :
    (l.rectangle g').getLast? = (l.rectangle g).getLast? := by
  obtain ⟨r, hr, hx⟩ := h.lastRow
  obtain ⟨r', hr', k, rfl⟩ := hg.row hr
  rw [h.getLast?_rectangle hr, (h.lengthened hg).getLast?_rectangle hr',
    List.take_append_of_le_length (by omega)]

theorem getLast?_onFirst {f : Row → Row} (h : 2 ≤ g.length) :
    (onFirst f g).getLast? = g.getLast? := by
  match g with
  | r :: r' :: rs => rw [onFirst, List.getLast?_cons_cons, List.getLast?_cons_cons]

/-- The glyphs that are cut out of a grid and of a lengthened one differ in blanks at the ends of
rows, and not in width. -/
theorem Inside.cut_lengthened (h : l.Inside g) (hg : g.Lengthened g') :
    (l.cut g).rows.Lengthened (l.cut g').rows ∧ (l.cut g').rows.width = (l.cut g).rows.width := by
  have hrect := rectangle_lengthened hg l
  have htall : 2 ≤ (l.rectangle g).length := by
    have := h.upright.2
    rw [h.length_rectangle]
    omega
  refine ⟨?_, by rw [h.width_cut, (h.lengthened hg).width_cut]⟩
  refine onLast_lengthened (onFirst_lengthened hrect fun hr => blankFirst_lengthened hr _) ?_ _
  rw [getLast?_onFirst htall, getLast?_onFirst (hrect.length_eq ▸ htall), h.getLast?_eq hg]

end Location

/-! ## Tables -/

namespace Primes

theorem firstWidth_lengthened {g g' : Grid} (h : g.Lengthened g') (hne : g ≠ []) :
    ∃ w w', firstWidth g = .ok w ∧ firstWidth g' = .ok w' ∧ w ≤ w' := by
  cases h with
  | nil => exact absurd rfl hne
  | cons hrow _ => exact ⟨_, _, rfl, rfl, hrow.length_le⟩

/-- The longest side grows with the rows. -/
theorem longestSide_lengthened {gs gs' : List Grid} (h : List.Forall₂ Grid.Lengthened gs gs')
    (hne : ∀ g ∈ gs, g ≠ []) :
    ∃ n n', longestSide gs = .ok n ∧ longestSide gs' = .ok n' ∧ n ≤ n' := by
  induction h with
  | nil => exact ⟨0, 0, rfl, rfl, Nat.le_refl _⟩
  | @cons g g' gs gs' hg hgs ih =>
    rw [List.forall_mem_cons] at hne
    obtain ⟨n, n', hn, hn', hle⟩ := ih hne.2
    obtain ⟨w, w', hw, hw', hwle⟩ := firstWidth_lengthened hg hne.1
    refine ⟨max (max g.length w) n, max (max g'.length w') n', ?_, ?_, ?_⟩
    · rw [longestSide, hw, hn]
      rfl
    · rw [longestSide, hw', hn']
      rfl
    · have := hg.length_eq
      omega

/-- The table for some grids is the beginning of that for the grids lengthened, and has all rows. -/
theorem ofGrids_lengthened {gs gs' : List Grid} (h : List.Forall₂ Grid.Lengthened gs gs')
    (hgs : gs ≠ []) (hne : ∀ g ∈ gs, g ≠ []) : ∃ primes primes', ofGrids gs = .ok primes ∧
      ofGrids gs' = .ok primes' ∧ primes <+: primes' ∧ ∀ g ∈ gs, g.length ≤ primes.length := by
  obtain ⟨n, hn, hprimes, hpos, hlen⟩ := exists_ofGrids hgs hne
  obtain ⟨m, n', hm, hn', hle⟩ := longestSide_lengthened h hne
  obtain rfl := Except.ok.inj (hn.symm.trans hm)
  have hgs' : gs' ≠ [] := fun he => hgs (List.forall₂_nil_right_iff.mp (he ▸ h))
  refine ⟨table n, table n', hprimes, ?_, ?_, ?_⟩
  · rw [ofGrids, if_neg (by simpa using hgs'), hn']
    rfl
  · rw [← take_table hpos hle]
    exact List.take_prefix _ _
  · rwa [length_table hpos]

end Primes

/-! ## Glyphs read -/

/-- The glyph `p'` is the glyph `p` with blanks added at the ends of rows that do not make it
wider. -/
structure Panel.Filled (p p' : Panel) : Prop where
  level : p'.level = p.level
  rows : p.rows.Lengthened p'.rows
  width : p'.rows.width = p.rows.width

theorem Panel.Filled.strands_eq {p p' : Panel} (h : p.Filled p') (limit : Nat) (primes : List Nat) :
    p'.rows.strands limit primes = p.rows.strands limit primes := by
  unfold Grid.strands
  rw [h.rows.pad_eq h.width]

/-- The same glyphs are cut out, but for blanks at the ends of rows. -/
theorem Grid.Lengthened.filled {g g' : Grid} (h : g.Lengthened g') {ls : List Location}
    (hls : g.locations = .ok ls) :
    List.Forall₂ Panel.Filled (ls.map (·.cut g)) (ls.map (·.cut g')) := by
  rw [List.forall₂_map_left_iff, List.forall₂_map_right_iff, List.forall₂_same]
  intro l hl
  obtain ⟨hrows, hwidth⟩ := (Location.inside_of_locations hls hl).cut_lengthened h
  exact ⟨rfl, hrows, hwidth⟩

namespace Program

variable {limit : Nat} {ps ps' : List Panel} {primes primes' : List Nat}

/-- What some glyphs say: their levels and their tokens. -/
def told (gs : List Glyph) : List (Int × List Token) := gs.map fun g => (g.level, g.tokens)

/-- What is read from a text, if it is accepted. -/
def reading (limit : Nat) (text : String) : Option (List (Int × List Token)) :=
  (parseWithin limit text).toOption.map told

theorem told_zipWith (ps : List Panel) (tss : List (List Token)) :
    told (List.zipWith Glyph.mk ps tss) = (ps.map (·.level)).zip tss := by
  rw [told, List.map_zipWith, List.zip, List.zipWith_map_left]

theorem strandsOf_filled (h : List.Forall₂ Panel.Filled ps ps') (limit : Nat) (primes : List Nat) :
    strandsOf limit primes ps' = strandsOf limit primes ps := by
  unfold strandsOf
  induction h with
  | nil => rfl
  | cons hp _ ih => rw [List.mapM_cons, List.mapM_cons, ih, hp.strands_eq]

theorem levels_filled (h : List.Forall₂ Panel.Filled ps ps') :
    ps'.map (·.level) = ps.map (·.level) := by
  induction h with
  | nil => rfl
  | cons hp _ ih => rw [List.map_cons, List.map_cons, ih, hp.level]

theorem strandsOf_shorter (h : primes <+: primes') (hlen : ∀ p ∈ ps, p.rows.length ≤ primes.length)
    {sss : List (List Strand)} :
    strandsOf limit primes ps = .ok sss ↔ strandsOf limit primes' ps = .ok sss ∧
      ∀ ss ∈ sss, ∀ s ∈ ss, ∀ i ∈ s.columns, i < primes.length :=
  Outcome.mapM_eq_ok_and fun p hp _ => Grid.strands_shorter h (hlen p hp)

theorem tokensFrom_shorter (h : primes <+: primes') (hlen : ∀ p ∈ ps, p.rows.length ≤ primes.length)
    {sss : List (List Strand)} (hsss : strandsOf limit primes' ps = .ok sss) (k : Nat) :
    tokensFrom primes k sss = tokensFrom primes' k sss := by
  have hall := Outcome.mapM_eq_ok.mp hsss
  clear hsss
  induction hall generalizing k with
  | nil => rfl
  | @cons p ss ps sss hss _ ih =>
    rw [List.forall_mem_cons] at hlen
    obtain ⟨hpos, href⟩ := Grid.strands_rows hss hlen.1
    rw [tokensFrom, tokensFrom, Arrangement.tokens_shorter h hpos href, ih hlen.2]

theorem assemble_told {t : List (Int × List Token)} :
    (assemble limit ps).toOption.map told = some t ↔
      ∃ primes, Primes.ofGrids (ps.map (·.rows)) = .ok primes ∧
        ∃ sss, strandsOf limit primes ps = .ok sss ∧
          ∃ tss, tokensFrom primes 0 sss = .ok tss ∧ (ps.map (·.level)).zip tss = t := by
  simp only [Option.map_eq_some_iff, Outcome.toOption_eq_some, assemble_eq, Outcome.bind_eq_ok]
  constructor
  · rintro ⟨gs, ⟨primes, hprimes, sss, hsss, tss, htss, hgs⟩, rfl⟩
    obtain rfl := Except.ok.inj hgs
    exact ⟨primes, hprimes, sss, hsss, tss, htss, (told_zipWith ps tss).symm⟩
  · rintro ⟨primes, hprimes, sss, hsss, tss, htss, rfl⟩
    exact ⟨_, ⟨primes, hprimes, sss, hsss, tss, htss, rfl⟩, told_zipWith ps tss⟩

/-- The table for the glyphs `ps` has all columns that the strands of the glyphs `ps'` count. -/
def ReachesColumns (limit : Nat) (ps ps' : List Panel) : Prop :=
  ∀ primes primes' sss, Primes.ofGrids (ps.map (·.rows)) = .ok primes →
    Primes.ofGrids (ps'.map (·.rows)) = .ok primes' → strandsOf limit primes' ps' = .ok sss →
    ∀ ss ∈ sss, ∀ s ∈ ss, ∀ i ∈ s.columns, i < primes.length

/-- **Glyphs say the same with blanks filled in, exactly if their own table reaches far enough.** -/
theorem assemble_filled (h : List.Forall₂ Panel.Filled ps ps') (hps : ps ≠ [])
    (hne : ∀ p ∈ ps, p.rows ≠ []) {t : List (Int × List Token)} :
    (assemble limit ps).toOption.map told = some t ↔
      (assemble limit ps').toOption.map told = some t ∧ ReachesColumns limit ps ps' := by
  have hrows : List.Forall₂ Grid.Lengthened (ps.map (·.rows)) (ps'.map (·.rows)) := by
    rw [List.forall₂_map_left_iff, List.forall₂_map_right_iff]
    exact h.imp fun _ _ hp => hp.rows
  obtain ⟨primes, primes', hprimes, hprimes', hshort, hlen⟩ :=
    Primes.ofGrids_lengthened hrows (by simpa using hps) (List.forall_mem_map.mpr hne)
  rw [List.forall_mem_map] at hlen
  rw [assemble_told, assemble_told, levels_filled h]
  constructor
  · rintro ⟨_, hp, sss, hsss, tss, htss, ht⟩
    obtain rfl := Except.ok.inj (hprimes.symm.trans hp)
    obtain ⟨hsss', hcolumns⟩ := (strandsOf_shorter hshort hlen).mp hsss
    rw [tokensFrom_shorter hshort hlen hsss'] at htss
    rw [← strandsOf_filled h] at hsss'
    refine ⟨⟨primes', hprimes', sss, hsss', tss, htss, ht⟩, ?_⟩
    intro q q' sss' hq hq' hsss''
    obtain rfl := Except.ok.inj (hprimes.symm.trans hq)
    obtain rfl := Except.ok.inj (hprimes'.symm.trans hq')
    obtain rfl := Except.ok.inj (hsss'.symm.trans hsss'')
    exact hcolumns
  · rintro ⟨⟨_, hp', sss, hsss, tss, htss, ht⟩, hreach⟩
    obtain rfl := Except.ok.inj (hprimes'.symm.trans hp')
    have hcolumns := hreach _ _ _ hprimes hprimes' hsss
    rw [strandsOf_filled h] at hsss
    rw [← tokensFrom_shorter hshort hlen hsss] at htss
    exact ⟨primes, hprimes, sss, (strandsOf_shorter hshort hlen).mpr ⟨hsss, hcolumns⟩, tss, htss,
      ht⟩

/-! ## Texts -/

theorem reading_eq_some {text : String} {t : List (Int × List Token)} :
    reading limit text = some t ↔ ∃ ps, (grid text).panels? = some ps ∧ ps ≠ [] ∧
      (assemble limit ps).toOption.map told = some t := by
  simp only [reading, Option.map_eq_some_iff, Outcome.toOption_eq_some]
  constructor
  · rintro ⟨gs, hgs, ht⟩
    obtain ⟨ps, hps, hne, hassemble⟩ := parseGrid_eq_ok_iff.mp hgs
    exact ⟨ps, hps, hne, gs, hassemble, ht⟩
  · rintro ⟨ps, hps, hne, gs, hassemble, ht⟩
    exact ⟨gs, parseGrid_eq_ok_iff.mpr ⟨ps, hps, hne, hassemble⟩, ht⟩

/-- The table for one text has all columns that the strands of another one count. -/
def ReachesColumnsOf (limit : Nat) (text text' : String) : Prop :=
  ∀ ps ps', (grid text).panels? = some ps → (grid text').panels? = some ps' →
    ReachesColumns limit ps ps'

theorem reading_lengthened {text text' : String} (h : (grid text).Lengthened (grid text'))
    (hopen : (grid text).OpensAlike (grid text')) {t : List (Int × List Token)} :
    reading limit text = some t ↔
      reading limit text' = some t ∧ ReachesColumnsOf limit text text' := by
  cases hls : (grid text).locations with
  | error f =>
    have hls' := (h.locations_eq hopen).trans hls
    simp [reading_eq_some, Grid.panels?, hls, hls', Except.toOption]
  | ok ls =>
    have hls' := (h.locations_eq hopen).trans hls
    have hps : (grid text).panels? = some (ls.map (·.cut (grid text))) := by
      rw [Grid.panels?, hls]
      rfl
    have hps' : (grid text').panels? = some (ls.map (·.cut (grid text'))) := by
      rw [Grid.panels?, hls']
      rfl
    have hrows : ∀ p ∈ ls.map (·.cut (grid text)), p.rows ≠ [] :=
      List.forall_mem_map.mpr fun l hl => (Location.inside_of_locations hls hl).rows_ne_nil
    have hreach : ReachesColumnsOf limit text text' ↔
        ReachesColumns limit (ls.map (·.cut (grid text))) (ls.map (·.cut (grid text'))) := by
      simp only [ReachesColumnsOf, hps, hps', Option.some.injEq]
      exact ⟨fun hall => hall _ _ rfl rfl, by rintro hall _ _ rfl rfl; exact hall⟩
    simp only [reading_eq_some, hps, hps', hreach, Option.some.injEq, exists_eq_left', ne_eq,
      List.map_eq_nil_iff, and_assoc]
    refine and_congr_right fun hne => ?_
    exact assemble_filled (h.filled hls) (by simpa using hne) hrows

theorem opensAlike_of_reading {text text' : String} (h : (grid text).Lengthened (grid text'))
    {t : List (Int × List Token)} (ht : reading limit text = some t)
    (ht' : reading limit text' = some t) : (grid text).OpensAlike (grid text') := by
  obtain ⟨ps, hps, -⟩ := reading_eq_some.mp ht
  obtain ⟨ps', hps', -⟩ := reading_eq_some.mp ht'
  obtain ⟨ls, hls, -⟩ := Option.map_eq_some_iff.mp hps
  obtain ⟨ls', hls', -⟩ := Option.map_eq_some_iff.mp hps'
  exact h.opensAlike (Outcome.toOption_eq_some.mp hls) (Outcome.toOption_eq_some.mp hls')

end Program

/-- **When trailing blanks do not matter**: a text and the text with blanks added at the ends of
lines say the same, exactly if none of the blanks lets a sign at the end of a line open a glyph, and
none of the columns counted lies beyond the table that the shorter first rows give. -/
theorem trailing_blanks_iff (limit : Nat) (text text' : String)
    (h : List.Forall₂ (fun r r' => ∃ k, r' = r ++ List.replicate k ' ') (Program.grid text)
      (Program.grid text')) :
    Program.reading limit text' = Program.reading limit text ↔
      ((Program.reading limit text).isSome ∨ (Program.reading limit text').isSome →
        (Program.grid text).OpensAlike (Program.grid text')) ∧
      ((Program.reading limit text').isSome → Program.ReachesColumnsOf limit text text') := by
  have hlong : (Program.grid text).Lengthened (Program.grid text') := h
  constructor
  · intro heq
    rw [heq, or_self]
    refine ⟨fun hsome => ?_, fun hsome => ?_⟩ <;>
      obtain ⟨t, ht⟩ := Option.isSome_iff_exists.mp hsome
    · exact Program.opensAlike_of_reading hlong ht (heq.trans ht)
    · have hopen := Program.opensAlike_of_reading hlong ht (heq.trans ht)
      exact ((Program.reading_lengthened hlong hopen).mp ht).2
  · rintro ⟨hopen, hreach⟩
    cases ht : Program.reading limit text with
    | some t =>
      rw [ht] at hopen
      exact ((Program.reading_lengthened hlong (hopen (.inl rfl))).mp ht).1
    | none =>
      cases ht' : Program.reading limit text' with
      | none => rfl
      | some t =>
        rw [ht'] at hopen hreach
        rw [(Program.reading_lengthened hlong (hopen (.inr rfl))).mpr ⟨ht', hreach rfl⟩] at ht
        cases ht

/-- Blanks after the first row and after the last one, of a glyph with one strand. -/
theorem trailing_blanks_iff_filled :
    (Program.reading nestingLimit "╵╰─  \n   ╷ ").isSome = true ∧
      Program.reading nestingLimit "╵╰─  \n   ╷ " = Program.reading nestingLimit "╵╰─\n   ╷" ∧
      (Program.grid "╵╰─\n   ╷").OpensAlike (Program.grid "╵╰─  \n   ╷ ") ∧
      Program.ReachesColumnsOf nestingLimit "╵╰─\n   ╷" "╵╰─  \n   ╷ " := by
  have hlong : List.Forall₂ (fun r r' => ∃ k, r' = r ++ List.replicate k ' ')
      (Program.grid "╵╰─\n   ╷") (Program.grid "╵╰─  \n   ╷ ") :=
    .cons ⟨2, rfl⟩ (.cons ⟨1, rfl⟩ .nil)
  have hsome : (Program.reading nestingLimit "╵╰─  \n   ╷ ").isSome = true := by cbv
  have heq : Program.reading nestingLimit "╵╰─  \n   ╷ " =
      Program.reading nestingLimit "╵╰─\n   ╷" := by cbv
  obtain ⟨hopen, hreach⟩ := (trailing_blanks_iff _ _ _ hlong).mp heq
  exact ⟨hsome, heq, hopen (.inr hsome), hreach hsome⟩

/-- **Trailing blanks can matter**: a sign at the end of a line opens a glyph only with a blank
after it, and a strand down a far column counts it only with the first row filled up. -/
theorem trailing_blanks_matter :
    (Program.reading nestingLimit "╵\n ╷" = none ∧
      Program.reading nestingLimit "╵ \n ╷" = some [(1, [])]) ∧
    (Program.reading nestingLimit "╵ \n ╭──────╮\n        ││\n        ╰╯ ╷" = none ∧
      Program.reading nestingLimit "╵           \n ╭──────╮\n        ││\n        ╰╯ ╷" =
        some [(1, [])]) := by
  refine ⟨⟨?_, ?_⟩, ?_, ?_⟩ <;> cbv

end StrandScript
