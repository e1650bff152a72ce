import StrandScript.Proofs.Reading
import StrandScript.Proofs.ReadingOrder
import StrandScript.Step

/-!
# The arrangement of a glyph

The tokens of a glyph are its data strands by columns, each once, and then perhaps one question made
of the glyph's two question strands. A data token has the list of its row, and the cell that counts
the data strands left of it on that row (`Arranged`, `parse_arranged`).

* `Arrangement.tokens_eq_ok`: what a successful arrangement has gone through.
* `Arrangement.placeData_append`: list, order and cell of one data token.
-/

namespace StrandScript

/-- Strict column order: a column further left, or the same column further up. -/
def Pos.ColumnBefore (p q : Pos) : Prop := p.x < q.x ∨ p.x = q.x ∧ p.y < q.y

theorem Pos.columnBefore_of_columnMajor {p q : Pos} (h : p.columnMajor q = true) (hne : p ≠ q) :
    p.ColumnBefore q := by
  obtain ⟨px, py⟩ := p
  obtain ⟨qx, qy⟩ := q
  simp only [columnMajor, Bool.or_eq_true, Bool.and_eq_true, decide_eq_true_eq, beq_iff_eq] at h
  simp only [ne_eq, Pos.mk.injEq, not_and] at hne
  simp only [ColumnBefore]
  omega

/-- A data token without what other strands add to it. -/
def DataToken.bare (d : DataToken) : DataToken := { d with action := none, ref := none }

namespace Arrangement

variable {primes : List Nat} {ss : List Strand}

/-! ## Sorting -/

theorem byColumn_perm (k : Kind) (ss : List Strand) :
    (byColumn k ss).Perm (ss.filter fun s => s.hook.kind == k) :=
  (List.mergeSort_perm ss _).filter _

theorem mem_byColumn {k : Kind} {s : Strand} : s ∈ byColumn k ss ↔ s ∈ ss ∧ s.hook.kind = k := by
  rw [(byColumn_perm k ss).mem_iff, List.mem_filter, beq_iff_eq]

theorem countP_byColumn (k : Kind) (ss : List Strand) (q : Strand → Bool) :
    (byColumn k ss).countP q = ss.countP fun s => s.hook.kind == k && q s := by
  rw [(byColumn_perm k ss).countP_eq, List.countP_filter]
  exact List.countP_congr fun s _ => by rw [Bool.and_comm]

theorem questions_perm (ss : List Strand) :
    (questions ss).Perm (ss.filter fun s => s.hook.kind == .question) :=
  (List.mergeSort_perm ss _).filter _

theorem sorted_columnMajor (ss : List Strand) :
    (ss.mergeSort fun a b => Pos.columnMajor a.pos b.pos).Pairwise
      fun a b => Pos.columnMajor a.pos b.pos := by
  apply List.pairwise_mergeSort
  · intro a b c hab hbc
    simp only [Pos.columnMajor, Bool.or_eq_true, Bool.and_eq_true, decide_eq_true_eq,
      beq_iff_eq] at *
    omega
  · intro a b
    simp only [Pos.columnMajor, Bool.or_eq_true, Bool.and_eq_true, decide_eq_true_eq, beq_iff_eq]
    omega

/-- Strands that begin in different places are put into strict column order. -/
theorem byColumn_columnBefore (k : Kind) (h : ss.Pairwise fun a b => a.pos ≠ b.pos) :
    (byColumn k ss).Pairwise fun a b => a.pos.ColumnBefore b.pos := by
  have hne := (List.mergeSort_perm ss fun a b => Pos.columnMajor a.pos b.pos).symm.pairwise h
    fun hab => hab.symm
  have hboth := (sorted_columnMajor ss).and hne
  exact (hboth.imp fun hab => Pos.columnBefore_of_columnMajor hab.1 hab.2).filter _

/-! ## Lists and cells -/

theorem placeData_strand {seen : List Int} {ds : List DataToken}
    (h : placeData primes seen ss = .ok ds) : ds.map (·.strand) = ss := by
  induction ss generalizing seen ds with
  | nil =>
    cases h
    rfl
  | cons s ss ih =>
    obtain ⟨list, -, h⟩ := Outcome.bind_eq_ok.mp h
    obtain ⟨rest, hrest, h⟩ := Outcome.bind_eq_ok.mp h
    cases h
    rw [List.map_cons, ih hrest]

theorem placeData_bare {seen : List Int} {ds : List DataToken}
    (h : placeData primes seen ss = .ok ds) : ds.map (·.bare) = ds := by
  induction ss generalizing seen ds with
  | nil =>
    cases h
    rfl
  | cons s ss ih =>
    obtain ⟨list, -, h⟩ := Outcome.bind_eq_ok.mp h
    obtain ⟨rest, hrest, h⟩ := Outcome.bind_eq_ok.mp h
    cases h
    rw [List.map_cons, ih hrest]
    rfl

/-- A data token is told the list of its row, the number of tokens before it, and the number of
these on its own row. -/
theorem placeData_append {seen : List Int} {pre post : List DataToken} {d : DataToken}
    (h : placeData primes seen ss = .ok (pre ++ d :: post)) :
    Primes.number primes d.strand.pos.y.toNat = .ok d.list ∧ d.order = seen.length + pre.length ∧
      d.cell = seen.count d.strand.pos.y +
        pre.countP fun e => e.strand.pos.y == d.strand.pos.y := by
  induction pre generalizing seen ss with
  | nil =>
    cases ss with
    | nil => cases h
    | cons s ss =>
      obtain ⟨list, hlist, h⟩ := Outcome.bind_eq_ok.mp h
      obtain ⟨rest, -, h⟩ := Outcome.bind_eq_ok.mp h
      cases h
      exact ⟨hlist, rfl, rfl⟩
  | cons e pre ih =>
    cases ss with
    | nil => cases h
    | cons s ss =>
      obtain ⟨list, -, h⟩ := Outcome.bind_eq_ok.mp h
      obtain ⟨rest, hrest, h⟩ := Outcome.bind_eq_ok.mp h
      cases h
      obtain ⟨hlist, horder, hcell⟩ := ih hrest
      refine ⟨hlist, ?_, ?_⟩
      · rw [horder, List.length_cons, List.length_cons]
        omega
      · rw [hcell, List.count_cons, List.countP_cons]
        dsimp only
        omega

/-! ## Questions, references and actions -/

/-- A glyph that is arranged so far has no question strand, one that waits for its second, or two. A
question made of two has the cells that their places refer to, the first one if it asks about a
cell. -/
theorem question?_eq_ok {g : Nat} {ds : List DataToken} {qs : List Strand}
    {r : Option (Strand ⊕ QuestionToken)} (h : question? g primes ds qs = .ok r) :
    (qs = [] ∧ r = none) ∨ (∃ s, qs = [s] ∧ r = some (.inl s)) ∨
      ∃ t, qs = [t.strand, t.second] ∧ r = some (.inr t) ∧ t.order = ds.length ∧
        (∀ c, t.target = .cell c → refAt primes ds none t.strand.pos = .ok c) ∧
        refAt primes ds (some t.strand.pos) t.second.pos = .ok t.secondRef := by
  cases qs with
  | nil =>
    cases h
    exact Or.inl ⟨rfl, rfl⟩
  | cons q rest =>
    obtain ⟨ref, href, h⟩ := Outcome.bind_eq_ok.mp h
    cases rest with
    | nil =>
      cases h
      exact Or.inr (Or.inl ⟨q, rfl, rfl⟩)
    | cons r more =>
      simp only at h
      split at h
      · cases h
      · obtain ⟨secondRef, hsecond, h⟩ := Outcome.bind_eq_ok.mp h
        cases more with
        | nil =>
          cases h
          refine Or.inr (Or.inr ⟨_, rfl, rfl, rfl, fun c hc => ?_, hsecond⟩)
          dsimp only at hc
          split at hc
          · cases hc
          · cases hc
            exact href
        | cons _ _ => cases h

theorem withRefs_bare {ds ds' : List DataToken} {question : Option Pos}
    (h : withRefs primes ds question = .ok ds') : ds'.map (·.bare) = ds.map (·.bare) := by
  symm
  rw [← List.forall₂_eq_eq_eq, List.forall₂_map_left_iff, List.forall₂_map_right_iff]
  refine (Outcome.mapM_eq_ok.mp h).imp fun d d' hd => ?_
  split at hd
  · obtain ⟨ref, -, hd⟩ := Outcome.bind_eq_ok.mp hd
    cases hd
    rfl
  · cases hd
    rfl

theorem attach_bare (actions : List (Strand × Nat)) (seen : List Int) (ds : List DataToken) :
    (attach actions seen ds).map (·.bare) = ds.map (·.bare) := by
  induction ds generalizing seen with
  | nil => rfl
  | cons d ds ih =>
    rw [attach, List.map_cons, List.map_cons, ih]
    rfl

/-- **What an arrangement has gone through.** The data strands are placed by columns, and what is
added to them later changes neither list nor order nor cell; there is no question strand, or there
are two and these make up the last token. -/
theorem tokens_eq_ok {g : Nat} {ts : List Token} (h : tokens g primes ss = .ok ts) :
    ∃ (ds : List DataToken) (q : Option QuestionToken),
      ts = ds.map .data ++ q.toList.map .question ∧
      placeData primes [] (byColumn .data ss) = .ok (ds.map (·.bare)) ∧
      questions ss = q.toList.flatMap (fun t => [t.strand, t.second]) ∧
      ∀ t ∈ q, t.order = ds.length := by
  obtain ⟨ds₀, hds₀, h⟩ := Outcome.bind_eq_ok.mp h
  obtain ⟨q, hq, h⟩ := Outcome.bind_eq_ok.mp h
  obtain ⟨ds₁, hds₁, h⟩ := Outcome.bind_eq_ok.mp h
  have hbare : (attach (ranks 0 0 (byColumn .action ss)) [] ds₁).map (·.bare) = ds₀ := by
    rw [attach_bare, withRefs_bare hds₁, placeData_bare hds₀]
  have hlen : (attach (ranks 0 0 (byColumn .action ss)) [] ds₁).length = ds₀.length := by
    rw [← hbare, List.length_map]
  rw [← hbare] at hds₀
  obtain ⟨hqs, rfl⟩ | ⟨s, -, rfl⟩ | ⟨t, hqs, rfl, ht, -⟩ := question?_eq_ok hq
  · cases h
    exact ⟨_, none, by simp, hds₀, hqs, fun t ht => by cases ht⟩
  · cases h
  · cases h
    refine ⟨_, some t, rfl, hds₀, hqs, fun t' ht' => ?_⟩
    cases ht'
    rw [ht, hlen]

/-- An arranged glyph has a token for each of its data strands, and for no other strand. -/
theorem exists_data_iff {g : Nat} {ts : List Token} (h : tokens g primes ss = .ok ts) {s : Strand} :
    (∃ d, Token.data d ∈ ts ∧ d.strand = s) ↔ s ∈ ss ∧ s.hook.kind = .data := by
  obtain ⟨ds, q, rfl, hplace, -, -⟩ := tokens_eq_ok h
  have hmem : s ∈ byColumn .data ss ↔ ∃ d ∈ ds, d.strand = s := by
    rw [← placeData_strand hplace, List.map_map, List.mem_map]
    rfl
  rw [← mem_byColumn, hmem]
  simp

end Arrangement

/-! ## Arranged glyphs -/

/-- The place of a token in the order of execution. -/
def Token.order : Token → Nat
  | .data d => d.order
  | .question q => q.order

/-- The strands `ss` of a glyph are arranged into the data tokens `ds`, followed by the question `q`
if there is one. -/
structure Arranged (primes : List Nat) (ss : List Strand) (ds : List DataToken)
    (q : Option QuestionToken) : Prop where
  /-- Every data strand has one token. -/
  data : (ds.map (·.strand)).Perm (ss.filter fun s => s.hook.kind == .data)
  columns : ds.Pairwise fun a b => a.strand.pos.ColumnBefore b.strand.pos
  /-- The question, if there is one, is made of all question strands, which are two. -/
  questions : (q.toList.flatMap fun t => [t.strand, t.second]).Perm
    (ss.filter fun s => s.hook.kind == .question)
  order : (ds.map Token.data ++ q.toList.map Token.question).map Token.order =
    List.range (ds.length + q.toList.length)
  list : ∀ d ∈ ds, (primes[d.strand.pos.y.toNat]?).map Int.ofNat = some d.list
  /-- The cell counts the data strands further left on the same row. -/
  cell : ∀ d ∈ ds, d.cell = ss.countP fun s =>
    s.hook.kind == .data && s.pos.y == d.strand.pos.y && s.pos.x < d.strand.pos.x
  distinct : (ds.map fun d => (d.list, d.cell)).Nodup

namespace Arranged

open Arrangement

variable {primes : List Nat} {ss : List Strand} {ds : List DataToken}

/-- What satisfies `q` before a split of a list is all of the list that satisfies `q` and `r`, if
`r` tells the two sides apart. -/
theorem countP_split {pre post : List Strand} {q r : Strand → Bool}
    (hpre : ∀ a ∈ pre, q a = true → r a = true) (hpost : ∀ a ∈ post, q a = true → ¬ r a = true) :
    pre.countP q = (pre ++ post).countP fun a => q a && r a := by
  have hright : (post.countP fun a => q a && r a) = 0 := by
    refine List.countP_eq_zero.mpr fun a ha => ?_
    rw [Bool.and_eq_true]
    exact fun hqr => hpost a ha hqr.1 hqr.2
  rw [List.countP_append, hright, Nat.add_zero]
  refine List.countP_congr fun a ha => ?_
  rw [Bool.and_eq_true]
  exact ⟨fun hq => ⟨hq, hpre a ha hq⟩, And.left⟩

/-- Among strands in column order, those before one of them on its row are those left of it
there. -/
theorem countP_before {pre post : List Strand} {s : Strand}
    (h : (pre ++ s :: post).Pairwise fun a b => a.pos.ColumnBefore b.pos) :
    (pre.countP fun a => a.pos.y == s.pos.y) =
      (pre ++ s :: post).countP fun a => a.pos.y == s.pos.y && a.pos.x < s.pos.x := by
  rw [List.pairwise_append, List.pairwise_cons] at h
  obtain ⟨-, ⟨hpost, -⟩, hpre⟩ := h
  refine countP_split (fun a ha hy => ?_) (List.forall_mem_cons.mpr ⟨by simp, fun a ha hy => ?_⟩)
  · have := hpre a ha s List.mem_cons_self
    simp only [Pos.ColumnBefore, beq_iff_eq, decide_eq_true_eq] at this hy ⊢
    omega
  · have := hpost a ha
    simp only [Pos.ColumnBefore, beq_iff_eq, decide_eq_true_eq] at this hy ⊢
    omega

/-- List, order and cell of the token at a place. -/
theorem placed_getElem {cs : List Strand} (h : placeData primes [] cs = .ok (ds.map (·.bare)))
    {i : Nat} (hi : i < ds.length) :
    Primes.number primes ds[i].strand.pos.y.toNat = .ok ds[i].list ∧ ds[i].order = i ∧
      ds[i].cell = (ds.take i).countP fun e => e.strand.pos.y == ds[i].strand.pos.y := by
  have hsplit : ds.map (·.bare) =
      (ds.take i).map (·.bare) ++ ds[i].bare :: (ds.drop (i + 1)).map (·.bare) := by
    rw [← List.map_cons, ← List.map_append, List.getElem_cons_drop, List.take_append_drop]
  rw [hsplit] at h
  obtain ⟨hlist, horder, hcell⟩ := placeData_append h
  refine ⟨hlist, ?_, ?_⟩
  · have : ds[i].bare.order = ds[i].order := rfl
    rw [← this, horder, List.length_map, List.length_take]
    simp only [List.length_nil]
    omega
  · have : ds[i].bare.cell = ds[i].cell := rfl
    rw [← this, hcell, List.countP_map]
    simp only [List.count_nil, Nat.zero_add]
    rfl

theorem getElem?_of_number {y : Nat} {n : Int} (h : Primes.number primes y = .ok n) :
    ∃ p, primes[y]? = some p ∧ n = Int.ofNat p := by
  unfold Primes.number at h
  split at h
  · rename_i p hp
    exact ⟨p, hp, (Except.ok.inj h).symm⟩
  · cases h

/-- Tokens with the same list and the same cell stand at the same place. -/
theorem distinct_of_placed {cs : List Strand} (hprimes : primes.Nodup)
    (hpos : ∀ s ∈ cs, 0 ≤ s.pos.y) (h : placeData primes [] cs = .ok (ds.map (·.bare))) :
    (ds.map fun d => (d.list, d.cell)).Nodup := by
  have hstrands : ds.map (·.strand) = cs := by
    rw [← placeData_strand h, List.map_map]
    rfl
  rw [List.Nodup, List.pairwise_map, List.pairwise_iff_getElem]
  intro i j hi hj hij heq
  obtain ⟨hlist, hcell⟩ := Prod.mk.inj heq
  obtain ⟨hli, -, hci⟩ := placed_getElem h hi
  obtain ⟨hlj, -, hcj⟩ := placed_getElem h hj
  -- One list is one row, since no number stands twice in the table.
  have hrow : ds[i].strand.pos.y = ds[j].strand.pos.y := by
    obtain ⟨p, hp, hpi⟩ := getElem?_of_number hli
    obtain ⟨p', hp', hpj⟩ := getElem?_of_number hlj
    obtain rfl : p = p' := Int.ofNat.inj (hpi.symm.trans (hlist.trans hpj))
    obtain ⟨hlt, -⟩ := List.getElem?_eq_some_iff.mp hp
    have hy := (List.getElem?_inj hlt hprimes).mp (hp.trans hp'.symm)
    have h0 : ∀ k (hk : k < ds.length), 0 ≤ ds[k].strand.pos.y := fun k hk =>
      hpos _ (hstrands ▸ List.mem_map_of_mem (List.getElem_mem hk))
    have := h0 i hi
    have := h0 j hj
    omega
  -- The token at `i` is one more on this row before `j`.
  have hlt : (ds.take i).countP (fun e => e.strand.pos.y == ds[i].strand.pos.y) <
      (ds.take j).countP fun e => e.strand.pos.y == ds[j].strand.pos.y := by
    have hsub : ((ds.take i) ++ [ds[i]]).Sublist (ds.take j) := by
      rw [List.take_append_getElem]
      exact (List.take_prefix_take_left (by omega)).sublist
    have hle : ((ds.take i) ++ [ds[i]]).countP (fun e => e.strand.pos.y == ds[j].strand.pos.y) ≤
        (ds.take j).countP fun e => e.strand.pos.y == ds[j].strand.pos.y := hsub.countP_le
    rw [List.countP_append, List.countP_singleton, hrow, beq_self_eq_true, if_pos rfl] at hle
    rw [hrow]
    omega
  omega

theorem cell_of_placed (hss : ss.Pairwise fun a b => a.pos ≠ b.pos)
    (h : placeData primes [] (byColumn .data ss) = .ok (ds.map (·.bare))) {d : DataToken}
    (hd : d ∈ ds) : d.cell = ss.countP fun s =>
      s.hook.kind == .data && s.pos.y == d.strand.pos.y && s.pos.x < d.strand.pos.x := by
  obtain ⟨i, hi, rfl⟩ := List.getElem_of_mem hd
  obtain ⟨-, -, hcell⟩ := placed_getElem h hi
  have hstrands : ds.map (·.strand) = byColumn .data ss := by
    rw [← placeData_strand h, List.map_map]
    rfl
  have hsplit : (ds.take i).map (·.strand) ++ ds[i].strand :: (ds.drop (i + 1)).map (·.strand) =
      byColumn .data ss := by
    rw [← hstrands, ← List.map_cons, ← List.map_append, List.getElem_cons_drop,
      List.take_append_drop]
  have hcols := byColumn_columnBefore .data hss
  rw [← hsplit] at hcols
  have hcount := countP_before hcols
  rw [List.countP_map, hsplit, countP_byColumn] at hcount
  rw [hcell]
  refine hcount.trans (List.countP_congr fun a _ => ?_)
  rw [Bool.and_assoc]

/-- The cell of a token also counts the tokens before it on its row. -/
theorem cell_eq_before {q : Option QuestionToken} {pre post : List DataToken} {d : DataToken}
    (h : Arranged primes ss (pre ++ d :: post) q) :
    d.cell = pre.countP fun e => e.strand.pos.y == d.strand.pos.y := by
  have hcols : ((pre ++ d :: post).map (·.strand)).Pairwise fun a b => a.pos.ColumnBefore b.pos :=
    List.pairwise_map.mpr h.columns
  rw [List.map_append, List.map_cons] at hcols
  have hcount := countP_before hcols
  rw [List.countP_map, ← List.map_cons, ← List.map_append, h.data.countP_eq,
    List.countP_filter] at hcount
  rw [h.cell d (by simp)]
  refine Eq.trans (List.countP_congr fun a _ => ?_) hcount.symm
  simp only [Bool.and_eq_true]
  tauto

/-- **A successful arrangement loses and doubles nothing.** -/
theorem of_tokens {g : Nat} {ts : List Token} (hprimes : primes.Nodup)
    (hss : ss.Pairwise fun a b => a.pos ≠ b.pos) (hpos : ∀ s ∈ ss, 0 ≤ s.pos.y)
    (h : tokens g primes ss = .ok ts) :
    ∃ ds q, ts = ds.map .data ++ q.toList.map .question ∧ Arranged primes ss ds q := by
  obtain ⟨ds, q, rfl, hds, hqs, hq⟩ := tokens_eq_ok h
  have hstrands : ds.map (·.strand) = byColumn .data ss := by
    rw [← placeData_strand hds, List.map_map]
    rfl
  have hmem : ∀ s ∈ byColumn .data ss, 0 ≤ s.pos.y := fun s hs =>
    hpos s (List.mem_of_mem_filter ((byColumn_perm .data ss).subset hs))
  have horder : ds.map (·.order) = List.range ds.length := by
    refine List.ext_getElem (by simp) fun i h₁ _ => ?_
    rw [List.getElem_map, List.getElem_range]
    exact (placed_getElem hds (by simpa using h₁)).2.1
  refine ⟨ds, q, rfl, ?_⟩
  constructor
  case data => rw [hstrands]; exact byColumn_perm .data ss
  case columns =>
    have := byColumn_columnBefore .data hss
    rwa [← hstrands, List.pairwise_map] at this
  case questions => rw [← hqs]; exact questions_perm ss
  case order =>
    have hdata : (ds.map Token.data).map Token.order = List.range ds.length := by
      rw [List.map_map]
      exact horder
    rw [List.map_append, hdata]
    cases q with
    | none => simp
    | some t =>
      have := hq t rfl
      simp [Token.order, this, List.range_succ]
  case list =>
    intro d hd
    obtain ⟨i, hi, rfl⟩ := List.getElem_of_mem hd
    obtain ⟨p, hp, hn⟩ := getElem?_of_number (placed_getElem hds hi).1
    rw [hp, hn]
    rfl
  case cell => exact fun d hd => cell_of_placed hss hds hd
  case distinct => exact distinct_of_placed hprimes hmem hds

/-- The strands of a glyph that is read are arranged. -/
theorem of_strands {limit i : Nat} {grids : List Grid} {g : Grid} {ts : List Token}
    (hprimes : Primes.ofGrids grids = .ok primes) (hss : g.strands limit primes = .ok ss)
    (h : tokens i primes ss = .ok ts) :
    ∃ ds q, ts = ds.map .data ++ q.toList.map .question ∧ Arranged primes ss ds q :=
  of_tokens (Primes.ofGrids_nodup hprimes) ((Grid.strands_readsBefore hss).imp fun hab => hab.ne)
    (fun _ hs => (Grid.strands_pos hss hs).2.1) h

end Arranged

/-- **Every glyph of a program is arranged**: its tokens are its data strands, each once and by
columns, and then the question if its question strands are two. -/
theorem parse_arranged (limit : Nat) (text : String) (gs : List Glyph)
    (h : Program.parseWithin limit text = .ok gs) :
    ∃ primes, Primes.ofGrids (gs.map (·.rows)) = .ok primes ∧ ∀ g ∈ gs, ∃ ss ds q,
      g.rows.strands limit primes = .ok ss ∧
      g.tokens = ds.map .data ++ q.toList.map .question ∧ Arranged primes ss ds q := by
  obtain ⟨-, -, primes, -, -, -, hprimes, htokens⟩ := Program.parseGrid_eq_ok h
  refine ⟨primes, hprimes, fun g hg => ?_⟩
  obtain ⟨i, ss, hss, ht⟩ := htokens g hg
  obtain ⟨ds, q, hts, harr⟩ := Arranged.of_strands hprimes hss ht
  exact ⟨ss, ds, q, hss, hts, harr⟩

/-- Three data strands, two of them on one row, around a question. -/
def arrangedDrawing : String := "╵ ╰─ ╷ ╰─\n  ╰─ │\n     ╷\n     │   ╷"

/-- The tokens go by columns: the strand of the second row comes between the two of the first, which
write to cells `0` and `1` of list `1`, and the question comes last. -/
theorem parse_arranged_drawing : ∃ gs, Program.parseWithin nestingLimit arrangedDrawing = .ok gs ∧
    ∃ primes, Primes.ofGrids (gs.map (·.rows)) = .ok primes ∧ gs.length = 1 ∧ ∀ g ∈ gs,
      g.tokens.map (fun t => (t.step.list, t.step.cell, t.order)) =
        [(some 1, some 0, 0), (some 2, some 0, 1), (some 1, some 1, 2), (none, none, 3)] ∧
      ∃ ss ds q, g.rows.strands nestingLimit primes = .ok ss ∧
        g.tokens = ds.map .data ++ q.toList.map .question ∧ Arranged primes ss ds q := by
  have key : ((Program.parseWithin nestingLimit arrangedDrawing).toOption.map fun gs =>
      gs.map fun g => g.tokens.map fun t => (t.step.list, t.step.cell, t.order)) =
      some [[(some 1, some 0, 0), (some 2, some 0, 1), (some 1, some 1, 2), (none, none, 3)]] := by
    cbv
  obtain ⟨gs, hgs, key⟩ := Option.map_eq_some_iff.mp key
  have hparse := Outcome.toOption_eq_some.mp hgs
  obtain ⟨primes, hprimes, harranged⟩ := parse_arranged nestingLimit arrangedDrawing gs hparse
  refine ⟨gs, hparse, primes, hprimes, ?_, fun g hg => ⟨?_, harranged g hg⟩⟩
  · simpa using congrArg List.length key
  · have hfields : g.tokens.map _ ∈ gs.map fun g => g.tokens.map fun t =>
        (t.step.list, t.step.cell, t.order) := List.mem_map_of_mem hg
    rwa [key, List.mem_singleton] at hfields

end StrandScript
