import StrandScript.Proofs.TokenFields

/-!
# Actions and their data strands

The action strands of a column are given to its data strands from the top, each to the data strand
that has as many data strands above it as the action has actions (`InOrder`). The leftmost column is
counted from one instead of from zero: there the first action goes to the second data strand, and
the first data strand has none (`actions_inOrder`).

* `Strand.above`: how many strands of a kind begin above a place, in its column.
* `Arrangement.mem_ranks_iff`: the rank that an action strand is given.
* `Arrangement.action_eq_some_iff`: which action a data token has.
-/

namespace StrandScript

/-! ## Strands above a place -/

/-- The number of strands of a kind that begin above a place, in its column. -/
def Strand.above (k : Kind) (ss : List Strand) (p : Pos) : Nat :=
  ss.countP fun s => s.hook.kind == k && s.pos.x == p.x && s.pos.y < p.y

namespace Strand

variable {k : Kind} {ss : List Strand}

/-- A strand has fewer strands above it than any place below it. -/
theorem above_lt {s : Strand} (hs : s ∈ ss) (hkind : s.hook.kind = k) {p : Pos} (hx : s.pos.x = p.x)
    (hy : s.pos.y < p.y) : above k ss s.pos < above k ss p := by
  obtain ⟨pre, post, rfl⟩ := List.append_of_mem hs
  have hle : ∀ ts : List Strand,
      (ts.countP fun t => t.hook.kind == k && t.pos.x == s.pos.x && decide (t.pos.y < s.pos.y)) ≤
        ts.countP fun t => t.hook.kind == k && t.pos.x == p.x && decide (t.pos.y < p.y) := by
    refine fun ts => List.countP_mono_left fun t _ ht => ?_
    simp only [Bool.and_eq_true, beq_iff_eq, decide_eq_true_eq] at ht ⊢
    exact ⟨⟨ht.1.1, ht.1.2.trans hx⟩, by omega⟩
  have hpre := hle pre
  have hpost := hle post
  unfold above
  simp only [List.countP_append, List.countP_cons, hkind, hx, hy, beq_self_eq_true, Bool.and_self,
    decide_true, Int.lt_irrefl, decide_false, Bool.and_false, if_true, Bool.false_eq_true,
    if_false] at hpre hpost ⊢
  omega

/-- Strands of a kind that begin in different places of a column have different numbers of such
strands above them. -/
theorem eq_of_above_eq (hss : ss.Pairwise fun a b => a.pos ≠ b.pos) {s t : Strand} (hs : s ∈ ss)
    (ht : t ∈ ss) (hkind : s.hook.kind = k) (hkind' : t.hook.kind = k) (hx : s.pos.x = t.pos.x)
    (h : above k ss s.pos = above k ss t.pos) : s = t := by
  have hnodup : (ss.map (·.pos)).Nodup := List.pairwise_map.mpr hss
  have hy : s.pos.y = t.pos.y := by
    rcases lt_trichotomy s.pos.y t.pos.y with hlt | heq | hlt
    · exact absurd h (above_lt hs hkind hx hlt).ne
    · exact heq
    · exact absurd h (above_lt ht hkind' hx.symm hlt).ne'
  refine List.inj_on_of_nodup_map hnodup hs ht ?_
  exact congrArg₂ Pos.mk hx hy

/-- A column with a strand of a kind has a topmost one. -/
theorem exists_top {s : Strand} (hs : s ∈ ss) (hkind : s.hook.kind = k) :
    ∃ t ∈ ss, t.hook.kind = k ∧ t.pos.x = s.pos.x ∧ above k ss t.pos = 0 := by
  induction hn : above k ss s.pos using Nat.strong_induction_on generalizing s with
  | _ n ih =>
    rcases Nat.eq_zero_or_pos n with rfl | hpos
    · exact ⟨s, hs, hkind, rfl, hn⟩
    · obtain ⟨t, ht, habove⟩ := List.countP_pos_iff.mp (hn ▸ hpos)
      simp only [Bool.and_eq_true, beq_iff_eq, decide_eq_true_eq] at habove
      obtain ⟨⟨hkind', hx⟩, hy⟩ := habove
      obtain ⟨u, hu, hkind'', hx', hzero⟩ := ih _ (hn ▸ above_lt ht hkind' hx hy) ht hkind' rfl
      exact ⟨u, hu, hkind'', hx'.trans hx, hzero⟩

end Strand

namespace Arrangement

open Strand

variable {primes : List Nat} {ss : List Strand}

/-- Among strands in column order, those before one of them in its column are those above it. -/
theorem countP_above {k : Kind} (hss : ss.Pairwise fun a b => a.pos ≠ b.pos)
    {pre post : List Strand} {s : Strand} (h : byColumn k ss = pre ++ s :: post) :
    (pre.countP fun a => a.pos.x == s.pos.x) = above k ss s.pos := by
  have hcolumns := byColumn_columnBefore k hss
  rw [h, List.pairwise_append, List.pairwise_cons] at hcolumns
  obtain ⟨-, ⟨hpost, -⟩, hpre⟩ := hcolumns
  have hsplit : (pre.countP fun a => a.pos.x == s.pos.x) =
      (pre ++ s :: post).countP fun a => a.pos.x == s.pos.x && decide (a.pos.y < s.pos.y) := by
    refine Arranged.countP_split (fun a ha hx => ?_)
      (List.forall_mem_cons.mpr ⟨by simp, fun a ha hx => ?_⟩)
    · have := hpre a ha s List.mem_cons_self
      simp only [Pos.ColumnBefore, beq_iff_eq, decide_eq_true_eq] at this hx ⊢
      omega
    · have := hpost a ha
      simp only [Pos.ColumnBefore, beq_iff_eq, decide_eq_true_eq] at this hx ⊢
      omega
  rw [hsplit, ← h, countP_byColumn, above]
  exact List.countP_congr fun a _ => by rw [Bool.and_assoc]

/-! ## Ranks -/

/-- The rank of a strand counts the strands before it in its column, and in the column where
counting begins also those that were counted there before. -/
theorem mem_ranks_iff {as : List Strand} (hsorted : as.Pairwise fun a b => a.pos.x ≤ b.pos.x)
    {column : Int} (hcolumn : ∀ a ∈ as, column ≤ a.pos.x) {n k : Nat} {a : Strand} :
    (a, k) ∈ ranks column n as ↔ ∃ pre post, as = pre ++ a :: post ∧
      k = (pre.countP fun b => b.pos.x == a.pos.x) + if a.pos.x = column then n + 1 else 0 := by
  induction as generalizing column n k with
  | nil => simp [ranks]
  | cons s as ih =>
    rw [List.pairwise_cons] at hsorted
    rw [List.forall_mem_cons] at hcolumn
    -- A strand of another column lies beyond both the first strand and the column before it.
    have hcount : ∀ b ∈ as, ∀ pre : List Strand,
        ((s :: pre).countP fun c => c.pos.x == b.pos.x) + (if b.pos.x = column then n + 1 else 0) =
          (pre.countP fun c => c.pos.x == b.pos.x) +
            if b.pos.x = s.pos.x then (if s.pos.x = column then n + 1 else 0) + 1 else 0 := by
      intro b hb pre
      have := hsorted.1 b hb
      have := hcolumn.1
      rw [List.countP_cons]
      simp only [beq_iff_eq]
      grind
    rw [ranks, List.mem_cons, ih hsorted.2 hsorted.1, Prod.mk.injEq]
    constructor
    · rintro (⟨rfl, rfl⟩ | ⟨pre, post, rfl, rfl⟩)
      · exact ⟨[], as, rfl, by simp⟩
      · exact ⟨s :: pre, post, rfl, (hcount a (by simp) pre).symm⟩
    · rintro ⟨pre, post, hsplit, rfl⟩
      cases pre with
      | nil =>
        obtain ⟨rfl, rfl⟩ := List.cons.inj hsplit
        exact .inl ⟨rfl, by simp⟩
      | cons s' pre =>
        obtain ⟨rfl, rfl⟩ := List.cons.inj hsplit
        exact .inr ⟨pre, post, rfl, hcount a (by simp) pre⟩

/-- What is added to the rank of the actions in a column: counting begins in column zero, with
one. -/
def lead (x : Int) : Nat := if x = 0 then 1 else 0

/-- **The rank of an action strand** is the number of actions above it; in column zero it is one
more. -/
theorem mem_ranks_byColumn (hss : ss.Pairwise fun a b => a.pos ≠ b.pos)
    (hpos : ∀ s ∈ ss, 0 ≤ s.pos.x) {a : Strand} {k : Nat} :
    (a, k) ∈ ranks 0 0 (byColumn .action ss) ↔
      a ∈ ss ∧ a.hook.kind = .action ∧ k = above .action ss a.pos + lead a.pos.x := by
  have hsorted : (byColumn .action ss).Pairwise fun a b => a.pos.x ≤ b.pos.x := by
    refine (byColumn_columnBefore .action hss).imp fun {a b} hab => ?_
    unfold Pos.ColumnBefore at hab
    omega
  rw [mem_ranks_iff hsorted fun b hb => hpos b (mem_byColumn.mp hb).1, ← and_assoc, ← mem_byColumn]
  constructor
  · rintro ⟨pre, post, hsplit, rfl⟩
    exact ⟨by rw [hsplit]; simp, by rw [countP_above hss hsplit]; rfl⟩
  · rintro ⟨ha, rfl⟩
    obtain ⟨pre, post, hsplit⟩ := List.append_of_mem ha
    exact ⟨pre, post, hsplit, by rw [countP_above hss hsplit]; rfl⟩

/-! ## Attaching -/

/-- A data token is looked up an action by its column and the number of tokens before it there. -/
theorem exists_split_of_mem_attach {actions : List (Strand × Nat)} {seen : List Int}
    {ds : List DataToken} {d : DataToken} (h : d ∈ attach actions seen ds) :
    ∃ pre e post, ds = pre ++ e :: post ∧ d.strand = e.strand ∧
      d.action = (actions.find? fun (a, k) => a.pos.x == d.strand.pos.x &&
        k == seen.count d.strand.pos.x +
          pre.countP fun c => c.strand.pos.x == d.strand.pos.x).map (·.1) := by
  induction ds generalizing seen with
  | nil => cases h
  | cons e ds ih =>
    rcases List.mem_cons.mp h with rfl | h
    · exact ⟨[], e, ds, rfl, rfl, rfl⟩
    · obtain ⟨pre, e', post, rfl, hstrand, haction⟩ := ih h
      refine ⟨e :: pre, e', post, rfl, hstrand, ?_⟩
      rw [haction, List.count_cons, List.countP_cons]
      simp only [Nat.add_assoc, Nat.add_comm]

/-- The data tokens of an arranged glyph have its data strands, by columns. -/
theorem strand_of_withRefs {ds₀ ds₁ : List DataToken} {question : Option Pos}
    (hplace : placeData primes [] (byColumn .data ss) = .ok ds₀)
    (hrefs : withRefs primes ds₀ question = .ok ds₁) : ds₁.map (·.strand) = byColumn .data ss := by
  have hbare := (withRefs_bare hrefs).trans (placeData_bare hplace)
  rw [← placeData_strand hplace, ← hbare, List.map_map]
  rfl

/-- **The action of a data token**: the action strand of its column that has as many actions above
it as the token has data strands, or one less in column zero. -/
theorem action_eq_some_iff (hss : ss.Pairwise fun a b => a.pos ≠ b.pos)
    (hpos : ∀ s ∈ ss, 0 ≤ s.pos.x) {i : Nat} {ts : List Token} (h : tokens i primes ss = .ok ts)
    {d : DataToken} (hd : Token.data d ∈ ts) {a : Strand} :
    d.action = some a ↔ a ∈ ss ∧ a.hook.kind = .action ∧ a.pos.x = d.strand.pos.x ∧
      above .action ss a.pos + lead a.pos.x = above .data ss d.strand.pos := by
  obtain ⟨ds₀, question, ds₁, hplace, hrefs, hmem⟩ := mem_attach_of_tokens h hd
  obtain ⟨pre, e, post, rfl, hstrand, haction⟩ := exists_split_of_mem_attach hmem
  have hcount : (pre.countP fun c => c.strand.pos.x == d.strand.pos.x) =
      above .data ss d.strand.pos := by
    have hsplit := strand_of_withRefs hplace hrefs
    rw [List.map_append, List.map_cons, ← hstrand] at hsplit
    rw [← countP_above hss hsplit.symm, List.countP_map]
    rfl
  rw [haction, hcount, List.count_nil, Nat.zero_add, Option.map_eq_some_iff]
  constructor
  · rintro ⟨⟨b, k⟩, hfind, rfl⟩
    have hrank := List.find?_some hfind
    simp only [Bool.and_eq_true, beq_iff_eq] at hrank
    obtain ⟨hb, hkind, rfl⟩ := (mem_ranks_byColumn hss hpos).mp (List.mem_of_find?_eq_some hfind)
    exact ⟨hb, hkind, hrank.1, hrank.2⟩
  · rintro ⟨ha, hkind, hx, hrank⟩
    -- Some action is found, and no other one of the column has this rank.
    have hfound : ((ranks 0 0 (byColumn .action ss)).find? fun (b, k) =>
        b.pos.x == d.strand.pos.x && k == above .data ss d.strand.pos).isSome := by
      rw [List.find?_isSome]
      refine ⟨_, (mem_ranks_byColumn hss hpos).mpr ⟨ha, hkind, rfl⟩, ?_⟩
      simp only [hx, ← hrank, beq_self_eq_true, Bool.and_self]
    obtain ⟨⟨b, k⟩, hfind⟩ := Option.isSome_iff_exists.mp hfound
    have hrank' := List.find?_some hfind
    simp only [Bool.and_eq_true, beq_iff_eq] at hrank'
    obtain ⟨hb, hkind', rfl⟩ := (mem_ranks_byColumn hss hpos).mp (List.mem_of_find?_eq_some hfind)
    have hcolumn : b.pos.x = a.pos.x := hrank'.1.trans hx.symm
    have habove : above .action ss b.pos = above .action ss a.pos := by
      have := hrank'.2.trans hrank.symm
      rw [hcolumn] at this
      omega
    exact ⟨_, hfind, eq_of_above_eq hss hb ha hkind' hkind hcolumn habove⟩

end Arrangement

/-! ## Columns in order -/

/-- The actions of column `x` go to its data strands from the top, the first of them to the data
strand that has `k` others above it; and no data strand of the column has any other action. -/
def InOrder (ss : List Strand) (ts : List Token) (x : Int) (k : Nat) : Prop :=
  ∀ d, Token.data d ∈ ts → d.strand.pos.x = x → ∀ a, d.action = some a ↔
    a ∈ ss ∧ a.hook.kind = .action ∧ a.pos.x = x ∧
      Strand.above .action ss a.pos + k = Strand.above .data ss d.strand.pos

open Arrangement in
/-- **Actions go to the data strands of their column in order**, in every column but the leftmost
one. In column zero they are one data strand late, so there they are in order only if the column has
no action strand or no data strand. (The data tokens are those of the data strands.) -/
theorem actions_inOrder (limit : Nat) (primes : List Nat) (g : Grid) (ss : List Strand)
    (hss : g.strands limit primes = .ok ss) (i : Nat) (ts : List Token)
    (h : tokens i primes ss = .ok ts) :
    (∀ s, (∃ d, Token.data d ∈ ts ∧ d.strand = s) ↔ s ∈ ss ∧ s.hook.kind = .data) ∧
    (∀ x ≠ 0, InOrder ss ts x 0) ∧ InOrder ss ts 0 1 ∧
    (InOrder ss ts 0 0 ↔ (∀ a ∈ ss, a.hook.kind = .action → a.pos.x ≠ 0) ∨
      ∀ s ∈ ss, s.hook.kind = .data → s.pos.x ≠ 0) := by
  have hplaces : ss.Pairwise fun a b => a.pos ≠ b.pos :=
    (Grid.strands_readsBefore hss).imp fun hab => hab.ne
  have haction := fun d (hd : Token.data d ∈ ts) (a : Strand) => action_eq_some_iff (a := a) hplaces
    (fun s hs => (Grid.strands_pos hss hs).1) h hd
  have horder : ∀ x, InOrder ss ts x (lead x) := by
    rintro x d hd rfl a
    rw [haction d hd a]
    refine and_congr_right fun _ => and_congr_right fun _ => and_congr_right fun hx => ?_
    rw [hx]
  refine ⟨fun s => exists_data_iff h, fun x hx => ?_, horder 0, fun hzero => ?_, ?_⟩
  · have hlead : lead x = 0 := if_neg hx
    exact hlead ▸ horder x
  · by_contra! hboth
    obtain ⟨⟨a, ha, hkind, hx⟩, s, hs, hkind', hx'⟩ := hboth
    -- The topmost action of column zero cannot be due to the topmost data strand and to the next
    -- one.
    obtain ⟨b, hb, hbkind, hbx, hbtop⟩ := Strand.exists_top ha hkind
    obtain ⟨t, ht, htkind, htx, httop⟩ := Strand.exists_top hs hkind'
    obtain ⟨d, hd, rfl⟩ := (exists_data_iff h).mpr ⟨ht, htkind⟩
    have hact : d.action = some b :=
      (hzero d hd (htx.trans hx') b).mpr ⟨hb, hbkind, hbx.trans hx, by rw [hbtop, httop]⟩
    obtain ⟨-, -, -, hlate⟩ := (horder 0 d hd (htx.trans hx') b).mp hact
    rw [hbtop, httop] at hlate
    cases hlate
  · rintro (hnone | hnone) d hd hx a
    · refine iff_of_false (fun hact => ?_) fun hact => hnone a hact.1 hact.2.1 hact.2.2.1
      obtain ⟨ha, hkind, hcolumn, -⟩ := (horder 0 d hd hx a).mp hact
      exact hnone a ha hkind hcolumn
    · obtain ⟨hs, hkind⟩ := (exists_data_iff h).mp ⟨d, hd, rfl⟩
      exact absurd hx (hnone d.strand hs hkind)

/-- Two columns with an action each; the leftmost one has two data strands. -/
def columnsDrawing : Grid := ["╰─ ╰─".toList, "╭  ╭".toList, "│  │".toList, [], "╰─".toList]

/-- The action in column three goes to the data strand there. The one in column zero goes to the
second data strand, where in order it would have gone to the first. -/
theorem actions_inOrder_columns :
    ∃ ss ts, columnsDrawing.strands nestingLimit [1, 2, 3, 5, 7] = .ok ss ∧
    Arrangement.tokens 0 [1, 2, 3, 5, 7] ss = .ok ts ∧
    InOrder ss ts 3 0 ∧ InOrder ss ts 0 1 ∧ ¬ InOrder ss ts 0 0 := by
  have hread : (columnsDrawing.strands nestingLimit [1, 2, 3, 5, 7]).bind (fun ss =>
      (Arrangement.tokens 0 [1, 2, 3, 5, 7] ss).map fun _ => ss.map fun s => (s.hook.kind, s.pos)) =
      .ok [(.data, ⟨0, 0⟩), (.data, ⟨3, 0⟩), (.action, ⟨0, 1⟩), (.action, ⟨3, 1⟩),
        (.data, ⟨0, 4⟩)] := by
    cbv
  obtain ⟨ss, hss, hread⟩ := Outcome.bind_eq_ok.mp hread
  obtain ⟨ts, hts, hplaces⟩ := Outcome.map_eq_ok.mp hread
  have hmem : ∀ k p, (k, p) ∈ ss.map (fun s => (s.hook.kind, s.pos)) →
      ∃ s ∈ ss, s.hook.kind = k ∧ s.pos = p := fun k p h => by
    simpa only [List.mem_map, Prod.mk.injEq] using h
  obtain ⟨a, ha, hkind, hapos⟩ := hmem .action ⟨0, 1⟩ (by rw [hplaces]; decide)
  obtain ⟨s, hs, hkind', hspos⟩ := hmem .data ⟨0, 0⟩ (by rw [hplaces]; decide)
  obtain ⟨-, hother, hzero, hiff⟩ := actions_inOrder nestingLimit _ columnsDrawing ss hss 0 ts hts
  refine ⟨ss, ts, hss, hts, hother 3 (by decide), hzero, fun h => ?_⟩
  rcases hiff.mp h with hnone | hnone
  · exact hnone a ha hkind (by rw [hapos])
  · exact hnone s hs hkind' (by rw [hspos])

/-- An action strand above a data strand, both in the leftmost column. -/
def lateDrawing : Grid := ["│".toList, "╰".toList, "╰─".toList]

/-- The only data strand of column zero does not get the only action there. -/
theorem actions_late : ∃ ss ts, lateDrawing.strands nestingLimit [1, 2, 3] = .ok ss ∧
    Arrangement.tokens 0 [1, 2, 3] ss = .ok ts ∧ ¬ InOrder ss ts 0 0 := by
  let a : Strand :=
    ⟨⟨.upRight, ⟨0, 1⟩, .up, .action⟩, [⟨'│', ⟨0, 0⟩, none⟩], .act (-1) .subtract .element⟩
  let s : Strand := ⟨⟨.upRight, ⟨0, 2⟩, .right, .data⟩, [⟨'─', ⟨1, 2⟩, none⟩], .value (some 3)⟩
  let d : DataToken := ⟨s, 3, 0, 0, none, none⟩
  refine ⟨[a, s], [.data d], by decide +kernel, by cbv, fun h => ?_⟩
  have hact : d.action = some a := (h d List.mem_cons_self rfl a).mpr (by decide)
  cases hact

end StrandScript
