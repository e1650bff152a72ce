import StrandScript.Proofs.Arrangement
import StrandScript.Proofs.Turns
import StrandScript.Proofs.WriteFaults

/-!
# Writes that stay in range

The cells of a row are numbered in the order in which the tokens of a glyph run, and a token adds
its cell to the list if the list ends just before it. So a list has at least as many cells as tokens
of its row have had their turn, from whatever store the glyph was begun on, as long as no cell has
been taken out (`Turn.Chained.countP_le_size`). No list gets shorter but by popping. Hence every
write of a program's run finds its place, until a cell is removed (`Program.writes_in_range`).

* `Turn.removes`: whether a turn takes a cell out of a list.
-/

namespace StrandScript

namespace Turn

/-- Whether a turn takes a cell out of a list: its step pops, and comes to its end. -/
def removes (t : Turn) : Bool :=
  t.token.step.pops && match t.result with
    | .ok _ _ => true
    | .error _ _ => false

variable {t : Turn} {d : DataToken}

/-- A turn that takes no cell out makes no list shorter. -/
theorem grows (h : t.removes = false) : t.store.GrowsTo t.left := by
  cases hresult : t.result with
  | error f u =>
    rw [left_of_error hresult]
    exact Step.perform_failsGrown t.before t.token.step t.store f u hresult
  | ok a u =>
    rw [removes, hresult, Bool.and_true] at h
    exact Step.perform_grows t.before h t.store

/-- A data token whose list has cells up to the one that it writes to has that cell in it
afterwards. -/
theorem lt_size (ht : t.token = .data d) (hd : d.step = d.assignment.step) {a : Answer} {u : Store}
    (hresult : t.result = .ok a u) (hremoves : t.removes = false) {xs : List Value}
    (hget : t.store.get? d.list = some xs) (hcell : d.cell ≤ xs.length) :
    d.cell < t.left.size d.list := by
  have hstep : t.token.step = d.assignment.step := by rw [ht, Token.step, hd]
  have hpops : d.assignment.step.pops = false := by
    rw [removes, hresult, Bool.and_true, hstep] at hremoves
    exact hremoves
  rw [left_of_ok hresult]
  rw [result, hstep] at hresult
  exact Assignment.lt_size_of_write hget hcell hpops (Step.write_of_perform rfl hresult)

/-- A data token whose list has cells up to the one that it writes to finds all places. -/
theorem ne_outOfRange (ht : t.token = .data d)
    (hd : d.step = d.assignment.step ∧ d.assignment.Drawn) {xs : List Value}
    (hget : t.store.get? d.list = some xs) (hcell : d.cell ≤ xs.length) (u : Store) :
    t.result ≠ .error .outOfRange u := by
  have hstep : t.token.step = d.assignment.step := by rw [ht, Token.step, hd.1]
  rw [result, hstep, ne_eq, Step.perform_eq_error rfl]
  exact Assignment.write_ne_outOfRange hd.2 hget hcell

end Turn

/-! ## The tokens of a glyph -/

section Glyph

variable {primes : List Nat} {ss : List Strand} {ds : List DataToken} {q : Option QuestionToken}

/-- Two tokens of one row have one list. -/
theorem Arranged.list_eq (h : Arranged primes ss ds q) {d e : DataToken} (hd : d ∈ ds) (he : e ∈ ds)
    (hrow : d.strand.pos.y = e.strand.pos.y) : d.list = e.list := by
  have hlist := h.list d hd
  rw [hrow, h.list e he] at hlist
  exact (Option.some.inj hlist).symm

/-- **Every list has a cell for each token of its row that has had its turn**, if no cell has been
taken out. The induction is on these tokens, the last of them being the step. -/
theorem Turn.Chained.countP_le_size (harr : Arranged primes ss ds q) {N : List Int}
    (hds : ∀ d ∈ ds, d.step = d.assignment.step ∧ d.list ∈ N) {pre post : List DataToken}
    (hsplit : ds = pre ++ post) {ts : List Turn} (hts : ts.map (·.token) = pre.map .data)
    {s u : Store}
    (hs : s.numbers = N) (h : Turn.Chained s ts u)
    (hok : ∀ t ∈ ts, (∃ a v, t.result = .ok a v) ∧ t.removes = false) {e : DataToken}
    (he : e ∈ ds) :
    pre.countP (fun d => d.strand.pos.y == e.strand.pos.y) ≤ u.size e.list := by
  induction pre using List.reverseRecOn generalizing post ts u e with
  | nil => simp
  | append_singleton pre d ih =>
    rw [List.map_append, List.map_singleton] at hts
    obtain ⟨ts, last, rfl, hts', hlast⟩ := List.map_eq_append_iff.mp hts
    obtain ⟨t, rfl, ht⟩ := List.map_eq_singleton_iff.mp hlast
    rw [List.forall_mem_append, List.forall_mem_singleton] at hok
    obtain ⟨hok, ⟨a, v, hresult⟩, hremoves⟩ := hok
    obtain ⟨_, hbefore, rfl, rfl⟩ := Turn.chained_append.mp h
    rw [List.append_assoc] at hsplit
    have ih {e : DataToken} (he : e ∈ ds) := ih hsplit hts' hbefore hok he
    have hd : d ∈ ds := by simp [hsplit]
    have hcell : d.cell = pre.countP fun e => e.strand.pos.y == d.strand.pos.y :=
      Arranged.cell_eq_before (hsplit ▸ harr)
    obtain ⟨xs, hxs⟩ := Machine.get?_of_mem (s := t.store) (n := d.list)
      (by rw [hbefore.numbers, hs]; exact (hds d hd).2)
    have hlt : d.cell < t.left.size d.list := by
      refine Turn.lt_size ht (hds d hd).1 hresult hremoves hxs ?_
      rw [hcell, ← Store.size_of_get? hxs]
      exact ih hd
    rw [List.countP_append, List.countP_singleton]
    by_cases hrow : d.strand.pos.y = e.strand.pos.y
    · rw [hrow] at hcell
      rw [← harr.list_eq hd he hrow, hrow, beq_self_eq_true, if_pos rfl, ← hcell]
      exact hlt
    · rw [beq_false_of_ne hrow, if_neg Bool.false_ne_true]
      exact (ih he).trans (Turn.grows hremoves e.list)

/-- The tokens before a data token are data tokens, since a question comes last. -/
theorem exists_split_of_tokens {ts ts' : List Token} {d : DataToken}
    (h : ts ++ .data d :: ts' = ds.map .data ++ q.toList.map .question) :
    ∃ pre post, ds = pre ++ d :: post ∧ ts = pre.map .data := by
  have hnot : ∀ {mid rest : List Token}, mid ++ .data d :: rest ≠ q.toList.map .question := by
    intro mid rest heq
    have hmem : Token.data d ∈ q.toList.map Token.question := by
      rw [← heq]
      exact List.mem_append_right _ List.mem_cons_self
    obtain ⟨_, -, hd⟩ := List.mem_map.mp hmem
    cases hd
  obtain ⟨mid, hmid, hrest⟩ | ⟨mid, -, hrest⟩ := List.append_eq_append_iff.mp h
  · cases mid with
    | nil => exact absurd hrest (@hnot [] ts')
    | cons t mid =>
      obtain ⟨rfl, -⟩ := List.cons.inj hrest
      obtain ⟨pre, later, rfl, rfl, hlater⟩ := List.map_eq_append_iff.mp hmid
      obtain ⟨d', post, rfl, hd', -⟩ := List.map_eq_cons_iff.mp hlater
      cases hd'
      exact ⟨pre, post, rfl, rfl⟩
  · exact absurd hrest.symm hnot

end Glyph

/-! ## Runs -/

namespace Program

/-- **Writes stay in range until a cell is removed.** Take any turn of the run of an accepted
program, loops and nested blocks included, such that no turn before it has taken a cell out of a
list. Since each of these turns no list has got shorter, and none gets shorter by this turn, unless
it takes a cell out itself. If it is the turn of a data token, then the list of the token is there
and has at least as many cells as the number of the cell that is written to, and no place is out of
range. -/
theorem writes_in_range (limit depth : Nat) (text : String) (gs : List Glyph)
    (h : parseWithin limit text = .ok gs) (pre post : List Turn) (t : Turn)
    (ht : turns (initialStore gs) (runGlyphs depth gs).trace = pre ++ t :: post)
    (hpre : ∀ u ∈ pre, u.removes = false) :
    (∀ u ∈ pre, u.store.GrowsTo t.store) ∧ (t.removes = false → t.store.GrowsTo t.left) ∧
      ∀ d, t.token = .data d →
        (∃ xs, t.store.get? d.list = some xs ∧ d.cell ≤ xs.length) ∧
          ∀ u, t.result ≠ .error .outOfRange u := by
  obtain ⟨hnumbers, hchain, g, hg, v, pre', post', hsuffix, hglyph⟩ := turn_of_run h ht
  have hgrows := (hchain.along .refl .trans fun u hu => Turn.grows (hpre u hu)).2
  refine ⟨hgrows, Turn.grows, fun d hd => ?_⟩
  obtain ⟨⟨rest, htokens⟩, hchain', hok⟩ := Token.turns_split hglyph
  obtain ⟨primes, -, harranged⟩ := parse_arranged limit text gs h
  obtain ⟨ss, ds, q, -, hts, harr⟩ := harranged g hg
  rw [hd, hts] at htokens
  obtain ⟨before, after, hds, hbefore⟩ := exists_split_of_tokens htokens.symm
  have hmem : ∀ d ∈ ds, Token.data d ∈ g.tokens := fun d hd => by
    rw [hts]
    exact List.mem_append_left _ (List.mem_map_of_mem hd)
  have hlist : ∀ d ∈ ds, d.list ∈ (initialStore gs).numbers := fun d hd =>
    lists_of_parse h hg (hmem d hd) (by simp [Token.lists])
  have hd' : d ∈ ds := by simp [hds]
  obtain ⟨xs, hxs⟩ := Machine.get?_of_mem (hnumbers ▸ hlist d hd')
  have hcell : d.cell ≤ xs.length := by
    rw [Arranged.cell_eq_before (hds ▸ harr), ← Store.size_of_get? hxs]
    refine hchain'.countP_le_size harr
      (fun e he => ⟨(assignment_of_parse h hg (hmem e he)).1, hlist e he⟩)
      hds hbefore ?_ (fun u hu => ⟨hok u hu, hpre u (hsuffix.subset hu)⟩) hd'
    rw [← hchain'.numbers, hnumbers]
  exact ⟨⟨xs, hxs, hcell⟩, Turn.ne_outOfRange hd (assignment_of_parse h hg (hmem d hd')) hxs hcell⟩

/-- Two glyphs: one that writes to two cells of list `1` and to list `2`, and one that writes to
three cells of list `1`. -/
def twiceDrawing : String := "╵╰─ ╰─\n ╰─   ╷\n\n╵╰─ ╰─ ╰─\n         ╷"

/-- The last turn of the run of `twiceDrawing` writes to cell `2`. -/
theorem writes_in_range_twice : ∃ gs, parseWithin nestingLimit twiceDrawing = .ok gs ∧ ∃ pre t d,
    turns (initialStore gs) (runGlyphs nestingLimit gs).trace = pre ++ [t] ∧
      (∀ u ∈ pre, u.removes = false) ∧ t.token = .data d ∧ d.cell = 2 ∧
      (∀ u ∈ pre, u.store.GrowsTo t.store) ∧ (∃ xs, t.store.get? d.list = some xs ∧ 2 ≤ xs.length) ∧
      ∀ u, t.result ≠ .error .outOfRange u := by
  obtain ⟨gs, items, hparse, htree, hcells, hremoves⟩ : ∃ gs items,
      parseWithin nestingLimit twiceDrawing = .ok gs ∧ tree nestingLimit gs = .ok items ∧
      (turns (initialStore gs) (Run.block steps nestingLimit items (initialStore gs)).trace).map
          (·.token.step.cell) = [some 0, some 0, some 1, some 0, some 1] ++ [some 2] ∧
      (turns (initialStore gs) (Run.block steps nestingLimit items (initialStore gs)).trace).map
          (·.removes) = [false, false, false, false, false] ++ [false] :=
    ⟨_, _, by conv_lhs => cbv, by conv_lhs => cbv, by decide +kernel, by decide +kernel⟩
  rw [← runGlyphs_of_tree htree] at hcells hremoves
  obtain ⟨pre, last, hsplit, -, hlast⟩ := List.map_eq_append_iff.mp hcells
  obtain ⟨t, rfl, hcell⟩ := List.map_eq_singleton_iff.mp hlast
  have hpre : ∀ u ∈ pre, u.removes = false := fun u hu => by
    have hmem : u.removes ∈ [false, false, false, false, false] ++ [false] := by
      rw [← hremoves, hsplit]
      exact List.mem_map_of_mem (List.mem_append_left _ hu)
    simpa using hmem
  cases htoken : t.token with
  | question q =>
    rw [htoken] at hcell
    cases hcell
  | data d =>
    have hd : d.cell = 2 := by
      rw [htoken, Token.step, d.step_fields.2.2.1] at hcell
      exact_mod_cast Option.some.inj hcell
    obtain ⟨hgrows, -, hdata⟩ := writes_in_range _ _ _ gs hparse pre [] t hsplit hpre
    obtain ⟨⟨xs, hxs, hle⟩, hrange⟩ := hdata d htoken
    exact ⟨gs, hparse, pre, t, d, hsplit, hpre, htoken, hd, hgrows, ⟨xs, hxs, hd ▸ hle⟩, hrange⟩

end Program

end StrandScript
