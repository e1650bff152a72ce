import StrandScript.Proofs.Turns
import StrandScript.Proofs.WriteFaults

/-!
# References that are refused

A token that refers to a cell reads it after its own list has been extended. The number of the list
is measured against the number of fields that the token has, which is eighteen, and not against the
lists of the store. So no cell of a list from number `18` on is ever read, whether it is there or
not; all others are read exactly if they are there (`Program.reference_refused_iff`).
-/

namespace StrandScript

/-- The source of a token that refers to a cell. -/
theorem DataToken.Told.source_of_ref {d : DataToken} (h : d.Told) {r : CellRef}
    (hr : d.ref = some r) :
    d.assignment.source = .cell r.list r.cell.toNat := by
  obtain ⟨-, hnone⟩ | ⟨⟨p, hp⟩, -⟩ := h.source
  · rw [hr] at hnone
    cases hnone
  · unfold assignment
    simp only [hp, hr]

/-- A reference is refused where its list has too high a number, or no such cell. -/
theorem Source.read_refused {s : Store} {n : Int} {c : Nat} {xs : List Value}
    (hxs : s.get? n = some xs) (h : 18 ≤ n ∨ xs[c]? = none) :
    ∃ k, (Source.cell n c).read s = .error (.complaint k) := by
  unfold read
  by_cases hn : 18 ≤ n
  · exact ⟨.listOutOfBounds, if_pos hn⟩
  · refine ⟨.cellOutOfBounds, ?_⟩
    simp only [if_neg hn, hxs, h.resolve_left hn]

namespace Assignment

variable {a : Assignment} {s u : Store} {n : Int} {c : Nat} {xs : List Value}

/-- A reference that is not refused is read. -/
theorem write_of_read (hpairs : Act.pairs a.act = false) (hsource : a.source = .cell n c)
    (hextend : a.step.extend s = .ok () u) (hxs : u.get? n = some xs) (hlow : n < 18) {v : Value}
    (hv : xs[c]? = some v) : a.step.write s = a.step.apply a.act (.one v) u := by
  rw [write_eq hpairs hextend, hsource, Source.read_cell_eq_ok.mpr ⟨hlow, xs, hxs, hv⟩]

/-- An assignment complains only about its reference. -/
theorem write_complains_iff (hd : a.Drawn) (hpairs : Act.pairs a.act = false)
    (hsource : a.source = .cell n c) (hextend : a.step.extend s = .ok () u)
    (hlist : ∃ ys, u.get? a.list = some ys) (hxs : u.get? n = some xs) :
    (∃ k t, a.step.write s = .error (.complaint k) t) ↔ 18 ≤ n ∨ xs[c]? = none := by
  constructor
  · rintro ⟨k, t, h⟩
    by_contra hnot
    obtain ⟨hlow, hcell⟩ := not_or.mp hnot
    obtain ⟨v, hv⟩ := Option.ne_none_iff_exists'.mp hcell
    obtain ⟨ys, hys⟩ := hlist
    have hread : a.source.read u = .ok v := by
      rw [hsource]
      exact Source.read_cell_eq_ok.mpr ⟨Int.not_le.mp hlow, xs, hxs, hv⟩
    rw [write_of_read hpairs hsource hextend hxs (Int.not_le.mp hlow) hv] at h
    obtain harith | hmissing | ⟨hout, -⟩ := apply_error hd hpairs hys hread h
    · cases harith
    · cases hmissing
    · cases hout
  · intro hbad
    obtain ⟨k, hk⟩ := Source.read_refused hxs hbad
    exact ⟨k, u, by rw [write_eq hpairs hextend, hsource, hk]⟩

end Assignment

namespace Program

/-- **When a reference is refused.** Take the turn of any token that refers to a cell, in the run of
an accepted program, unless its action is one from list to list. The list that it refers to is
there. Once its own list has been extended, a complaint is raised if and only if the list has number
`18` or higher, or no cell of the number that is given. If the list has a lower number and the cell
is there, then its value is what the token works with. -/
theorem reference_refused_iff (limit depth : Nat) (text : String) (gs : List Glyph)
    (h : parseWithin limit text = .ok gs) (t : Turn)
    (ht : t ∈ turns (initialStore gs) (runGlyphs depth gs).trace) (d : DataToken)
    (hd : t.token = .data d) (r : CellRef) (hr : d.ref = some r)
    (hpairs : Act.pairs (d.action.bind Strand.act) = false) :
    0 ≤ r.cell ∧ ∃ u xs, d.step.extend t.store = .ok () u ∧ u.get? r.list = some xs ∧
      ((∃ k v, t.result = .error (.complaint k) v) ↔ 18 ≤ r.list ∨ xs[r.cell.toNat]? = none) ∧
      ∀ v, r.list < 18 → xs[r.cell.toNat]? = some v →
        d.step.write t.store = d.step.apply (d.action.bind Strand.act) (.one v) u := by
  obtain ⟨hnumbers, g, hg, htoken⟩ := token_of_run h ht
  rw [hd] at htoken
  have htold := told_of_parse h hg htoken
  obtain ⟨hstep, hdrawn⟩ := assignment_of_parse h hg htoken
  have hsource := htold.source_of_ref hr
  have hlists : ∀ n ∈ (Token.data d).lists, n ∈ t.store.numbers := fun n hn =>
    hnumbers ▸ lists_of_parse h hg htoken hn
  have hlist : d.list ∈ t.store.numbers := hlists _ (by simp [Token.lists])
  have hrlist : r.list ∈ t.store.numbers := hlists _ (by simp [Token.lists, hr])
  obtain ⟨u, hextend, hu⟩ := Step.exists_extend d.step_fields.2.1 hlist d.step_fields.2.2.2.2.2
  obtain ⟨ys, hys⟩ := Machine.get?_of_mem (hu ▸ hlist)
  obtain ⟨xs, hxs⟩ := Machine.get?_of_mem (hu ▸ hrlist)
  refine ⟨cell_nonneg_of_parse h hg htoken hr, u, xs, hextend, hxs, ?_, fun v hlow hv => ?_⟩
  · have hrole : d.assignment.step.role = some .data := rfl
    simp only [Turn.result, hd, Token.step, hstep, Step.perform_eq_error hrole]
    exact Assignment.write_complains_iff hdrawn hpairs hsource (hstep ▸ hextend) ⟨ys, hys⟩ hxs
  · rw [hstep]
    exact Assignment.write_of_read hpairs hsource (hstep ▸ hextend) hxs hlow hv

/-- Two glyphs: one that writes to list `17`, and one that refers to what is written there. -/
def seventeenDrawing : String :=
  "╵ \n\n\n\n\n\n\n ╰─ ╷\n\n╵╰─╮\n   │\n   │\n   │\n   │\n   │\n   │\n   ╷ ╷"

/-- The reference to list `17` is not refused, since the first glyph has written a cell there: the
step works on the number `17` in it. -/
theorem reference_refused_iff_seventeen : ∃ gs, parseWithin nestingLimit seventeenDrawing = .ok gs ∧
    ∃ t ∈ turns (initialStore gs) (runGlyphs nestingLimit gs).trace, ∃ d, t.token = .data d ∧
      d.ref = some ⟨17, 0⟩ ∧ Act.pairs (d.action.bind Strand.act) = false ∧
      ∃ u, d.step.extend t.store = .ok () u ∧ u.get? 17 = some [.int 17] ∧
        (¬ ∃ k v, t.result = .error (.complaint k) v) ∧
        d.step.write t.store = d.step.apply (d.action.bind Strand.act) (.one (.int 17)) u := by
  obtain ⟨gs, items, hparse, htree, hturns⟩ : ∃ gs items,
      parseWithin nestingLimit seventeenDrawing = .ok gs ∧ tree nestingLimit gs = .ok items ∧
      ((turns (initialStore gs)
        (Run.block steps nestingLimit items (initialStore gs)).trace).map fun t =>
          (t.token.step.list, t.token.step.ref, t.token.step.action,
            (Machine.left t.token.step.extend t.store).get? 17)) =
        [(some 17, none, some none, some [.int 0]),
          (some 1, some ⟨17, 0⟩, some none, some [.int 17])] :=
    ⟨_, _, by conv_lhs => cbv, by conv_lhs => cbv, by rfl⟩
  rw [← runGlyphs_of_tree htree] at hturns
  obtain ⟨t, ht, hfields⟩ : ∃ t ∈ turns (initialStore gs) (runGlyphs nestingLimit gs).trace,
      (t.token.step.list, t.token.step.ref, t.token.step.action,
          (Machine.left t.token.step.extend t.store).get? 17) =
        (some 1, some ⟨17, 0⟩, some none, some [.int 17]) := by
    rw [← List.mem_map, hturns]
    exact List.mem_cons_of_mem _ List.mem_cons_self
  simp only [Prod.mk.injEq] at hfields
  obtain ⟨hlist, href, haction, hread⟩ := hfields
  cases htoken : t.token with
  | question q =>
    rw [htoken] at hlist
    cases hlist
  | data d =>
    rw [htoken, Token.step, d.step_fields.2.2.2.1] at href
    rw [htoken, Token.step, d.step_fields.2.2.2.2.2] at haction
    have hpairs : Act.pairs (d.action.bind Strand.act) = false := by
      rw [Option.some.inj haction]
      rfl
    obtain ⟨-, u, xs, hextend, hxs, hiff, hwrite⟩ :=
      reference_refused_iff _ _ _ gs hparse t ht d htoken _ href hpairs
    obtain rfl : xs = [.int 17] := by
      rw [htoken, Token.step, Machine.left, hextend, hxs] at hread
      exact Option.some.inj hread
    refine ⟨gs, hparse, t, ht, d, htoken, href, hpairs, u, hextend, hxs, ?_, ?_⟩
    · rw [hiff]
      simp
    · exact hwrite (.int 17) (by decide) rfl

/-- Two glyphs: one that writes to list `19`, and one that refers to what is written there. -/
def nineteenDrawing : String :=
  "╵ \n\n\n\n\n\n\n\n ╰─ ╷\n\n╵╰─╮\n   │\n   │\n   │\n   │\n   │\n   │\n   │\n   ╷ ╷"

/-- **A cell that is there and is not read**: its list has too high a number. -/
theorem reference_refused_nineteen :
    (run nineteenDrawing).fault = some (.complaint .listOutOfBounds) ∧
      (run nineteenDrawing).store.get? 19 = some [.int 19] := by
  obtain ⟨gs, items, hparse, htree, hfault, hget⟩ : ∃ gs items,
      parse nineteenDrawing = .ok gs ∧ tree nestingLimit gs = .ok items ∧
      (Run.block steps nestingLimit items (initialStore gs)).fault =
        some (.complaint .listOutOfBounds) ∧
      (Run.block steps nestingLimit items (initialStore gs)).store.get? 19 = some [.int 19] :=
    ⟨_, _, by conv_lhs => cbv, by conv_lhs => cbv, by decide +kernel, by rfl⟩
  rw [run_of_tree hparse htree]
  exact ⟨hfault, hget⟩

end Program

end StrandScript
