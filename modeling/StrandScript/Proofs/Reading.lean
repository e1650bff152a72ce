import StrandScript.Program
import StrandScript.Proofs.Outcome
import StrandScript.Proofs.PrimeTable

/-!
# What reading a program goes through

A program that is read without a fault has its glyphs located and cut out, one table of primes made
for all of them, and in each the strands followed and arranged (`parseGrid_eq_ok`). So two texts
with the same glyphs cut out are read alike, whatever lies around these (`parseGrid_eq_assemble`),
and all glyphs go through one stage before the first of them enters the next (`assemble_eq`).
-/

namespace StrandScript

/-! ## Lines -/

namespace Lines

theorem split_cons {c : Char} {cs : List Char}
    (h : ∀ rest, c = '\r' → cs = '\n' :: rest → False) :
    split (c :: cs) = if isBreak c then [] :: split cs
      else match split cs with
        | [] => [[c]]
        | l :: ls => (c :: l) :: ls := by
  rw [split.eq_def]
  split
  · rename_i heq
    cases heq
  · rename_i heq
    cases heq
    exact (h _ rfl rfl).elim
  · rename_i heq
    cases heq
    rfl

theorem split_unbroken {l : List Char} (h : ∀ c ∈ l, isBreak c = false) (rest : List Char) :
    split (l ++ '\n' :: rest) = l :: split rest := by
  induction l with
  | nil =>
    have hpair : ∀ r, '\n' = '\r' → rest = '\n' :: r → False := fun _ hc => absurd hc (by decide)
    rw [List.nil_append, split_cons hpair, if_pos (by decide)]
  | cons c l ih =>
    rw [List.forall_mem_cons] at h
    have hc : c ≠ '\r' := by
      rintro rfl
      exact absurd h.1 (by decide)
    rw [List.cons_append, split_cons fun _ he => absurd he hc, h.1, ih h.2]
    rfl

end Lines

/-! ## The table of primes -/

theorem Primes.ofGrids_eq_ok {gs : List Grid} {primes : List Nat}
    (h : Primes.ofGrids gs = .ok primes) :
    ∃ n, Primes.longestSide gs = .ok n ∧ primes = Primes.table n := by
  unfold Primes.ofGrids at h
  split at h
  · cases h
  · obtain ⟨n, hn, h⟩ := Outcome.bind_eq_ok.mp h
    cases h
    exact ⟨n, hn, rfl⟩

theorem Primes.longestSide_bounds {gs : List Grid} {n : Nat} (h : Primes.longestSide gs = .ok n)
    {g : Grid} (hg : g ∈ gs) : 1 ≤ g.length ∧ g.length ≤ n := by
  induction gs generalizing n with
  | nil => cases hg
  | cons a gs ih =>
    obtain ⟨w, hw, h⟩ := Outcome.bind_eq_ok.mp h
    obtain ⟨m, hm, h⟩ := Outcome.bind_eq_ok.mp h
    cases h
    rcases List.mem_cons.mp hg with rfl | hg
    · cases g with
      | nil => cases hw
      | cons r rs => exact ⟨by simp, by omega⟩
    · have := ih hm hg
      omega

theorem Primes.ofGrids_nodup {gs : List Grid} {primes : List Nat}
    (h : Primes.ofGrids gs = .ok primes) : primes.Nodup := by
  obtain ⟨n, -, rfl⟩ := Primes.ofGrids_eq_ok h
  exact Primes.table_nodup n

/-! ## Glyphs -/

namespace Program

/-- A grid is read back from its text when no row holds a line break. -/
theorem grid_text {g : Grid} (h : ∀ r ∈ g, ∀ c ∈ r, Lines.isBreak c = false) : grid g.text = g := by
  have htext : g.text.toList = g.flatMap fun r => r ++ ['\n'] := by
    unfold Grid.text
    rw [String.toList_join, List.flatMap_map]
    simp only [String.toList_append, String.toList_ofList]
    rfl
  unfold grid
  rw [htext]
  clear htext
  induction g with
  | nil => rfl
  | cons r g ih =>
    rw [List.forall_mem_cons] at h
    rw [List.flatMap_cons, List.append_assoc, List.singleton_append, Lines.split_unbroken h.1,
      ih h.2]

variable {limit : Nat} {primes : List Nat}

theorem arrange_eq_ok {k : Nat} {lexed : List (Panel × List Strand)} {gs : List Glyph}
    (h : arrange primes k lexed = .ok gs) :
    gs.map (·.toPanel) = lexed.map (·.1) ∧
      ∀ g ∈ gs, ∃ i ss, (g.toPanel, ss) ∈ lexed ∧
        Arrangement.tokens i primes ss = .ok g.tokens := by
  induction lexed generalizing k gs with
  | nil =>
    cases h
    exact ⟨rfl, fun g hg => (List.not_mem_nil hg).elim⟩
  | cons a lexed ih =>
    obtain ⟨p, ss⟩ := a
    obtain ⟨ts, hts, h⟩ := Outcome.bind_eq_ok.mp h
    obtain ⟨gs', hgs', h⟩ := Outcome.bind_eq_ok.mp h
    cases h
    obtain ⟨hpanels, htokens⟩ := ih hgs'
    refine ⟨by rw [List.map_cons, List.map_cons, hpanels], ?_⟩
    intro g hg
    rcases List.mem_cons.mp hg with rfl | hg
    · exact ⟨k, ss, List.mem_cons_self, hts⟩
    · obtain ⟨i, ss', hmem, ht⟩ := htokens g hg
      exact ⟨i, ss', List.mem_cons_of_mem _ hmem, ht⟩

theorem lex_eq_ok {panels : List Panel} {lexed : List (Panel × List Strand)}
    (h : lex limit panels = .ok (primes, lexed)) :
    Primes.ofGrids (panels.map (·.rows)) = .ok primes ∧ lexed.map (·.1) = panels ∧
      ∀ a ∈ lexed, a.1.rows.strands limit primes = .ok a.2 := by
  obtain ⟨primes', hprimes, h⟩ := Outcome.bind_eq_ok.mp h
  obtain ⟨lexed', hlexed, h⟩ := Outcome.bind_eq_ok.mp h
  cases h
  have hall : List.Forall₂ (fun a p => a.1.rows.strands limit primes = .ok a.2 ∧ a.1 = p)
      lexed panels := by
    refine ((Outcome.mapM_eq_ok.mp hlexed).imp fun p a ha => ?_).flip
    obtain ⟨ss, hss, ha⟩ := Outcome.bind_eq_ok.mp ha
    cases ha
    exact ⟨hss, rfl⟩
  obtain ⟨hstrands, hpanels⟩ := (List.forall₂_and_left _ _).mp hall
  refine ⟨hprimes, ?_, hstrands⟩
  rw [← List.forall₂_eq_eq_eq, List.forall₂_map_left_iff]
  exact hpanels

/-- Follows and arranges the strands of the glyphs that were cut out. -/
def assemble (limit : Nat) (panels : List Panel) : Except Fault (List Glyph) := do
  let (primes, lexed) ← lex limit panels
  arrange primes 0 lexed

/-- The tokens of some glyphs, from number `k` on, by their strands. -/
def tokensFrom (primes : List Nat) : Nat → List (List Strand) → Except Fault (List (List Token))
  | _, [] => .ok []
  | k, ss :: rest => do
    let ts ← Arrangement.tokens k primes ss
    let tss ← tokensFrom primes (k + 1) rest
    return ts :: tss

/-- The strands of some glyphs. -/
def strandsOf (limit : Nat) (primes : List Nat) (panels : List Panel) :
    Except Fault (List (List Strand)) := panels.mapM fun p => p.rows.strands limit primes

theorem lex_eq (limit : Nat) (panels : List Panel) :
    lex limit panels = (do
      let primes ← Primes.ofGrids (panels.map (·.rows))
      let sss ← strandsOf limit primes panels
      return (primes, panels.zip sss)) := by
  unfold lex strandsOf
  refine congrArg _ (funext fun primes => ?_)
  have hmap : (panels.mapM fun p : Panel => do return (p, ← p.rows.strands limit primes)) =
      (panels.mapM fun p : Panel => p.rows.strands limit primes).map (panels.zip ·) := by
    induction panels with
    | nil => rfl
    | cons p panels ih =>
      rw [List.mapM_cons, List.mapM_cons, ih]
      cases p.rows.strands limit primes with
      | error f => rfl
      | ok ss => cases panels.mapM fun p => p.rows.strands limit primes <;> rfl
  rw [hmap]
  cases panels.mapM fun p => p.rows.strands limit primes <;> rfl

theorem arrange_zip {panels : List Panel} {sss : List (List Strand)}
    (h : sss.length = panels.length) (k : Nat) :
    arrange primes k (panels.zip sss) =
      (tokensFrom primes k sss).map (List.zipWith Glyph.mk panels ·) := by
  induction panels generalizing sss k with
  | nil =>
    obtain rfl := List.length_eq_zero_iff.mp h
    rfl
  | cons p panels ih =>
    cases sss with
    | nil => cases h
    | cons ss sss =>
      rw [List.zip_cons_cons, arrange, tokensFrom, ih (Nat.succ.inj h)]
      cases Arrangement.tokens k primes ss with
      | error f => rfl
      | ok ts => cases tokensFrom primes (k + 1) sss <;> rfl

/-- **The stages of reading**: the table of primes, the strands of every glyph, and their tokens. -/
theorem assemble_eq (limit : Nat) (panels : List Panel) :
    assemble limit panels = (do
      let primes ← Primes.ofGrids (panels.map (·.rows))
      let sss ← strandsOf limit primes panels
      let tss ← tokensFrom primes 0 sss
      return List.zipWith Glyph.mk panels tss) := by
  unfold assemble
  rw [lex_eq]
  cases Primes.ofGrids (panels.map (·.rows)) with
  | error f => rfl
  | ok primes =>
    simp only [bind, Except.bind]
    cases hsss : strandsOf limit primes panels with
    | error f => rfl
    | ok sss =>
      have hlen : sss.length = panels.length := (Outcome.mapM_eq_ok.mp hsss).length_eq.symm
      simp only [pure, Except.pure, arrange_zip hlen]
      cases tokensFrom primes 0 sss <;> rfl

theorem assemble_panels {panels : List Panel} {gs : List Glyph}
    (h : assemble limit panels = .ok gs) : gs.map (·.toPanel) = panels := by
  obtain ⟨⟨primes, lexed⟩, hlex, h⟩ := Outcome.bind_eq_ok.mp h
  exact (arrange_eq_ok h).1.trans (lex_eq_ok hlex).2.1

/-- What is read depends on the glyphs that are cut out only. -/
theorem parseGrid_eq_assemble {g g' : Grid} {locs : List Location} (htrim : g.trim = .ok g')
    (hlocs : g'.locations = .ok locs) (hne : locs ≠ []) :
    parseGrid limit g = assemble limit (locs.map (·.cut g')) := by
  have hlocate : locate g' = .ok locs := by
    unfold locate
    rw [hlocs]
    simp [bind, Except.bind, hne, pure, Except.pure]
  unfold parseGrid
  rw [htrim]
  simp only [bind, Except.bind, hlocate]
  rfl

theorem locate_eq_ok {g : Grid} {locs : List Location} (h : locate g = .ok locs) :
    g.locations = .ok locs ∧ locs ≠ [] := by
  obtain ⟨locs', hlocs, h⟩ := Outcome.bind_eq_ok.mp h
  split at h
  · cases h
  · rename_i hne
    cases h
    exact ⟨hlocs, fun he => hne (by simp [he])⟩

/-- **What a program has gone through that is read without a fault.** -/
theorem parseGrid_eq_ok {g : Grid} {gs : List Glyph} (h : parseGrid limit g = .ok gs) :
    ∃ g' locs primes, g.trim = .ok g' ∧ locate g' = .ok locs ∧
      gs.map (·.toPanel) = locs.map (·.cut g') ∧
      Primes.ofGrids (gs.map (·.rows)) = .ok primes ∧
      ∀ x ∈ gs, ∃ i ss, x.rows.strands limit primes = .ok ss ∧
        Arrangement.tokens i primes ss = .ok x.tokens := by
  obtain ⟨g', hg', h⟩ := Outcome.bind_eq_ok.mp h
  obtain ⟨locs, hlocs, h⟩ := Outcome.bind_eq_ok.mp h
  obtain ⟨⟨primes, lexed⟩, hlex, h⟩ := Outcome.bind_eq_ok.mp h
  obtain ⟨hprimes, hpanels, hstrands⟩ := lex_eq_ok hlex
  obtain ⟨hglyphs, htokens⟩ := arrange_eq_ok h
  refine ⟨g', locs, primes, hg', hlocs, hglyphs.trans hpanels, ?_, ?_⟩
  · have hrows : gs.map (·.rows) = (gs.map (·.toPanel)).map (·.rows) := by
      rw [List.map_map]
      rfl
    rw [hrows, hglyphs, hpanels]
    exact hprimes
  · intro x hx
    obtain ⟨i, ss, hmem, ht⟩ := htokens x hx
    exact ⟨i, ss, hstrands _ hmem, ht⟩

end Program

end StrandScript
