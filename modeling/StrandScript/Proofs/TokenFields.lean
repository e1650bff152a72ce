import StrandScript.Proofs.Numbering
import StrandScript.Run

/-!
# What tokens carry

Reading a program fills in the fields of its tokens in several passes. In the end a data token has a
value, or a place it refers to and then the cell it reads from; and a strand that is attached to it
is an action with a command (`DataToken.Told`). The lists that tokens name are lists of the program.

* `Program.told_of_parse`: every data token of a program that is read carries these.
* `Program.lists_of_parse`: the lists that its tokens name are in the store that it starts from.
-/

namespace StrandScript

/-! ## Strands by their kind -/

theorem Meaning.of_data {sums : Sums} {stop : Stop} {m : Meaning}
    (h : Meaning.ofStop .data sums stop = .ok m) : (∃ n, m = .value n) ∨ ∃ p, m = .ref p := by
  simp only [Meaning.ofStop] at h
  split at h
  · cases h
    exact .inr ⟨_, rfl⟩
  · cases h
    exact .inl ⟨_, rfl⟩

theorem Meaning.of_action {sums : Sums} {stop : Stop} {m : Meaning}
    (h : Meaning.ofStop .action sums stop = .ok m) : ∃ n c scope, m = .act n c scope := by
  simp only [Meaning.ofStop] at h
  split at h
  · split at h
    · cases h
      exact ⟨_, _, _, rfl⟩
    · split at h <;> cases h <;> exact ⟨_, _, _, rfl⟩
  · split at h <;> cases h

/-! ## Data tokens -/

/-- A data token with all its fields: a value, or a place and the cell it stands for; and an
attached strand is an action. -/
structure DataToken.Told (d : DataToken) : Prop where
  source : ((∃ n, d.strand.meaning = .value n) ∧ d.ref = none) ∨
    ((∃ p, d.strand.meaning = .ref p) ∧ ∃ r, d.ref = some r)
  action : ∀ a, d.action = some a → ∃ n c scope, a.meaning = .act n c scope

namespace DataToken

variable {d : DataToken}

/-- The fields of a data token's step that do not depend on where its value comes from. -/
theorem step_fields (d : DataToken) : d.step.role = some .data ∧ d.step.list = some d.list ∧
    d.step.cell = some (d.cell : Int) ∧ d.step.ref = d.ref ∧ d.step.refList = none ∧
    d.step.action = some (d.action.bind Strand.act) := by
  unfold step
  split
  exact ⟨rfl, rfl, rfl, rfl, rfl, rfl⟩

theorem step_of_value {n : Option Int} (h : d.strand.meaning = .value n) :
    d.step.form = some .value ∧ d.step.value = some (n.elim .empty .int) := by
  unfold step
  rw [h]
  cases n with
  | none => exact ⟨rfl, rfl⟩
  | some n => exact ⟨rfl, rfl⟩

theorem step_of_ref {p : Pos} (h : d.strand.meaning = .ref p) : d.step.form = some .ref := by
  unfold step
  rw [h]

end DataToken

namespace Arrangement

variable {primes : List Nat} {ss : List Strand}

theorem mem_of_mem_ranks {column : Int} {n k : Nat} {a : Strand} (h : (a, k) ∈ ranks column n ss) :
    a ∈ ss := by
  induction ss generalizing column n with
  | nil => cases h
  | cons s ss ih =>
    rcases List.mem_cons.mp h with h | h
    · obtain ⟨rfl, -⟩ := Prod.mk.inj h
      exact List.mem_cons_self
    · exact List.mem_cons_of_mem _ (ih h)

/-- What is attached to a data token is one of the actions. -/
theorem mem_of_attach {actions : List (Strand × Nat)} {seen : List Int} {ds : List DataToken}
    {d : DataToken} (h : d ∈ attach actions seen ds) {a : Strand} (ha : d.action = some a) :
    ∃ k, (a, k) ∈ actions := by
  induction ds generalizing seen with
  | nil => cases h
  | cons e ds ih =>
    rcases List.mem_cons.mp h with rfl | h
    · obtain ⟨⟨a', k⟩, hfound, rfl⟩ := Option.map_eq_some_iff.mp ha
      exact ⟨k, List.mem_of_find?_eq_some hfound⟩
    · exact ih h

/-- A data token has a cell to read from exactly if it refers to a place. -/
theorem withRefs_source {ds ds' : List DataToken} {question : Option Pos}
    (h : withRefs primes ds question = .ok ds') (hnone : ∀ d ∈ ds, d.ref = none)
    (hmeaning : ∀ d ∈ ds, (∃ n, d.strand.meaning = .value n) ∨ ∃ p, d.strand.meaning = .ref p)
    {d : DataToken} (hd : d ∈ ds') :
    ((∃ n, d.strand.meaning = .value n) ∧ d.ref = none) ∨
      ((∃ p, d.strand.meaning = .ref p) ∧ ∃ r, d.ref = some r) := by
  obtain ⟨e, he, hd⟩ := Outcome.exists_of_mem_mapM h hd
  split at hd
  · rename_i p hp
    obtain ⟨r, -, hd⟩ := Outcome.bind_eq_ok.mp hd
    cases hd
    exact .inr ⟨⟨p, hp⟩, r, rfl⟩
  · rename_i hnot
    cases hd
    obtain hvalue | ⟨p, hp⟩ := hmeaning d he
    · exact .inl ⟨hvalue, hnone d he⟩
    · exact absurd hp (hnot p)

/-- A data token that is only placed reads from no cell yet. -/
theorem ref_of_placeData {seen : List Int} {ds : List DataToken}
    (h : placeData primes seen ss = .ok ds) : ∀ d ∈ ds, d.ref = none := by
  rw [← placeData_bare h]
  exact List.forall_mem_map.mpr fun _ _ => rfl

/-- The data tokens of an arranged glyph are placed, told where they refer to, and given their
actions, in this order. -/
theorem mem_attach_of_tokens {i : Nat} {ts : List Token} (h : tokens i primes ss = .ok ts)
    {d : DataToken} (hd : Token.data d ∈ ts) :
    ∃ ds₀ question ds₁, placeData primes [] (byColumn .data ss) = .ok ds₀ ∧
      withRefs primes ds₀ question = .ok ds₁ ∧
      d ∈ attach (ranks 0 0 (byColumn .action ss)) [] ds₁ := by
  obtain ⟨ds₀, hds₀, h⟩ := Outcome.bind_eq_ok.mp h
  obtain ⟨q, -, h⟩ := Outcome.bind_eq_ok.mp h
  obtain ⟨ds₁, hds₁, h⟩ := Outcome.bind_eq_ok.mp h
  refine ⟨ds₀, _, ds₁, hds₀, hds₁, ?_⟩
  match q with
  | none =>
    cases h
    simpa using hd
  | some (.inl _) => cases h
  | some (.inr _) =>
    cases h
    simpa using hd

/-- The strand that is attached to a data token is an action strand of its glyph. -/
theorem action_of_tokens {i : Nat} {ts : List Token} (h : tokens i primes ss = .ok ts)
    {d : DataToken} (hd : Token.data d ∈ ts) {a : Strand} (ha : d.action = some a) :
    a ∈ ss ∧ a.hook.kind = .action := by
  obtain ⟨_, _, _, -, -, hmem⟩ := mem_attach_of_tokens h hd
  obtain ⟨k, hk⟩ := mem_of_attach hmem ha
  obtain ⟨hs, hkind⟩ := List.mem_filter.mp ((byColumn_perm .action ss).subset (mem_of_mem_ranks hk))
  exact ⟨hs, beq_iff_eq.mp hkind⟩

/-- The cell that a data token reads from is the one of a place. -/
theorem refAt_of_tokens {i : Nat} {ts : List Token} (h : tokens i primes ss = .ok ts)
    {d : DataToken} (hd : Token.data d ∈ ts) {r : CellRef} (hr : d.ref = some r) :
    ∃ ds question p, refAt primes ds question p = .ok r := by
  obtain ⟨ds₀, question, ds₁, hds₀, hds₁, hmem⟩ := mem_attach_of_tokens h hd
  obtain ⟨e, he, hde⟩ := exists_of_mem_attach hmem
  rw [hde] at hr
  obtain ⟨p, -, href⟩ := refAt_of_withRefs hds₁ (ref_of_placeData hds₀) he hr
  exact ⟨ds₀, question, p, href⟩

/-- **The data tokens of an arranged glyph carry all their fields**, if its strands say what strands
of their kinds can say. -/
theorem tokens_told {i : Nat} {ts : List Token} (h : tokens i primes ss = .ok ts)
    (hss : ∀ s ∈ ss, ∃ sums stop, Meaning.ofStop s.hook.kind sums stop = .ok s.meaning)
    {d : DataToken} (hd : Token.data d ∈ ts) : d.Told := by
  obtain ⟨ds₀, question, ds₁, hds₀, hds₁, hmem⟩ := mem_attach_of_tokens h hd
  have hmeaning : ∀ e ∈ ds₀,
      (∃ n, e.strand.meaning = .value n) ∨ ∃ p, e.strand.meaning = .ref p := by
    intro e he
    have hstrand : e.strand ∈ byColumn .data ss := placeData_strand hds₀ ▸ List.mem_map_of_mem he
    obtain ⟨hs, hkind⟩ := List.mem_filter.mp ((byColumn_perm .data ss).subset hstrand)
    obtain ⟨sums, stop, hm⟩ := hss e.strand hs
    rw [beq_iff_eq.mp hkind] at hm
    exact Meaning.of_data hm
  refine ⟨?_, fun a ha => ?_⟩
  · obtain ⟨e, he, hde⟩ := exists_of_mem_attach hmem
    have hsource := withRefs_source hds₁ (ref_of_placeData hds₀) hmeaning he
    rw [hde]
    exact hsource
  · obtain ⟨hs, hkind⟩ := action_of_tokens h hd ha
    obtain ⟨sums, stop, hm⟩ := hss a hs
    rw [hkind] at hm
    exact Meaning.of_action hm

end Arrangement

/-! ## Programs -/

namespace Program

variable {limit : Nat} {text : String} {gs : List Glyph}

theorem told_of_parse (h : parseWithin limit text = .ok gs) {g : Glyph} (hg : g ∈ gs)
    {d : DataToken} (hd : Token.data d ∈ g.tokens) : d.Told := by
  obtain ⟨-, -, primes, -, -, -, -, htokens⟩ := parseGrid_eq_ok h
  obtain ⟨i, ss, hss, hts⟩ := htokens g hg
  refine Arrangement.tokens_told hts (fun s hs => ?_) hd
  obtain ⟨sums, stop, -, hm⟩ := Grid.strands_walks hss hs
  exact ⟨sums, stop, hm⟩

theorem lists_of_parse (h : parseWithin limit text = .ok gs) {g : Glyph} (hg : g ∈ gs) {t : Token}
    (ht : t ∈ g.tokens) {n : Int} (hn : n ∈ t.lists) : n ∈ (initialStore gs).numbers := by
  obtain ⟨-, -, primes, -, -, -, hprimes, htokens⟩ := parseGrid_eq_ok h
  obtain ⟨hgs, -⟩ := one_le_level_of_parse h
  obtain ⟨i, ss, hss, hts⟩ := htokens g hg
  obtain ⟨p, ⟨s, hs, hp⟩, hlist⟩ := Arrangement.tokens_lists hts t ht n hn
  have hmost : g.rows.length ≤ most Glyph.listSize gs := le_most Glyph.listSize hg
  have hrow : 0 ≤ p.y ∧ p.y < g.rows.length := by
    obtain rfl | hp := hp
    · exact (Grid.strands_pos hss hs).2
    · exact Grid.strands_ref hss hs hp
  rw [numbers_initialStore hgs hprimes]
  exact Primes.mem_take_of_number hlist (by omega)

end Program

end StrandScript
