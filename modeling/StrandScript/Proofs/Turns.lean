import StrandScript.Proofs.MissingFields

/-!
# The turns of a run

The tokens of a run have their turns one after the other: each of them meets the store that the one
before it left, within a glyph and from glyph to glyph, until one of them fails
(`Program.turns_chained`). So what is to be shown of all turns of a program's run need only be shown
of the tokens of its glyphs, on any store with the program's lists (`Program.turn_of_run`).

* `Turn`: a token with the store that it meets.
* `Turn.Chained`: turns that follow on each other.
* `Token.turns`, `Program.turns`: the turns of a glyph and of a run.
-/

namespace StrandScript

/-- A token whose turn has come, with the answer that the tokens of its glyph have come to so
far. -/
structure Turn where
  before : Answer
  token : Token
  store : Store

namespace Turn

/-- What the step of the token comes to. -/
def result (t : Turn) : EStateM.Result Fault Store Answer :=
  Step.perform t.before t.token.step t.store

/-- The store that the token leaves, whether or not it fails. -/
def left (t : Turn) : Store := Machine.left (Step.perform t.before t.token.step) t.store

theorem left_of_ok {t : Turn} {a : Answer} {u : Store} (h : t.result = .ok a u) : t.left = u := by
  unfold left Machine.left
  rw [show Step.perform t.before t.token.step t.store = .ok a u from h]

theorem left_of_error {t : Turn} {f : Fault} {u : Store} (h : t.result = .error f u) :
    t.left = u := by
  unfold left Machine.left
  rw [show Step.perform t.before t.token.step t.store = .error f u from h]

theorem numbers_left (t : Turn) : t.left.numbers = t.store.numbers :=
  ((Step.perform_logs t.before t.token.step).agree t.store).numbers

/-- The turns lead from one store to another: each meets the store that the one before it left. -/
def Chained : Store → List Turn → Store → Prop
  | s, [], u => u = s
  | s, t :: ts, u => t.store = s ∧ Chained t.left ts u

variable {s u : Store} {ts : List Turn}

theorem chained_append {ts' : List Turn} :
    Chained s (ts ++ ts') u ↔ ∃ v, Chained s ts v ∧ Chained v ts' u := by
  induction ts generalizing s with
  | nil => simp [Chained]
  | cons t ts ih => simp only [List.cons_append, Chained, ih, exists_and_left, and_assoc]

/-- What one turn leaves is what the next one meets, so a reflexive and transitive relation that
holds across each turn holds along all of them. -/
theorem Chained.along {R : Store → Store → Prop} (refl : ∀ s, R s s)
    (trans : ∀ {s t u}, R s t → R t u → R s u) (h : Chained s ts u)
    (hts : ∀ t ∈ ts, R t.store t.left) :
    R s u ∧ ∀ t ∈ ts, R t.store u := by
  induction ts generalizing s with
  | nil =>
    obtain rfl : u = s := h
    exact ⟨refl u, by simp⟩
  | cons t ts ih =>
    obtain ⟨rfl, h⟩ := h
    rw [List.forall_mem_cons] at hts
    obtain ⟨hleft, hlater⟩ := ih h hts.2
    have hhere := trans hts.1 hleft
    exact ⟨hhere, List.forall_mem_cons.mpr ⟨hhere, hlater⟩⟩

theorem Chained.numbers (h : Chained s ts u) : u.numbers = s.numbers :=
  (h.along (R := fun s u => u.numbers = s.numbers) (fun _ => rfl) (fun h h' => h'.trans h)
    fun t _ => t.numbers_left).1

end Turn

/-! ## The turns of a glyph -/

namespace Token

/-- The turns of the tokens of a glyph: all up to the first that fails. -/
def turns (before : Answer) : List Token → Store → List Turn
  | [], _ => []
  | t :: ts, s => ⟨before, t, s⟩ :: match Step.perform before t.step s with
    | .ok a u => turns a ts u
    | .error _ _ => []

variable {before : Answer} {ts : List Token} {s : Store}

theorem turns_chained (before : Answer) (ts : List Token) (s : Store) :
    Turn.Chained s (turns before ts s)
      (Machine.left ((ts.map Token.step).foldlM Step.perform before) s) := by
  induction ts generalizing before s with
  | nil => rfl
  | cons t ts ih =>
    rw [List.map_cons, List.foldlM_cons, Machine.left_bind, turns]
    refine ⟨rfl, ?_⟩
    cases h : Step.perform before t.step s with
    | ok a u =>
      have hresult : (⟨before, t, s⟩ : Turn).result = .ok a u := h
      rw [Turn.left_of_ok hresult]
      exact ih a u
    | error f u =>
      have hresult : (⟨before, t, s⟩ : Turn).result = .error f u := h
      rw [Turn.left_of_error hresult]
      rfl

/-- Up to any turn, the turns are those of the tokens in their order, and the ones before it did not
fail. -/
theorem turns_split {pre post : List Turn} {t : Turn} (h : turns before ts s = pre ++ t :: post) :
    (∃ rest, ts = pre.map (·.token) ++ t.token :: rest) ∧ Turn.Chained s pre t.store ∧
      ∀ u ∈ pre, ∃ a v, u.result = .ok a v := by
  induction ts generalizing before s pre with
  | nil => simp [turns] at h
  | cons t' ts ih =>
    rw [turns] at h
    cases pre with
    | nil =>
      obtain ⟨rfl, -⟩ := List.cons.inj h
      exact ⟨⟨ts, rfl⟩, rfl, by simp⟩
    | cons t'' pre =>
      rw [List.cons_append] at h
      obtain ⟨rfl, hlater⟩ := List.cons.inj h
      cases hp : Step.perform before t'.step s with
      | error f u =>
        rw [hp] at hlater
        simp at hlater
      | ok a u =>
        rw [hp] at hlater
        have hresult : (⟨before, t', s⟩ : Turn).result = .ok a u := hp
        obtain ⟨⟨rest, hrest⟩, hchain, hok⟩ := ih hlater
        refine ⟨⟨rest, by rw [hrest]; rfl⟩, ⟨rfl, ?_⟩,
          List.forall_mem_cons.mpr ⟨⟨a, u, hresult⟩, hok⟩⟩
        rw [Turn.left_of_ok hresult]
        exact hchain

end Token

/-! ## The turns of a run -/

namespace Program

open Run

/-- The turns of the glyphs that a run executes, from the store that the first of them meets. -/
def turns : Store → List (Entry (Item.Linked Numbered)) → List Turn
  | _, [] => []
  | s, e :: es => Token.turns .proceed e.glyph.glyph.glyph.tokens s ++ turns e.store es

theorem turns_chained {s u : Store} {es : List (Entry (Item.Linked Numbered))}
    (h : Run.Chained steps s es u) : Turn.Chained s (turns s es) u := by
  induction es generalizing s with
  | nil => exact h
  | cons e es ih =>
    refine Turn.chained_append.mpr ⟨e.store, ?_, ih h.2⟩
    rw [← effect_of_result h.1, effect_eq_left]
    exact Token.turns_chained .proceed _ s

/-- Every turn of a run is one of some executed glyph, and those just before it are of the same
glyph. -/
theorem turns_split {s : Store} {es : List (Entry (Item.Linked Numbered))} {pre post : List Turn}
    {t : Turn} (h : turns s es = pre ++ t :: post) :
    ∃ e ∈ es, ∃ v pre' post', pre' <:+ pre ∧
      Token.turns .proceed e.glyph.glyph.glyph.tokens v = pre' ++ t :: post' := by
  induction es generalizing s pre with
  | nil => simp [turns] at h
  | cons e es ih =>
    have hlater : ∀ {pre'}, turns e.store es = pre' ++ t :: post → pre' <:+ pre →
        ∃ e' ∈ e :: es, ∃ v pre' post', pre' <:+ pre ∧
          Token.turns .proceed e'.glyph.glyph.glyph.tokens v = pre' ++ t :: post' :=
            fun h hpre => by
      obtain ⟨e', he', v, pre', post', hpre', hturns⟩ := ih h
      exact ⟨e', List.mem_cons_of_mem e he', v, pre', post', hpre'.trans hpre, hturns⟩
    rw [turns] at h
    obtain ⟨mid, rfl, hmid⟩ | ⟨mid, hmid, hpost⟩ := List.append_eq_append_iff.mp h
    · exact hlater hmid (List.suffix_append _ mid)
    · cases mid with
      | nil => exact @hlater [] hpost.symm List.nil_suffix
      | cons t' post' =>
        obtain ⟨rfl, -⟩ := List.cons.inj hpost
        exact ⟨e, List.mem_cons_self, s, pre, post', List.suffix_rfl, hmid⟩

variable {limit : Nat} {text : String} {gs : List Glyph}

/-- The entries of a program's run follow on each other, and are of glyphs of the program. -/
theorem run_chained (h : parseWithin limit text = .ok gs) (depth : Nat) :
    Run.Chained steps (initialStore gs) (runGlyphs depth gs).trace (runGlyphs depth gs).store ∧
      ∀ e ∈ (runGlyphs depth gs).trace, e.glyph.glyph.glyph ∈ gs := by
  obtain ⟨hne, hlevel⟩ := one_le_level_of_parse h
  unfold runGlyphs
  obtain ⟨items, htree, hflat, -⟩ | ⟨htree, -⟩ := tree_cases depth hne hlevel
  · rw [htree]
    refine ⟨block_chained depth items _, fun e he => hflat ▸ ?_⟩
    exact List.mem_map_of_mem (block_glyph_mem depth items _ e he)
  · rw [htree]
    exact ⟨rfl, by simp [failed]⟩

/-- **Every turn of a program's run** is one of the tokens of a glyph, on a store with the lists of
the program. -/
theorem turn_of_run (h : parseWithin limit text = .ok gs) {depth : Nat} {pre post : List Turn}
    {t : Turn} (ht : turns (initialStore gs) (runGlyphs depth gs).trace = pre ++ t :: post) :
    t.store.numbers = (initialStore gs).numbers ∧ Turn.Chained (initialStore gs) pre t.store ∧
      ∃ g ∈ gs, ∃ v pre' post', pre' <:+ pre ∧
        Token.turns .proceed g.tokens v = pre' ++ t :: post' := by
  obtain ⟨hchain, hglyphs⟩ := run_chained h depth
  obtain ⟨e, he, hsplit⟩ := turns_split ht
  have hturns := turns_chained hchain
  rw [ht, Turn.chained_append] at hturns
  obtain ⟨v, hpre, hmet, -⟩ := hturns
  rw [hmet]
  exact ⟨hpre.numbers, hpre, e.glyph.glyph.glyph, hglyphs e he, hsplit⟩

theorem token_of_run (h : parseWithin limit text = .ok gs) {depth : Nat} {t : Turn}
    (ht : t ∈ turns (initialStore gs) (runGlyphs depth gs).trace) :
    t.store.numbers = (initialStore gs).numbers ∧ ∃ g ∈ gs, t.token ∈ g.tokens := by
  obtain ⟨pre, post, hsplit⟩ := List.append_of_mem ht
  obtain ⟨hnumbers, -, g, hg, v, pre', post', -, hglyph⟩ := turn_of_run h hsplit
  obtain ⟨⟨rest, htokens⟩, -⟩ := Token.turns_split hglyph
  exact ⟨hnumbers, g, hg, by simp [htokens]⟩

end Program

end StrandScript
