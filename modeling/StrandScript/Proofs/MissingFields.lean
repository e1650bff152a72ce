import StrandScript.Proofs.Calls
import StrandScript.Proofs.Lookups
import StrandScript.Proofs.TokenFields

/-!
# Programs that get stuck

A program that is accepted may still fail for want of something when it runs. Its tokens name lists
of the program and carry a value or a cell to read from, but three of them look for more: an action
from list to list, an action that pops and appends, on a value, and a question about a whole list,
which is list `3`. Each of them fails whenever it is begun, and nothing else fails so
(`missing_fault_iff`).

* `Token.lacks`: what a token looks for and does not find.
* `Token.perform_finds`, `Token.perform_lacks`: a step of a run, by what its token lacks.
* `Program.begun`: the tokens that a run begins.
-/

namespace StrandScript

/-! ## Tokens -/

/-- What a token lacks, on a store with the lists `N`. An action from list to list is looked for in
a list that no token names, a value has no cell to be popped from, and a question about a whole list
asks about one that the program need not have. -/
def Token.lacks (N : List Int) : Token → Option Fault
  | .data d =>
    match d.action.map Strand.meaning, d.ref with
    | some (.act _ _ (.listToList _)), _ => some (.missingField "ref_list")
    | some (.act _ .popAppend _), none => some (.missingField "ref_cell")
    | _, _ => none
  | .question q =>
    match q.target with
    | .cell _ => none
    | .list n => if n ∈ N then none else some (.missingList n)

theorem Token.lacks_isMissing {N : List Int} {t : Token} {f : Fault} (h : t.lacks N = some f) :
    f.isMissing = true := by
  unfold lacks at h
  split at h
  · split at h <;> cases h <;> rfl
  · split at h
    · cases h
    · split at h <;> cases h
      rfl

/-- A token of a program with the lists `N`, as reading leaves it. -/
structure Token.Sound (N : List Int) (t : Token) : Prop where
  told : ∀ d, t = .data d → d.Told
  lists : ∀ n ∈ t.lists, n ∈ N

/-! ## Steps of data tokens -/

namespace DataToken

variable {N : List Int} {d : DataToken}

theorem Told.sourced (h : d.Told) (hlists : ∀ n ∈ (Token.data d).lists, n ∈ N) :
    d.step.Sourced N := by
  obtain ⟨⟨n, hn⟩, -⟩ | ⟨⟨p, hp⟩, r, hr⟩ := h.source
  · exact .inl ⟨(step_of_value hn).1, _, (step_of_value hn).2⟩
  · refine .inr ⟨step_of_ref hp, r, ?_, hlists _ ?_⟩
    · rw [(step_fields d).2.2.2.1, hr]
    · simp [Token.lists, hr]

/-- What a data token lacks, by its action: one from list to list, one that pops a cell which is not
given, or none of these. -/
theorem Told.lacks_cases (h : d.Told) :
    ((Token.data d).lacks N = some (.missingField "ref_list") ∧
      Act.pairs (d.action.bind Strand.act) = true) ∨
    ((Token.data d).lacks N = some (.missingField "ref_cell") ∧
      Act.pairs (d.action.bind Strand.act) = false ∧
      (d.action.bind Strand.act).bind (·.command) = some .popAppend ∧ d.ref = none) ∨
    ((Token.data d).lacks N = none ∧ Act.pairs (d.action.bind Strand.act) = false ∧
      (∀ b, d.action.bind Strand.act = some b → ∃ f, b.form = some f) ∧
      ((d.action.bind Strand.act).bind (·.command) = some .popAppend → ∃ r, d.ref = some r)) := by
  cases ha : d.action with
  | none => simp [Token.lacks, ha, Act.pairs]
  | some a =>
    obtain ⟨n, c, scope, hm⟩ := h.action a ha
    simp only [Token.lacks, ha, Option.map_some, hm, Option.bind_some, Strand.act]
    cases scope with
    | listToList p => exact .inl ⟨rfl, rfl⟩
    | element | list => cases c <;> cases d.ref <;> simp [Act.pairs]

end DataToken

namespace Step

variable {st : Step} {s : Store} {n : Int} {a : Option Act}

/-- A cell that is just after the end of a list that is there can be added. -/
theorem exists_extend (hlist : st.list = some n) (hn : n ∈ s.numbers) (hact : st.action = some a) :
    ∃ t, st.extend s = .ok () t ∧ t.numbers = s.numbers := by
  obtain ⟨xs, hxs⟩ := Machine.get?_of_mem hn
  unfold extend
  cases st.cell with
  | none => exact ⟨s, rfl, rfl⟩
  | some c =>
    simp only [hlist, hact]
    rw [Machine.bind_ok (Machine.field_some "list" n s), Machine.bind_ok (Machine.list_of_get? hxs)]
    by_cases hc : (xs.length : Int) = c
    · rw [if_pos hc, Machine.bind_ok (Machine.field_some "action" a s)]
      by_cases ha : (!(a.bind (·.command)).any (·.appends)) = true
      · rw [if_pos ha]
        exact ⟨_, Machine.append_of_get? hxs _, Store.numbers_put s n _⟩
      · rw [if_neg ha]
        exact ⟨s, rfl, rfl⟩
    · rw [if_neg hc]
      exact ⟨s, rfl, rfl⟩

theorem operand_pairs (h : Act.pairs a = true) (hrefList : st.refList = none) :
    st.operand a s = .error (.missingField "ref_list") s := by
  unfold operand partner
  rw [h, hrefList]
  rfl

theorem operand_value {v : Value} (h : Act.pairs a = false) (hform : st.form = some .value)
    (hv : st.value = some v) : st.operand a s = .ok (.one v) s := by
  unfold operand partner
  rw [h, hform, hv]
  rfl

theorem apply_popAppend {v : Value} (h : Act.pairs a = false)
    (hcommand : a.bind (·.command) = some .popAppend) (hlist : st.list = some n)
    (hn : n ∈ s.numbers) (href : st.ref = none) :
    st.apply a (.one v) s = .error (.missingField "ref_cell") s := by
  obtain ⟨xs, hxs⟩ := Machine.get?_of_mem hn
  unfold apply
  rw [h, hcommand, hlist, href]
  change ((discard (Machine.list n) : Machine PUnit) >>= fun _ => _) s = _
  rw [Machine.bind_ok (Machine.discard_ok (Machine.list_of_get? hxs))]
  rfl

end Step

namespace Token

open Machine

variable {N : List Int} {before : Answer}

/-- A data token that lacks nothing has all its lookups succeed. -/
theorem data_finds {d : DataToken} (hsound : Token.Sound N (.data d))
    (hlacks : (Token.data d).lacks N = none) : Finds N (Step.perform before d.step) := by
  obtain ⟨hrole, hlist, hcell, href, -, haction⟩ := d.step_fields
  have hn : d.list ∈ N := hsound.lists _ (by simp [Token.lists])
  have hsource := (hsound.told d rfl).sourced hsound.lists
  have hread : ∀ r, d.ref = some r → ∃ r, d.step.ref = some r ∧ r.list ∈ N := fun r hr =>
    ⟨r, href.trans hr, hsound.lists _ (by simp [Token.lists, hr])⟩
  have hpop : d.step.form = some .ref → ∃ r, d.step.ref = some r ∧ r.list ∈ N := fun hform => by
    obtain ⟨hvalue, -⟩ | ⟨-, hr⟩ := hsource
    · rw [hvalue] at hform
      cases hform
    · exact hr
  obtain ⟨h, -⟩ | ⟨h, -⟩ | ⟨-, hpairs, hform, htake⟩ := (hsound.told d rfl).lacks_cases (N := N)
  · rw [h] at hlacks
    cases hlacks
  · rw [h] at hlacks
    cases hlacks
  · refine finds_field hrole (Finds.bind ?_ fun _ => finds_pure before)
    refine (Step.extend_finds hlist hn haction).bind fun _ => finds_field haction ?_
    refine (Step.operand_finds hpairs hsource).bind fun o => ?_
    refine Step.apply_finds hpairs hlist hn hcell hform (fun _ => hpop) (fun hcommand => ?_) o
    obtain ⟨r, hr⟩ := htake hcommand
    exact hread r hr

/-- A data token that lacks something fails for want of it. -/
theorem data_lacks {d : DataToken} (hsound : Token.Sound N (.data d)) {f : Fault}
    (hlacks : (Token.data d).lacks N = some f) {s : Store} (hs : s.numbers = N) :
    ∃ t, Step.perform before d.step s = .error f t := by
  obtain ⟨hrole, hlist, hcell, href, hrefList, haction⟩ := d.step_fields
  have hn : d.list ∈ s.numbers := hs ▸ hsound.lists _ (by simp [Token.lists])
  obtain ⟨u, hextend, hu⟩ := Step.exists_extend hlist hn haction
  have hwrite : ∃ t, d.step.write s = .error f t := by
    unfold Step.write
    rw [bind_ok hextend, haction, bind_ok (field_some "action" _ u)]
    obtain ⟨h, hpairs⟩ | ⟨h, hpairs, hcommand, hr⟩ | ⟨h, -⟩ :=
      (hsound.told d rfl).lacks_cases (N := N)
    · obtain rfl := Option.some.inj (h.symm.trans hlacks)
      exact ⟨u, bind_error (Step.operand_pairs hpairs hrefList)⟩
    · obtain rfl := Option.some.inj (h.symm.trans hlacks)
      obtain ⟨⟨k, hk⟩, -⟩ | ⟨-, r, hr'⟩ := (hsound.told d rfl).source
      · obtain ⟨hform, hv⟩ := DataToken.step_of_value hk
        rw [bind_ok (Step.operand_value hpairs hform hv)]
        exact ⟨u, Step.apply_popAppend hpairs hcommand hlist (hu ▸ hn) (href.trans hr)⟩
      · rw [hr] at hr'
        cases hr'
    · rw [h] at hlacks
      cases hlacks
  obtain ⟨t, ht⟩ := hwrite
  refine ⟨t, ?_⟩
  unfold Step.perform
  rw [hrole, bind_ok (field_some "type" _ s)]
  exact bind_error ht

/-- A question that lacks nothing has all its lookups succeed. -/
theorem question_finds {q : QuestionToken} (hlists : ∀ n ∈ (Token.question q).lists, n ∈ N)
    (hlacks : (Token.question q).lacks N = none) : Finds N (Step.perform before q.step) := by
  have hask : Finds N q.step.ask := by
    refine Step.ask_finds ?_ rfl
    unfold Token.lists at hlists
    unfold lacks at hlacks
    cases ht : q.target with
    | cell r =>
      have hr : r.list ∈ N := hlists _ (by simp [ht, Target.lists])
      refine Step.holds_finds_cell ?_ ?_ hr <;> simp [QuestionToken.step, ht]
    | list n =>
      have hn : n ∈ N := by
        by_contra hn
        simp [ht, hn] at hlacks
      refine Step.holds_finds_list ?_ ?_ hn <;> simp [QuestionToken.step, ht]
  exact finds_field rfl hask

/-- A question about a list that is not there fails for want of it. -/
theorem question_lacks {q : QuestionToken} {f : Fault}
    (hlacks : (Token.question q).lacks N = some f) {s : Store} (hs : s.numbers = N) :
    Step.perform before q.step s = .error f s := by
  unfold lacks at hlacks
  cases ht : q.target with
  | cell r => simp [ht] at hlacks
  | list n =>
    simp only [ht, Option.ite_none_left_eq_some, Option.some.injEq] at hlacks
    obtain ⟨hn, rfl⟩ := hlacks
    have hget : s.get? n = none := by
      rw [Store.get?, Option.map_eq_none_iff, List.find?_eq_none]
      intro l hl heq
      rw [← hs] at hn
      exact hn (beq_iff_eq.mp heq ▸ List.mem_map_of_mem hl)
    have hholds : q.step.holds s = .error (.missingList n) s := by
      have hsubject : q.step.subject = some .list := by simp [QuestionToken.step, ht]
      have hrefList : q.step.refList = some n := by simp [QuestionToken.step, ht]
      unfold Step.holds
      rw [hsubject, hrefList]
      change (list n >>= fun xs => lift (Value.allPositive xs)) s = _
      exact bind_error (list_of_get?_none hget)
    change q.step.ask s = _
    exact bind_error hholds

variable {t : Token}

/-- **A token that lacks nothing does not fail for want of anything.** -/
theorem perform_finds (before : Answer) (hsound : t.Sound N) (h : t.lacks N = none) :
    Finds N (Step.perform before t.step) := by
  cases t with
  | data d => exact data_finds hsound h
  | question q => exact question_finds hsound.lists h

/-- **A token that lacks something fails for want of it**, whatever the lists hold. -/
theorem perform_lacks (before : Answer) (hsound : t.Sound N) {f : Fault} (h : t.lacks N = some f)
    {s : Store} (hs : s.numbers = N) : ∃ u, Step.perform before t.step s = .error f u := by
  cases t with
  | data d => exact data_lacks hsound h hs
  | question q => exact ⟨s, question_lacks h hs⟩

/-! ## The tokens of a glyph -/

/-- The tokens that are begun when a glyph is executed: all up to the first that fails. -/
def begun (before : Answer) : List Token → Store → List Token
  | [], _ => []
  | t :: ts, s => t :: match Step.perform before t.step s with
    | .ok a u => begun a ts u
    | .error _ _ => []

/-- A glyph fails for want of something exactly if it begins a token that lacks it. -/
theorem begun_lacks_iff {ts : List Token} (hts : ∀ t ∈ ts, t.Sound N) {s : Store}
    (hs : s.numbers = N) {f : Fault} :
    (∃ t ∈ begun before ts s, t.lacks N = some f) ↔
      f.isMissing = true ∧ ∃ u, (ts.map Token.step).foldlM Step.perform before s = .error f u := by
  induction ts generalizing before s with
  | nil => simp [begun, pure, EStateM.pure]
  | cons t ts ih =>
    rw [List.forall_mem_cons] at hts
    rw [List.map_cons, List.foldlM_cons, begun]
    cases hl : t.lacks N with
    | some f' =>
      obtain ⟨u, hu⟩ := perform_lacks before hts.1 hl hs
      rw [bind_error hu, hu]
      have hmissing := lacks_isMissing hl
      simp only [List.mem_singleton, exists_eq_left, hl, Option.some.injEq,
        EStateM.Result.error.injEq, exists_and_left, exists_eq', and_true]
      exact ⟨fun h => ⟨h ▸ hmissing, h⟩, fun h => h.2⟩
    | none =>
      have hfinds := perform_finds before hts.1 hl s hs
      cases hp : Step.perform before t.step s with
      | ok a u =>
        rw [hp] at hfinds
        rw [bind_ok hp, ← ih hts.2 hfinds]
        simp [hl]
      | error f' u =>
        rw [hp] at hfinds
        rw [bind_error hp]
        simp only [List.mem_singleton, exists_eq_left, hl, reduceCtorEq, false_iff, not_and,
          EStateM.Result.error.injEq, exists_and_left, exists_eq', and_true]
        rintro hmissing rfl
        cases hmissing.symm.trans hfinds

end Token

/-! ## Runs -/

namespace Run

variable {α : Type} {f : Fault} {r : Run α}

/-- The run ends in `f` exactly if one of its glyphs does. -/
def FailsBy (f : Fault) (r : Run α) : Prop := r.fault = some f ↔ ∃ e ∈ r.trace, e.outcome = .error f

theorem FailsBy.after (h : FailsBy f r) {e : Entry α} {a : Answer} (he : e.outcome = .ok a) :
    FailsBy f (r.after e) := by
  unfold FailsBy at h ⊢
  simp only [Run.after, h, List.mem_cons, or_and_right, exists_or, exists_eq_left, he, reduceCtorEq,
    false_or]

theorem FailsBy.andThen (h : FailsBy f r) {k : Store → Run α} (hk : ∀ s, FailsBy f (k s)) :
    FailsBy f (r.andThen k) := by
  cases hr : r.fault with
  | some f' => rwa [andThen_of_fault k hr]
  | none =>
    have hnone : ¬ ∃ e ∈ r.trace, e.outcome = .error f := fun he => by
      rw [h.mpr he] at hr
      cases hr
    unfold FailsBy
    rw [andThen_fault k hr, andThen_trace k hr, show _ ↔ _ from hk r.store]
    simp only [List.mem_append, or_and_right, exists_or, hnone, false_or]

variable {steps : α → List Step}

theorem members_failsBy {recur : List (Item α) → Store → Run α}
    (hrec : ∀ items s, FailsBy f (recur items s)) (whole items : List (Item α)) (s : Store) :
    FailsBy f (members steps recur whole items s) := by
  induction items, s using members_induction steps with
  | nil s => simp [members, done, FailsBy]
  | block items rest s ih => exact (hrec items s).andThen ih
  | fails g rest s f t hg => simp [members, hg, FailsBy]
  | leaves g rest s t hg => simp [members, hg, FailsBy]
  | proceeds g rest s t hg ih =>
    simp only [members, hg]
    exact ih.after rfl
  | repeats g rest s t hg ih =>
    simp only [members, hg]
    exact ((hrec whole t).andThen ih).after rfl

/-- For want of something a run can only fail in a glyph: neither the limit nor a store that cannot
be saved is a lookup. -/
theorem block_failsBy (hf : f.isMissing = true) (limit : Nat) (items : List (Item α)) (s : Store) :
    FailsBy f (block steps limit items s) := by
  have hfailed : ∀ s f', f'.isMissing = false → FailsBy f (failed s f' : Run α) :=
    fun s f' hf' => by
    simp only [FailsBy, failed, Option.some.injEq, List.not_mem_nil, false_and, exists_false,
      iff_false]
    rintro rfl
    cases hf.symm.trans hf'
  induction limit generalizing items s with
  | zero => exact hfailed s .tooDeep rfl
  | succ limit ih =>
    unfold block
    split
    · rename_i f' hs
      exact hfailed s f' (s.computes_saveable.found f' hs)
    · exact members_failsBy ih items items s

theorem numbers_effect (steps : α → List Step) (g : α) (s : Store) :
    (effect steps g s).numbers = s.numbers := by
  have hlogs : Machine.Logs (fun _ => True) (Step.logAll .proceed (steps g)) _ :=
    performAll_logs fun _ _ _ _ => trivial
  rw [effect_eq_left]
  exact (hlogs.agree s).numbers

end Run

namespace Program

open Run

variable {limit : Nat} {text : String} {gs : List Glyph}

/-- The tokens that a run begins, from the store that the first of its glyphs meets. -/
def begun : Store → List (Entry (Item.Linked Numbered)) → List Token
  | _, [] => []
  | s, e :: es => Token.begun .proceed e.glyph.glyph.glyph.tokens s ++ begun e.store es

theorem begun_lacks_iff {N : List Int} {f : Fault} {s t : Store}
    {es : List (Entry (Item.Linked Numbered))} (h : Chained steps s es t) (hs : s.numbers = N)
    (hsound : ∀ e ∈ es, ∀ t ∈ e.glyph.glyph.glyph.tokens, t.Sound N) :
    (∃ t ∈ begun s es, t.lacks N = some f) ↔
      f.isMissing = true ∧ ∃ e ∈ es, e.outcome = .error f := by
  induction es generalizing s with
  | nil => simp [begun]
  | cons e es ih =>
    rw [List.forall_mem_cons] at hsound
    have hstore : e.store.numbers = N := by
      rw [← effect_of_result h.1, numbers_effect, hs]
    have hglyph :
        (∃ u, ((e.glyph.glyph.glyph.tokens).map Token.step).foldlM Step.perform .proceed s =
          .error f u) ↔ e.outcome = .error f := by
      have hresult : ((e.glyph.glyph.glyph.tokens).map Token.step).foldlM Step.perform .proceed s =
        e.result := h.1
      rw [hresult, Entry.result]
      cases e.outcome <;> simp
    simp only [begun, List.mem_append, or_and_right, exists_or, List.mem_cons, exists_eq_left]
    rw [Token.begun_lacks_iff hsound.1 hs, ih h.2 hstore hsound.2, hglyph]
    tauto

theorem sound_of_parse (h : parseWithin limit text = .ok gs) {g : Glyph} (hg : g ∈ gs) {t : Token}
    (ht : t ∈ g.tokens) : t.Sound (initialStore gs).numbers :=
  ⟨fun _ hd => told_of_parse h hg (hd ▸ ht), fun _ hn => lists_of_parse h hg ht hn⟩

/-- **When an accepted program gets stuck**: its run fails for want of a field or a list exactly if
it begins a token that lacks it. There are three: an action from list to list, an action that pops
and appends on a value, and a question about list `3` in a program without it. -/
theorem missing_fault_iff (limit depth : Nat) (text : String) (gs : List Glyph)
    (h : parseWithin limit text = .ok gs) (f : Fault) :
    (runGlyphs depth gs).fault = some f ∧ f.isMissing = true ↔
      ∃ t ∈ begun (initialStore gs) (runGlyphs depth gs).trace,
        t.lacks (initialStore gs).numbers = some f := by
  obtain ⟨hne, hlevel⟩ := one_le_level_of_parse h
  obtain ⟨items, htree, hflat, -⟩ | ⟨htree, -⟩ := tree_cases depth hne hlevel
  · have hsound : ∀ e ∈ (Run.block steps depth items (initialStore gs)).trace,
        ∀ t ∈ e.glyph.glyph.glyph.tokens, t.Sound (initialStore gs).numbers := fun e he t ht => by
      refine sound_of_parse h (hflat ▸ ?_) ht
      exact List.mem_map_of_mem (block_glyph_mem depth items _ e he)
    rw [runGlyphs_of_tree htree, begun_lacks_iff (block_chained depth items _) rfl hsound, and_comm]
    exact and_congr_right fun hf => block_failsBy hf depth items _
  · have hrun : runGlyphs depth gs = .failed (initialStore gs) .tooDeep := by
      rw [runGlyphs, htree]
    rw [hrun]
    simp only [failed, begun, Option.some.injEq, List.not_mem_nil, false_and, exists_false,
      iff_false]
    rintro ⟨rfl, hf⟩
    cases hf

/-- Two glyphs: one that writes to lists `1` and `2`, and one that overwrites list `1` by list
`2`. -/
def pairedDrawing : String := "╵╰─\n ╰─\n   ╷\n\n╵╰────╮\n ╭─╶  ╰─╶\n         ╷"

/-- The run gets stuck in its second glyph. -/
theorem missing_fault_iff_paired : ∃ gs, parseWithin nestingLimit pairedDrawing = .ok gs ∧
    (runGlyphs nestingLimit gs).fault = some (.missingField "ref_list") ∧
    ∃ t ∈ begun (initialStore gs) (runGlyphs nestingLimit gs).trace,
      t.lacks (initialStore gs).numbers = some (.missingField "ref_list") := by
  obtain ⟨gs, items, hparse, htree, hfault⟩ : ∃ gs items,
      parseWithin nestingLimit pairedDrawing = .ok gs ∧ tree nestingLimit gs = .ok items ∧
      (Run.block steps nestingLimit items (initialStore gs)).fault =
        some (.missingField "ref_list") :=
    ⟨_, _, by conv_lhs => cbv, by conv_lhs => cbv, by decide +kernel⟩
  rw [← runGlyphs_of_tree htree] at hfault
  exact ⟨gs, hparse, hfault, (missing_fault_iff _ _ _ gs hparse _).mp ⟨hfault, rfl⟩⟩

theorem fault_of_tree {text : String} {f : Option Fault} (h : ∃ gs items,
    parse text = .ok gs ∧ tree nestingLimit gs = .ok items ∧
      (Run.block steps nestingLimit items (initialStore gs)).fault = f) :
    (run text).fault = f := by
  obtain ⟨gs, items, hparse, htree, hfault⟩ := h
  rw [run_of_tree hparse htree, hfault]

/-- **Three programs that are accepted and get stuck**: on an action from list to list, on a value
that is to be popped, and on a question about a list that they do not have. -/
theorem accepted_stuck :
    (run pairedDrawing).fault = some (.missingField "ref_list") ∧
      (run "╵╰─\n ╭\n │\n │\n │\n ╰─ ╷").fault = some (.missingField "ref_cell") ∧
      (run "╵╰─ ╷ ╭╷\n    ╰─╯╰─ ╷").fault = some (.missingList 3) := by
  refine ⟨fault_of_tree ?_, fault_of_tree ?_, fault_of_tree ?_⟩
  all_goals exact ⟨_, _, by conv_lhs => cbv, by conv_lhs => cbv, by decide +kernel⟩

end Program

end StrandScript
