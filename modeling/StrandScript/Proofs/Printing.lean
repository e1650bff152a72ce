import StrandScript.Listing
import StrandScript.Proofs.TokenFields

/-!
# Listings of programs

A program that is accepted can be written out. Its tokens carry all the fields that a listing reads
(`Token.Complete`, by `Program.complete_of_parse`), and a token that does has its line of
pseudo-code, unless the line would show a number of more than 4300 digits (`Listing.line_eq_error`).
That this is the one thing that a listing fails at is carried from the lines to the pseudo-code of a
glyph (`Listing.pseudo_eq_error`) and to the program (`Listing.program_eq_error`).
-/

namespace StrandScript

/-! ## Complete tokens -/

/-- A data token with all fields that a listing reads: its list and its cell, a value or a cell to
read from, and a command if an action is attached. -/
structure DataToken.Complete (d : DataToken) : Prop where
  role : d.step.role = some .data
  list : d.step.list.isSome
  cell : d.step.cell.isSome
  source : d.step.form = some .value ∧ d.step.value.isSome ∨
    d.step.form = some .ref ∧ d.step.ref.isSome
  action : d.step.action.isSome
  command : d.action.isSome → ∃ a, d.step.action = some (some a) ∧ a.command.isSome

/-- A question with all fields that a listing reads: the type of its block, and the list or the cell
that it is about. -/
structure QuestionToken.Complete (q : QuestionToken) : Prop where
  role : q.step.role = some .question
  form : q.step.form = some (.other "first")
  repetition : q.step.repetition.isSome
  subject : q.step.subject = some .list ∧ q.step.refList.isSome ∨
    q.step.subject = some .cell ∧ q.step.ref.isSome

/-- A token with all fields that a listing reads. -/
def Token.Complete : Token → Prop
  | .data d => d.Complete
  | .question q => q.Complete

theorem DataToken.Told.complete {d : DataToken} (h : d.Told) : d.Complete := by
  obtain ⟨hrole, hlist, hcell, href, -, haction⟩ := d.step_fields
  refine ⟨hrole, by simp [hlist], by simp [hcell], ?_, by simp [haction], ?_⟩
  · obtain ⟨⟨n, hn⟩, -⟩ | ⟨⟨p, hp⟩, r, hr⟩ := h.source
    · obtain ⟨hform, hvalue⟩ := step_of_value hn
      exact .inl ⟨hform, by simp [hvalue]⟩
    · exact .inr ⟨step_of_ref hp, by simp [href, hr]⟩
  · intro hsome
    obtain ⟨a, ha⟩ := Option.isSome_iff_exists.mp hsome
    obtain ⟨n, c, scope, hact⟩ := h.action a ha
    rw [haction, ha, Option.bind_some, Strand.act, hact]
    cases scope with
    | element => exact ⟨_, rfl, rfl⟩
    | list => exact ⟨_, rfl, rfl⟩
    | listToList => exact ⟨_, rfl, rfl⟩

theorem QuestionToken.complete (q : QuestionToken) : q.Complete := by
  refine ⟨rfl, rfl, rfl, ?_⟩
  unfold step
  cases q.target with
  | cell r => exact .inr ⟨rfl, rfl⟩
  | list n => exact .inl ⟨rfl, rfl⟩

/-- Reading leaves no token incomplete. -/
theorem Program.complete_of_parse {limit : Nat} {text : String} {gs : List Glyph}
    (h : parseWithin limit text = .ok gs) {g : Glyph} (hg : g ∈ gs) {t : Token}
    (ht : t ∈ g.tokens) :
    t.Complete := by
  cases t with
  | data d => exact (told_of_parse h hg ht).complete
  | question q => exact q.complete

/-! ## Lines -/

/-- A token with a number that is too long to be written. -/
def Token.TooLong (t : Token) : Prop :=
  t.step.form = some .value ∧ ∃ n, t.step.value = some (.int n) ∧ Value.fits n = false

theorem Value.text_eq_error {v : Value} {f : Fault} :
    v.text = .error f ↔ f = .badValue ∧ ∃ n, v = .int n ∧ fits n = false := by
  cases v with
  | int n =>
    rw [text, intText]
    cases hn : fits n with
    | true => simp [hn]
    | false => simpa [hn] using eq_comm
  | real x => simp [text]
  | complex re im => simp [text]
  | empty => simp [text]

namespace Listing

variable {f : Fault} {d : DataToken}

theorem exists_listText (h : d.Complete) : ∃ s, listText (.of d.step) = .ok s := by
  obtain ⟨l, hl⟩ := Option.isSome_iff_exists.mp h.list
  unfold listText Note.of
  rw [hl]
  exact ⟨_, rfl⟩

theorem exists_cellText (h : d.Complete) : ∃ s, cellText (.of d.step) = .ok s := by
  obtain ⟨s, hs⟩ := exists_listText h
  obtain ⟨c, hc⟩ := Option.isSome_iff_exists.mp h.cell
  unfold cellText
  rw [hs]
  simp only [Note.of, hc]
  exact ⟨_, rfl⟩

/-- Every command has its words. -/
theorem exists_commandText (h : d.Complete) (c : Command) :
    ∃ s, commandText (.of d.step) c = .ok s := by
  obtain ⟨list, hlist⟩ := exists_listText h
  obtain ⟨place, hplace⟩ := exists_cellText h
  cases c with
  | append | popAppend =>
    simp only [commandText, hlist]
    exact ⟨_, rfl⟩
  | insert =>
    obtain ⟨k, hk⟩ := Option.isSome_iff_exists.mp h.cell
    have hcell : (Note.of d.step).cell = some (some k) := by simp [Note.of, hk]
    simp only [commandText, hlist, hcell]
    exact ⟨_, rfl⟩
  | add | subtract | overwrite | multiply | divide | modulo | power | root | pop | other =>
    simp only [commandText, hplace]
    exact ⟨_, rfl⟩

theorem exists_writeText (h : d.Complete) : ∃ s, writeText (.of d.step) = .ok s := by
  obtain ⟨place, hplace⟩ := exists_cellText h
  obtain ⟨a, ha⟩ := Option.isSome_iff_exists.mp h.action
  have haction : (Note.of d.step).action = some a := ha
  have hform : (Note.of d.step).form = some .value ∨ (Note.of d.step).form = some .ref :=
    h.source.imp And.left And.left
  unfold writeText
  rw [haction]
  simp only [field, bind, Except.bind]
  cases a.bind (·.command) with
  | some c => exact exists_commandText h c
  | none =>
    obtain hform | hform := hform <;>
      · rw [hform]
        simp only [hplace]
        exact ⟨_, rfl⟩

/-- The end of a data token's line: only a number that is too long cannot be written. -/
theorem sourceText_eq_error (h : d.Complete) :
    sourceText (.of d.step) = .error f ↔ f = .badValue ∧ (Token.data d).TooLong := by
  change _ ↔ f = .badValue ∧ d.step.form = some .value ∧
    ∃ n, d.step.value = some (.int n) ∧ Value.fits n = false
  obtain ⟨hform, hvalue⟩ | ⟨hform, href⟩ := h.source
  · obtain ⟨v, hv⟩ := Option.isSome_iff_exists.mp hvalue
    have hsource : sourceText (.of d.step) = v.text := by
      simp only [sourceText, Note.of, hform, hv]
      rfl
    rw [hsource, Value.text_eq_error, hform, hv]
    simp
  · obtain ⟨r, hr⟩ := Option.isSome_iff_exists.mp href
    have hsource : ∃ s, sourceText (.of d.step) = .ok s := by
      simp only [sourceText, Note.of, hform, hr]
      exact ⟨_, rfl⟩
    obtain ⟨s, hs⟩ := hsource
    simp [hs, hform]

theorem exists_questionText {q : QuestionToken} (h : q.Complete) :
    ∃ s, questionText (.of q.step) = .ok s := by
  obtain ⟨b, hb⟩ := Option.isSome_iff_exists.mp h.repetition
  obtain ⟨hsubject, hlist⟩ | ⟨hsubject, href⟩ := h.subject
  · obtain ⟨n, hn⟩ := Option.isSome_iff_exists.mp hlist
    simp only [questionText, Note.of, hb, hsubject, hn]
    exact ⟨_, rfl⟩
  · obtain ⟨r, hr⟩ := Option.isSome_iff_exists.mp href
    simp only [questionText, Note.of, hb, hsubject, hr]
    exact ⟨_, rfl⟩

/-- **The line of a complete token** is written, unless its number is too long. -/
theorem line_eq_error {t : Token} (h : t.Complete) :
    line (.of t.step) = .error f ↔ f = .badValue ∧ t.TooLong := by
  cases t with
  | data d =>
    have hd : d.Complete := h
    obtain ⟨head, hhead⟩ := exists_writeText hd
    have hrole : (Note.of d.step).role = some .data := hd.role
    have hline : line (.of d.step) =
        (sourceText (.of d.step)).map fun source => head ++ source ++ "\n" := by
      unfold line
      rw [hrole]
      simp only [field, bind, Except.bind, hhead]
      cases sourceText (.of d.step) <;> rfl
    change line (.of d.step) = .error f ↔ _
    rw [hline, ← sourceText_eq_error hd]
    cases sourceText (.of d.step) <;> simp [Except.map]
  | question q =>
    have hq : q.Complete := h
    obtain ⟨head, hhead⟩ := exists_questionText hq
    have hrole : (Note.of q.step).role = some .question := hq.role
    have hform : (Note.of q.step).form = some (.other "first") := hq.form
    have hline : line (.of q.step) = .ok (head ++ "" ++ "\n") := by
      unfold line sourceText
      rw [hrole, hform]
      simp only [field, bind, Except.bind, hhead]
      rfl
    change line (.of q.step) = .error f ↔ _
    rw [hline]
    simp [Token.TooLong, Token.step, hq.form]

/-! ## Glyphs and programs -/

variable {ts : List Token} {gs : List Glyph}

theorem pseudo_eq_error (level : Int) (h : ∀ t ∈ ts, t.Complete) :
    pseudo (.of level ts) = .error f ↔ f = .badValue ∧ ∃ t ∈ ts, t.TooLong := by
  have hlines : (ts.map fun t => Note.of t.step).mapM line = .error f ↔
      f = .badValue ∧ ∃ t ∈ ts, t.TooLong := by
    rw [List.mapM_map]
    exact Outcome.mapM_eq_error_of_unique fun t ht e => line_eq_error (h t ht)
  have hpseudo : pseudo (.of level ts) =
      ((ts.map fun t => Note.of t.step).mapM line).map fun lines =>
        "level: " ++ numberText (some level) ++ "\n" ++ String.join lines := by
    unfold pseudo Sheet.of
    simp only [field, bind, Except.bind]
    cases (ts.map fun t => Note.of t.step).mapM line <;> rfl
  rw [← hlines, hpseudo]
  cases (ts.map fun t => Note.of t.step).mapM line <;> simp [Except.map]

theorem sheets_eq_error (i : Nat) (h : ∀ g ∈ gs, ∀ t ∈ g.tokens, t.Complete) :
    sheets false i (gs.map page) = .error f ↔
      f = .badValue ∧ ∃ g ∈ gs, ∃ t ∈ g.tokens, t.TooLong := by
  induction gs generalizing i with
  | nil => simp [sheets]
  | cons g gs ih =>
    rw [List.forall_mem_cons] at h
    rw [List.map_cons, page, sheets, List.exists_mem_cons_iff]
    refine Outcome.bind_eq_error_of_unique (fun e => pseudo_eq_error g.level h.1) fun code _ => ?_
    rw [← ih (i + 1) h.2]
    cases sheets false (i + 1) (gs.map page) <;> simp [bind, Except.bind, pure, Except.pure]

/-- **A program of complete tokens is written out**, unless it has a number that is too long. -/
theorem program_eq_error (h : ∀ g ∈ gs, ∀ t ∈ g.tokens, t.Complete) :
    program false gs = .error f ↔ f = .badValue ∧ ∃ g ∈ gs, ∃ t ∈ g.tokens, t.TooLong := by
  rw [← sheets_eq_error 0 h, program, pages]
  cases sheets false 0 (gs.map page) <;> simp [Except.map]

/-- **Programs that are accepted can be written out.** Their tokens are complete, and the listing of
the program, and the pseudo-code of each of its glyphs, fail exactly at a number that is too
long. -/
theorem printing_eq_error_iff (limit : Nat) (text : String) (gs : List Glyph)
    (hparse : Program.parseWithin limit text = .ok gs) :
    (∀ f, program false gs = .error f ↔
      f = .badValue ∧ ∃ g ∈ gs, ∃ t ∈ g.tokens, t.TooLong) ∧
    ∀ g ∈ gs,
      (∀ f, pseudo (.of g.level g.tokens) = .error f ↔
        f = .badValue ∧ ∃ t ∈ g.tokens, t.TooLong) ∧
      ∀ t ∈ g.tokens, t.Complete := by
  have hcomplete : ∀ g ∈ gs, ∀ t ∈ g.tokens, t.Complete :=
    fun g hg t ht => Program.complete_of_parse hparse hg ht
  refine ⟨fun f => program_eq_error hcomplete, fun g hg => ⟨fun f => ?_, hcomplete g hg⟩⟩
  exact pseudo_eq_error g.level (hcomplete g hg)

/-- A glyph with a reference that an action is attached to, a number and a question. -/
def listedDrawing : String := "╵╰─╶ ╷\n ╰─  │\n ╭─  ╷\n     │  ╷"

/-- Tokens of all kinds that a listing tells apart. The only number among them is `2`, so the
program and its glyph have their listings. -/
theorem printing_eq_error_iff_listed :
    ∃ gs, Program.parseWithin nestingLimit listedDrawing = .ok gs ∧
      gs.map (fun g => g.tokens.map fun t => (t.step.form, t.step.value)) =
        [[(some .ref, some .empty), (some .value, some (.int 2)),
          (some (.other "first"), some .empty)]] ∧
      (program false gs).isOk = true ∧
      ∀ g ∈ gs, (pseudo (.of g.level g.tokens)).isOk = true ∧ ∀ t ∈ g.tokens, t.Complete := by
  have key : ((Program.parseWithin nestingLimit listedDrawing).toOption.map fun gs =>
      gs.map fun g => g.tokens.map fun t => (t.step.form, t.step.value)) =
      some [[(some .ref, some .empty), (some .value, some (.int 2)),
        (some (.other "first"), some .empty)]] := by cbv
  obtain ⟨gs, hgs, key⟩ := Option.map_eq_some_iff.mp key
  have hparse := Outcome.toOption_eq_some.mp hgs
  obtain ⟨hprogram, hglyphs⟩ := printing_eq_error_iff nestingLimit listedDrawing gs hparse
  have hshort : ∀ g ∈ gs, ∀ t ∈ g.tokens, ¬ t.TooLong := by
    rintro g hg t ht ⟨-, n, hn, hlong⟩
    have hrow : g.tokens.map _ ∈ gs.map fun g => g.tokens.map fun t =>
        (t.step.form, t.step.value) := List.mem_map_of_mem hg
    rw [key, List.mem_singleton] at hrow
    have hvalue : (t.step.form, t.step.value) ∈ g.tokens.map fun t =>
        (t.step.form, t.step.value) := List.mem_map_of_mem ht
    rw [hrow, hn] at hvalue
    obtain ⟨-, rfl⟩ : t.step.form = some .value ∧ n = 2 := by simpa using hvalue
    revert hlong
    decide +kernel
  refine ⟨gs, hparse, key, ?_, fun g hg => ⟨?_, (hglyphs g hg).2⟩⟩
  · refine Outcome.isOk_iff.mpr fun f hf => ?_
    obtain ⟨-, g, hg, t, ht, hlong⟩ := (hprogram f).mp hf
    exact hshort g hg t ht hlong
  · refine Outcome.isOk_iff.mpr fun f hf => ?_
    obtain ⟨-, t, ht, hlong⟩ := ((hglyphs g hg).1 f).mp hf
    exact hshort g hg t ht hlong

end Listing

end StrandScript
