import StrandScript.Listing
import StrandScript.Proofs.Assignment

/-!
# What a line tells

The line of pseudo-code of an assignment tells its list, its cell unless the command puts its value
at the end of the list, its command unless that is a root, and where its value comes from
(`Listing.Shown`). It tells nothing else (`Listing.line_eq_ok`), and all of this can be read off it
(`Listing.shown_of_text`): a number ends where no numeral follows (`Listing.toString_append_inj`),
and of the words for two commands none begins with the other (`Listing.words_apart`).
-/

namespace StrandScript

/-- A source whose number, if it is one, is not too long to be written. -/
def Source.Fits : Source → Prop
  | .value (some n) => Value.fits n = true
  | _ => True

/-- What the line of an assignment tells. -/
@[ext]
structure Listing.Shown where
  list : Int
  cell : Option Nat
  command : Option Command
  source : Source
deriving DecidableEq

/-- What the line of an assignment tells: no cell for a command that puts its value at the end of
the list, and no command for a root. -/
def Assignment.shown (a : Assignment) : Listing.Shown where
  list := a.list
  cell := if a.command.any Command.appends then none else some a.cell
  command := a.command.filter (· ≠ .root)
  source := a.source

namespace Listing

/-- The words for a command, before the number of the cell and after it. -/
def words : Option Command → String × String
  | some .subtract => ("[", "] -= ")
  | some .multiply => ("[", "] *= ")
  | some .divide => ("[", "] /= ")
  | some .modulo => ("[", "] %= ")
  | some .power => ("[", "] ^= ")
  | some .overwrite => ("[", "] = ")
  | some .append => (" append ", "")
  | some .insert => (" after cell ", " insert ")
  | some .pop => ("[", "] (pops) += ")
  | some .popAppend => (" pop/appends ", "")
  | _ => ("[", "] += ")

/-- The words for the source of a value. -/
def sourceWords : Source → String
  | .value n => numberText n
  | .cell n c => "list" ++ toString n ++ "[" ++ toString (c : Int) ++ "]"

/-- The beginning of a line. -/
def Shown.head (s : Shown) : String :=
  "list" ++ toString s.list ++ (words s.command).1 ++
    (s.cell.elim "" fun c => toString (c : Int)) ++
    (words s.command).2

/-- The line that tells something. -/
def Shown.text (s : Shown) : String := s.head ++ sourceWords s.source ++ "\n"

/-! ## Lines -/

theorem commandText_eq {a : Assignment} {c : Command} (h : a.command = some c) :
    commandText (.of a.step) c = .ok a.shown.head := by
  have hlist : listText (.of a.step) = .ok ("list" ++ toString a.list) := rfl
  have hplace : cellText (.of a.step) =
      .ok ("list" ++ toString a.list ++ "[" ++ toString (a.cell : Int) ++ "]") := rfl
  have hcell : field "assign_to_cell" (Note.of a.step).cell = .ok (some (a.cell : Int)) := rfl
  unfold Assignment.shown Shown.head
  rw [h]
  cases c <;>
    simp [commandText, hlist, hplace, hcell, bind, Except.bind, pure, Except.pure, words,
      Command.appends, Option.filter, numberText, String.append_assoc]

/-- The beginning of the line of an assignment. -/
theorem writeText_eq (a : Assignment) : writeText (.of a.step) = .ok a.shown.head := by
  have hplace : cellText (.of a.step) =
      .ok ("list" ++ toString a.list ++ "[" ++ toString (a.cell : Int) ++ "]") := rfl
  have haction : field "action" (Note.of a.step).action = .ok a.act := rfl
  have hform : (Note.of a.step).form = some .value ∨ (Note.of a.step).form = some .ref := by
    unfold Note.of Assignment.step
    cases a.source with
    | value n => exact .inl rfl
    | cell n c => exact .inr rfl
  unfold writeText
  rw [haction]
  simp only [bind, Except.bind]
  cases hc : a.act.bind (·.command) with
  | some c => exact commandText_eq hc
  | none =>
    have hcommand : a.command = none := hc
    unfold Assignment.shown Shown.head
    rw [hcommand]
    obtain hform | hform := hform <;>
      simp [hform, hplace, field, words, pure, Except.pure, String.append_assoc]

theorem sourceText_value {s : Note} {v : Value} (hform : s.form = some .value)
    (hv : s.value = some v) : sourceText s = v.text := by
  unfold sourceText
  rw [hform, hv]
  rfl

theorem intText_eq_ok {n : Int} {l : String} :
    Value.intText n = .ok l ↔ l = toString n ∧ Value.fits n = true := by
  unfold Value.intText
  split
  · simp [*, eq_comm]
  · simp [*]

/-- The end of the line of an assignment. -/
theorem sourceText_eq_ok {a : Assignment} {l : String} :
    sourceText (.of a.step) = .ok l ↔ l = sourceWords a.source ∧ a.source.Fits := by
  obtain ⟨list, cell, act, source⟩ := a
  cases source with
  | value n =>
    rw [sourceText_value rfl rfl]
    cases n with
    | none =>
      exact ⟨fun h => ⟨(Except.ok.inj h).symm, trivial⟩, fun h => congrArg Except.ok h.1.symm⟩
    | some n => exact intText_eq_ok
  | cell n c =>
    exact ⟨fun h => ⟨(Except.ok.inj h).symm, trivial⟩, fun h => congrArg Except.ok h.1.symm⟩

/-- **The line of an assignment** tells what is shown; it is written unless its number is too
long. -/
theorem line_eq_ok {a : Assignment} {l : String} :
    line (.of a.step) = .ok l ↔ l = a.shown.text ∧ a.source.Fits := by
  show (writeText (.of a.step) >>= fun head => sourceText (.of a.step) >>= fun source =>
    pure (head ++ source ++ "\n")) = .ok l ↔ _
  rw [writeText_eq]
  show (sourceText (.of a.step) >>= fun source => pure (a.shown.head ++ source ++ "\n")) = .ok l ↔ _
  rw [Outcome.bind_eq_ok]
  constructor
  · rintro ⟨source, hsource, h⟩
    obtain ⟨rfl, hfits⟩ := sourceText_eq_ok.mp hsource
    exact ⟨(Except.ok.inj h).symm, hfits⟩
  · rintro ⟨rfl, hfits⟩
    exact ⟨_, sourceText_eq_ok.mpr ⟨rfl, hfits⟩, rfl⟩

/-! ## Numbers in lines -/

/-- Whether a character may stand in a number. -/
def isNumeral (c : Char) : Bool := c.isDigit || c == '-'

theorem isNumeral_of_mem {n : Int} {c : Char} (h : c ∈ (toString n).toList) :
    isNumeral c = true := by
  have hdigit : ∀ k : Nat, c ∈ k.repr.toList → isNumeral c = true := fun k hk => by
    rw [Nat.repr_eq_ofList_toDigits, String.toList_ofList] at hk
    rw [isNumeral, Nat.isDigit_of_mem_toDigits (by decide) (by decide) hk, Bool.true_or]
  rw [Int.toString_eq_repr, Int.repr_eq_if] at h
  split at h
  · exact hdigit _ h
  · rw [String.toList_append] at h
    rcases List.mem_append.mp h with h | h
    · obtain rfl : c = '-' := List.mem_singleton.mp h
      decide
    · exact hdigit _ h

/-- Words that cannot go on a number. -/
def Delimits (w : String) : Prop := w.toList.head?.map isNumeral = some false

instance (w : String) : Decidable (Delimits w) := inferInstanceAs (Decidable (_ = _))

theorem takeWhile_number (n : Int) {w : String} (hw : Delimits w) (x : List Char) :
    ((toString n).toList ++ (w.toList ++ x)).takeWhile isNumeral = (toString n).toList := by
  obtain ⟨c, hc, hfalse⟩ := Option.map_eq_some_iff.mp hw
  obtain ⟨r, hr⟩ := List.head?_eq_some_iff.mp hc
  rw [List.takeWhile_append_of_pos fun c hc => isNumeral_of_mem hc, hr, List.cons_append,
    List.takeWhile_cons_of_neg (by simp [hfalse]), List.append_nil]

theorem toString_inj {m n : Int} : toString m = toString n ↔ m = n := by
  refine ⟨fun h => ?_, fun h => h ▸ rfl⟩
  have hdigits {k l : Nat} (h : k.repr = l.repr) : k = l := by
    rw [Nat.repr_eq_ofList_toDigits, Nat.repr_eq_ofList_toDigits, String.ofList_inj] at h
    rw [← Nat.ofDigitChars_ten_toDigits (n := k), h, Nat.ofDigitChars_ten_toDigits]
  -- A sign is no digit, so a negative number has not the text of another one.
  have hsign (k l : Nat) : k.repr ≠ "-" ++ l.repr := fun h => by
    have hmem : '-' ∈ k.repr.toList := by simp [h]
    rw [Nat.repr_eq_ofList_toDigits, String.toList_ofList] at hmem
    exact absurd (Nat.isDigit_of_mem_toDigits (by decide) (by decide) hmem) (by decide)
  rw [Int.toString_eq_repr, Int.toString_eq_repr, Int.repr_eq_if, Int.repr_eq_if] at h
  split at h <;> split at h
  · have := hdigits h
    omega
  · exact absurd h (hsign _ _)
  · exact absurd h.symm (hsign _ _)
  · have := hdigits ((String.append_right_inj _).mp h)
    omega

/-- **A number before words that cannot go on it is read off a text.** -/
theorem toString_append_inj {m n : Int} {v w : String} {x y : List Char} (hv : Delimits v)
    (hw : Delimits w)
    (h : (toString m).toList ++ (v.toList ++ x) = (toString n).toList ++ (w.toList ++ y)) :
    m = n ∧ v.toList ++ x = w.toList ++ y := by
  have heq : (toString m).toList = (toString n).toList := by
    rw [← takeWhile_number m hv x, h, takeWhile_number n hw y]
  refine ⟨toString_inj.mp (String.toList_inj.mp heq), ?_⟩
  rw [heq] at h
  exact List.append_cancel_left h

/-- No number is a text with a character that is no numeral. -/
theorem toString_ne {n : Int} {c : Char} {w : String} (hc : isNumeral c = false)
    (hw : c ∈ w.toList) :
    toString n ≠ w := by
  rintro rfl
  rw [isNumeral_of_mem hw] at hc
  cases hc

theorem numberText_inj {m n : Option Int} (h : numberText m = numberText n) : m = n := by
  have hnone (k : Int) : toString k ≠ "None" :=
    toString_ne (show isNumeral 'N' = false by decide) (by decide)
  cases m with
  | none =>
    cases n with
    | none => rfl
    | some n => exact absurd h.symm (hnone n)
  | some m =>
    cases n with
    | none => exact absurd h (hnone m)
    | some n => rw [toString_inj.mp h]

theorem numberText_ne_cell (m : Option Int) (n : Int) (c : Nat) :
    numberText m ≠ sourceWords (.cell n c) := by
  have hl : 'l' ∈ (sourceWords (.cell n c)).toList := by
    simp [sourceWords, String.toList_append]
  cases m with
  | none =>
    intro h
    rw [← h] at hl
    exact absurd hl (by decide)
  | some m => exact toString_ne (by decide) hl

/-- **The source of a value is read off its words.** -/
theorem sourceWords_injective : Function.Injective sourceWords := by
  intro s t h
  cases s with
  | value m =>
    cases t with
    | value n => rw [numberText_inj h]
    | cell n j => exact absurd h (numberText_ne_cell m n j)
  | cell m i =>
    cases t with
    | value n => exact absurd h.symm (numberText_ne_cell n m i)
    | cell n j =>
      have hchars := congrArg String.toList h
      simp only [sourceWords, String.toList_append, List.append_assoc] at hchars
      obtain ⟨hlist, hchars⟩ := toString_append_inj (by decide) (by decide)
        (List.append_cancel_left hchars)
      have hcell := List.append_cancel_right (List.append_cancel_left hchars)
      rw [hlist, Int.ofNat_inj.mp (toString_inj.mp (String.toList_inj.mp hcell))]

/-! ## Commands in lines -/

/-- The commands that lines tell. -/
def commands : List (Option Command) :=
  none :: ((Command.drawn ++ Command.drawn.map Command.forList).filter (· ≠ .root)).map some

theorem mem_commands {a : Assignment} (h : a.Drawn) : a.shown.command ∈ commands := by
  have hdrawn : ∀ act ∈ Act.drawn, act.command.filter (· ≠ .root) ∈ commands := by decide
  unfold Assignment.shown Assignment.command
  cases hact : a.act with
  | none => exact List.mem_cons_self
  | some act => exact hdrawn act (h act hact)

theorem words_apart : ∀ c ∈ commands, ∀ c' ∈ commands,
    ((words c).1.toList <+: (words c').1.toList → (words c).1 = (words c').1) ∧
    ((words c).1 = (words c').1 → c.any Command.appends = c'.any Command.appends) ∧
    ((words c).1 = (words c').1 → (words c).2.toList <+: (words c').2.toList → c = c') := by
  decide +kernel

theorem words_delimit : ∀ c ∈ commands, Delimits (words c).1 ∧
    (c.any Command.appends = false → Delimits (words c).2) := by
  decide +kernel

/-- What follows if either of two texts begins with the other holds if they can be continued to the
same text. -/
theorem of_append_eq_append {v w x y : List Char} (h : v ++ x = w ++ y) {P : Prop}
    (hvw : v <+: w → P) (hwv : w <+: v → P) : P := by
  rcases List.prefix_or_prefix_of_prefix (List.prefix_append v x) (h ▸ List.prefix_append w y) with
    h | h
  · exact hvw h
  · exact hwv h

theorem cell_eq (a : Assignment) :
    a.shown.cell = if a.shown.command.any Command.appends then none else some a.cell := by
  unfold Assignment.shown
  cases a.command with
  | none => rfl
  | some c => cases c <;> rfl

/-- The cell is read off the rest of a line. -/
theorem cell_of_text {a b : Assignment} (ha : a.Drawn) (hb : b.Drawn)
    (happends : a.shown.command.any Command.appends = b.shown.command.any Command.appends)
    {x y : List Char}
    (h : (a.shown.cell.elim "" fun c => toString (c : Int)).toList ++
        ((words a.shown.command).2.toList ++ x) =
      (b.shown.cell.elim "" fun c => toString (c : Int)).toList ++
        ((words b.shown.command).2.toList ++ y)) :
    a.shown.cell = b.shown.cell ∧
      (words a.shown.command).2.toList ++ x = (words b.shown.command).2.toList ++ y := by
  have hwords := (words_delimit _ (mem_commands ha)).2
  have hwords' := (words_delimit _ (mem_commands hb)).2
  rw [cell_eq, cell_eq, ← happends] at h ⊢
  cases hc : a.shown.command.any Command.appends with
  | true =>
    rw [hc] at h
    exact ⟨rfl, h⟩
  | false =>
    rw [hc] at h
    obtain ⟨hcell, h⟩ := toString_append_inj (hwords hc) (hwords' (happends ▸ hc)) h
    exact ⟨by rw [Int.ofNat_inj.mp hcell], h⟩

/-- **What a line tells can be read off it.** -/
theorem shown_of_text {a b : Assignment} (ha : a.Drawn) (hb : b.Drawn)
    (h : a.shown.text = b.shown.text) : a.shown = b.shown := by
  have hchars := congrArg String.toList h
  simp only [Shown.text, Shown.head, String.toList_append, List.append_assoc] at hchars
  have hca := mem_commands ha
  have hcb := mem_commands hb
  obtain ⟨hbefore, happends, hsame⟩ := words_apart _ hca _ hcb
  obtain ⟨hbefore', -, hsame'⟩ := words_apart _ hcb _ hca
  -- The list, which the words before the cell end.
  obtain ⟨hlist, hchars⟩ := toString_append_inj (words_delimit _ hca).1 (words_delimit _ hcb).1
    (List.append_cancel_left hchars)
  -- The words before the cell.
  have hwords : (words a.shown.command).1 = (words b.shown.command).1 :=
    of_append_eq_append hchars hbefore fun h => (hbefore' h).symm
  rw [hwords] at hchars
  have hchars := List.append_cancel_left hchars
  -- The cell, if it is told.
  obtain ⟨hcell, hchars⟩ : a.shown.cell = b.shown.cell ∧ _ ++ _ = _ ++ _ :=
    cell_of_text ha hb (happends hwords) hchars
  -- The words after it.
  have hcommand : a.shown.command = b.shown.command :=
    of_append_eq_append hchars (hsame hwords) fun h => (hsame' hwords.symm h).symm
  rw [hcommand] at hchars
  have hsource := sourceWords_injective (String.toList_inj.mp
    (List.append_cancel_right (List.append_cancel_left hchars)))
  exact Shown.ext hlist hcell hcommand hsource

end Listing

end StrandScript
