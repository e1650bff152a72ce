import StrandScript.Proofs.BlockTree
import StrandScript.Proofs.Replay

/-!
# Runs straight through

When every glyph of a block, on every store of some kind, answers that the run goes on, the block is
run straight through: every glyph once, in reading order. Such a run fails only for want of nesting
or because a store at the beginning of a block cannot be saved (`block_straight`).
-/

namespace StrandScript.Run

open Item

variable {α : Type}

/-! ## Runs one after the other -/

theorem andThen_of_fault {r : Run α} {f : Fault} (k : Store → Run α) (h : r.fault = some f) :
    r.andThen k = r := by
  unfold andThen
  rw [h]

theorem andThen_fault {r : Run α} (k : Store → Run α) (h : r.fault = none) :
    (r.andThen k).fault = (k r.store).fault := by
  unfold andThen
  rw [h]

theorem andThen_executed {r : Run α} (k : Store → Run α) (h : r.fault = none) :
    (r.andThen k).executed = r.executed ++ (k r.store).executed := by
  unfold andThen
  rw [h]
  exact List.map_append

/-! ## Blocks whose glyphs all go on -/

variable (steps : α → List Step) (Good : Store → Prop)

/-- On good stores the glyph answers that the run goes on, and leaves a good store. -/
def Proceeds (g : α) : Prop :=
  ∀ s, Good s → ∃ t, Step.performAll (steps g) s = .ok .proceed t ∧ Good t

/-- A block at store `s` stops short with a fault: it is nested too deep, or a store on its way
cannot be saved. -/
def StopsShort (limit : Nat) (items : List (Item α)) (s : Store) (f : Fault) : Prop :=
  (f = .tooDeep ∧ limit < nesting items) ∨
    ∃ pre, pre <+: flatten items ∧ (replay steps pre s).saveable = .error f

/-- A run of a block goes straight through or stops short. -/
def Straight (limit : Nat) (items : List (Item α)) (s : Store) (r : Run α) : Prop :=
  (r.fault = none ∧ r.executed = flatten items) ∨
    ∃ f, r.fault = some f ∧ StopsShort steps limit items s f

variable {steps Good}

theorem Proceeds.effect_good {g : α} {s : Store} (h : Proceeds steps Good g) (hs : Good s) :
    Good (effect steps g s) := by
  obtain ⟨t, ht, hgood⟩ := h s hs
  unfold effect
  rw [ht]
  exact hgood

theorem replay_good {gs : List α} {s : Store} (h : ∀ g ∈ gs, Proceeds steps Good g) (hs : Good s) :
    Good (replay steps gs s) := by
  induction gs generalizing s with
  | nil => exact hs
  | cons g gs ih =>
    rw [List.forall_mem_cons] at h
    exact ih h.2 (h.1.effect_good hs)

theorem StopsShort.glyph {limit : Nat} {g : α} {rest : List (Item α)} {s : Store} {f : Fault}
    (h : StopsShort steps limit rest (effect steps g s) f) :
    StopsShort steps limit (.glyph g :: rest) s f := by
  obtain ⟨rfl, hlt⟩ | ⟨pre, hpre, hsave⟩ := h
  · exact Or.inl ⟨rfl, by rwa [nesting_glyph]⟩
  · refine Or.inr ⟨g :: pre, ?_, hsave⟩
    rw [flatten_glyph]
    exact (List.prefix_cons_inj g).mpr hpre

theorem StopsShort.inner {limit : Nat} {items rest : List (Item α)} {s : Store} {f : Fault}
    (h : StopsShort steps limit items s f) :
    StopsShort steps (limit + 1) (.block items :: rest) s f := by
  obtain ⟨rfl, hlt⟩ | ⟨pre, hpre, hsave⟩ := h
  · refine Or.inl ⟨rfl, ?_⟩
    rw [nesting_block]
    omega
  · refine Or.inr ⟨pre, ?_, hsave⟩
    rw [flatten_block]
    exact hpre.trans (List.prefix_append _ _)

theorem StopsShort.outer {limit : Nat} {items rest : List (Item α)} {s : Store} {f : Fault}
    (h : StopsShort steps limit rest (replay steps (flatten items) s) f) :
    StopsShort steps limit (.block items :: rest) s f := by
  obtain ⟨rfl, hlt⟩ | ⟨pre, hpre, hsave⟩ := h
  · refine Or.inl ⟨rfl, ?_⟩
    rw [nesting_block]
    omega
  · refine Or.inr ⟨flatten items ++ pre, ?_, by rwa [replay_append]⟩
    rw [flatten_block]
    exact (List.prefix_append_right_inj _).mpr hpre

theorem members_straight {limit : Nat}
    (hblock : ∀ items s, (∀ g ∈ flatten items, Proceeds steps Good g) → Good s →
      Straight steps limit items s (block steps limit items s))
    (whole : List (Item α)) {items : List (Item α)} {s : Store}
    (h : ∀ g ∈ flatten items, Proceeds steps Good g) (hs : Good s) :
    Straight steps (limit + 1) items s (members steps (block steps limit) whole items s) := by
  induction items generalizing s with
  | nil => exact Or.inl ⟨rfl, by rw [flatten_nil]; rfl⟩
  | cons i rest ih =>
    cases i with
    | glyph g =>
      rw [flatten_glyph, List.forall_mem_cons] at h
      obtain ⟨t, ht, hgood⟩ := h.1 s hs
      have heff : effect steps g s = t := by
        unfold effect
        rw [ht]
      rw [members, ht]
      obtain ⟨hf, he⟩ | ⟨f, hf, hstop⟩ := ih h.2 hgood
      · refine Or.inl ⟨hf, ?_⟩
        rw [flatten_glyph, ← he]
        rfl
      · exact Or.inr ⟨f, hf, .glyph (heff ▸ hstop)⟩
    | block items =>
      rw [flatten_block] at h
      have hitems : ∀ g ∈ flatten items, Proceeds steps Good g := fun g hg =>
        h g (List.mem_append_left _ hg)
      have hrest : ∀ g ∈ flatten rest, Proceeds steps Good g := fun g hg =>
        h g (List.mem_append_right _ hg)
      rw [members]
      obtain ⟨hf, he⟩ | ⟨f, hf, hstop⟩ := hblock items s hitems hs
      · have hstore : (block steps limit items s).store = replay steps (flatten items) s := by
          rw [store_eq_replay, he]
        have := ih hrest (hstore ▸ replay_good hitems hs)
        rw [Straight, andThen_fault _ hf, andThen_executed _ hf, he]
        obtain ⟨hf', he'⟩ | ⟨f, hf', hstop⟩ := this
        · exact Or.inl ⟨hf', by rw [he', flatten_block]⟩
        · exact Or.inr ⟨f, hf', .outer (hstore ▸ hstop)⟩
      · rw [andThen_of_fault _ hf]
        exact Or.inr ⟨f, hf, hstop.inner⟩

/-- **A block whose glyphs all go on is run straight through**, or stops short. -/
theorem block_straight (limit : Nat) (items : List (Item α)) (s : Store)
    (h : ∀ g ∈ flatten items, Proceeds steps Good g) (hs : Good s) :
    Straight steps limit items s (block steps limit items s) := by
  induction limit generalizing items s with
  | zero => exact Or.inr ⟨_, rfl, Or.inl ⟨rfl, nesting_pos items⟩⟩
  | succ limit ih =>
    unfold block
    split
    · rename_i f hf
      exact Or.inr ⟨f, rfl, Or.inr ⟨[], List.nil_prefix, hf⟩⟩
    · exact members_straight ih items h hs

end StrandScript.Run
